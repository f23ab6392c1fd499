import Lane.Host.Path
import Mathlib.Data.List.Basic
import Mathlib.Data.List.TakeDrop
import Mathlib.Tactic.Lemma

set_option relaxedAutoImplicit false
set_option autoImplicit false

/-!
# Clean paths

Cleaning a path leaves names, and before them steps up from where the path starts. So a clean path
is its directory and its last part, each of which can be read off it, and a file's name is its stem
and its extension.

## Main definitions

* `Lane.Path.IsName`: what the last part of a file's path can be.
* `Lane.Path.steps`, `Lane.Path.AreSteps`: the parts of a clean path.
* `Lane.Path.stem`: the name of a file without its extension.

## Main results

* `Lane.Path.clean_clean`: a clean path stays as it is.
* `Lane.Path.join_spec`, `Lane.Path.eq_join`: a name below a directory is the one clean path with
  that last part and that directory.
* `Lane.Path.stem_ext_iff`: a name is taken apart in one way into a stem and an extension.
-/

namespace Lane.Path

/-! ## Parts -/

/-- A slash is one character. -/
lemma toList_slash : "/".toList = ['/'] := by decide

/-- A path below another has the parts of both. -/
lemma parts_append (p q : String) : parts (p ++ "/" ++ q) = parts p ++ parts q := by
  have hsplit := List.splitOn_append_cons_self (a := '/') p.toList q.toList
  simp [parts, toList_slash, hsplit]

/-- A path without slashes has one part. -/
lemma parts_eq_singleton {p : String} (h : '/' ∉ p.toList) : parts p = [p] := by
  rw [parts, List.splitOn_eq_singleton h]
  simp

/-- Parts of a list have no separator. -/
lemma notMem_of_mem_splitOn {c : Char} : ∀ {cs l : List Char}, l ∈ cs.splitOn c → c ∉ l
  | [], l, h => by
    rw [List.splitOn_nil, List.mem_singleton] at h
    simp [h]
  | d :: cs, l, h => by
    rw [List.splitOn_cons_eq_if_modifyHead] at h
    split at h
    · obtain rfl | h := List.mem_cons.1 h
      · simp
      · exact notMem_of_mem_splitOn h
    · rename_i hd
      cases hs : cs.splitOn c with
      | nil => exact absurd hs (List.splitOn_ne_nil c cs)
      | cons first rest =>
        rw [hs] at h
        obtain rfl | h := List.mem_cons.1 h
        · have hfirst : c ∉ first := notMem_of_mem_splitOn (hs ▸ List.mem_cons_self)
          have hne : c ≠ d := fun he => hd (by simp [he])
          simp [hfirst, hne]
        · exact notMem_of_mem_splitOn (hs ▸ List.mem_cons_of_mem first h)

/-- Parts of a path have no slash. -/
lemma slash_notMem_of_mem_parts {p part : String} (h : part ∈ parts p) : '/' ∉ part.toList := by
  obtain ⟨l, hl, rfl⟩ := List.mem_map.1 h
  rw [String.toList_ofList]
  exact notMem_of_mem_splitOn hl

/-- A path is split into what it was joined from. -/
lemma parts_intercalate {ps : List String} (h : ∀ p ∈ ps, '/' ∉ p.toList) (hne : ps ≠ []) :
    parts ("/".intercalate ps) = ps := by
  have hsplit : (['/'].intercalate (ps.map String.toList)).splitOn '/' = ps.map String.toList :=
    List.splitOn_intercalate '/' (List.forall_mem_map.2 h) (by simpa using hne)
  rw [parts, String.toList_intercalate, toList_slash, hsplit]
  simp

/-! ## Clean paths -/

/-- **Names**: what the last part of a file's path can be. -/
structure IsName (n : String) : Prop where
  ne_empty : n ≠ ""
  ne_dot : n ≠ "."
  ne_up : n ≠ ".."
  slash_notMem : '/' ∉ n.toList

/-- A text with an extension is a name. -/
lemma isName_append {s e : String} {letters : List Char} (he : e.toList = '.' :: letters)
    (hdot : '.' ∉ letters) (hslash : '/' ∉ letters) (hne : letters ≠ []) (hs : '/' ∉ s.toList) :
    IsName (s ++ e) := by
  obtain ⟨c, cs, rfl⟩ := List.exists_cons_of_ne_nil hne
  have htext : (s ++ e).toList = s.toList ++ '.' :: c :: cs := by rw [String.toList_append, he]
  have hc : c ≠ '.' := fun hc => hdot (hc ▸ List.mem_cons_self)
  have long : ∀ t : String, s ++ e = t → t.toList ≠ [] ∧ t.toList ≠ ['.'] ∧
      t.toList ≠ ['.', '.'] := by
    rintro t rfl
    rw [htext]
    rcases s.toList with - | ⟨a, - | ⟨b, rest⟩⟩ <;> simp [hc]
  refine ⟨fun h => (long _ h).1 rfl, fun h => (long _ h).2.1 rfl, fun h => (long _ h).2.2 rfl, ?_⟩
  rw [htext, List.mem_append, List.mem_cons]
  rintro (h | h | h)
  · exact hs h
  · exact absurd h (by decide)
  · exact hslash h

/-- The parts of a path that are left when it is cleaned, the last part first. -/
def steps (p : String) : List String := (parts p).foldl (push (isAbsolute p)) []

/-- The clean path of some parts, the last part first. -/
def render (rooted : Bool) (stack : List String) : String :=
  let text := "/".intercalate stack.reverse
  if rooted then "/" ++ text else if text = "" then "." else text

/-- A path is cleaned by rendering its steps. -/
lemma clean_eq (p : String) : clean p = render (isAbsolute p) (steps p) := rfl

/-- **Parts of clean paths**: names, and before them steps up from where the path starts. -/
def AreSteps (rooted : Bool) : List String → Prop
  | [] => True
  | part :: rest =>
    AreSteps rooted rest ∧ (IsName part ∨ part = ".." ∧ rooted = false ∧ ∀ x ∈ rest, x = "..")

variable {r : Bool} {s : List String} {part p q n d : String}

/-- Steps are names without slashes. -/
lemma AreSteps.ne_empty : ∀ {s : List String}, AreSteps r s → ∀ x ∈ s, x ≠ "" ∧ '/' ∉ x.toList
  | [], _ => by simp
  | part :: rest, h => by
    refine List.forall_mem_cons.2 ⟨?_, AreSteps.ne_empty h.1⟩
    obtain h | ⟨rfl, -⟩ := h.2
    · exact ⟨h.ne_empty, h.slash_notMem⟩
    · decide

/-- A part is added to steps. -/
lemma AreSteps.push (hs : AreSteps r s) (hpart : '/' ∉ part.toList) :
    AreSteps r (push r s part) := by
  unfold Path.push
  split
  · exact hs
  rename_i hne
  obtain ⟨hempty, hdot⟩ := not_or.1 hne
  split
  · rename_i hup
    cases s with
    | nil => cases r <;> simp [AreSteps]
    | cons top rest =>
      simp only
      split
      · rename_i htop
        obtain hname | ⟨-, hr, hrest⟩ := hs.2
        · exact absurd htop hname.ne_up
        · exact ⟨hs, .inr ⟨rfl, hr, List.forall_mem_cons.2 ⟨htop, hrest⟩⟩⟩
      · exact hs.1
  · rename_i hup
    exact ⟨hs, .inl ⟨hempty, hdot, hup, hpart⟩⟩

/-- All parts are added to steps. -/
lemma areSteps_foldl : ∀ {ps s : List String}, (∀ p ∈ ps, '/' ∉ p.toList) → AreSteps r s →
    AreSteps r (ps.foldl (Path.push r) s)
  | [], _, _, hs => hs
  | p :: ps, s, hps, hs => by
    obtain ⟨hp, hps⟩ := List.forall_mem_cons.1 hps
    rw [List.foldl_cons]
    exact areSteps_foldl hps (hs.push hp)

/-- The steps of a path. -/
lemma areSteps_steps (p : String) : AreSteps (isAbsolute p) (steps p) :=
  areSteps_foldl (fun _ => slash_notMem_of_mem_parts) trivial

/-- Parts of a clean path are pushed back one by one. -/
lemma AreSteps.foldl_reverse : ∀ {s : List String}, AreSteps r s →
    s.reverse.foldl (Path.push r) [] = s
  | [], _ => rfl
  | part :: rest, h => by
    rw [List.reverse_cons, List.foldl_append, h.1.foldl_reverse, List.foldl_cons, List.foldl_nil]
    obtain hname | ⟨rfl, hr, hrest⟩ := h.2
    · simp [Path.push, hname.ne_empty, hname.ne_dot, hname.ne_up]
    · cases rest with
      | nil => simp [Path.push, hr]
      | cons top rest =>
        obtain rfl := hrest top List.mem_cons_self
        simp [Path.push]

/-! ## Writing clean paths -/

/-- A name is joined to others with a slash. -/
lemma intercalate_concat : ∀ {ps : List String}, ps ≠ [] → ∀ p,
    "/".intercalate (ps ++ [p]) = "/".intercalate ps ++ "/" ++ p
  | [q], _, p => by simp
  | q :: q' :: ps, _, p => by
    have ih := intercalate_concat (List.cons_ne_nil q' ps) p
    simp only [← String.toList_inj, String.toList_intercalate, String.toList_append, toList_slash,
      List.cons_append, List.map_cons, List.intercalate_cons_cons] at ih ⊢
    rw [ih]
    simp

/-- What stands before the last part of a clean path. -/
def above (rooted : Bool) (rest : List String) : String :=
  if rest = [] then if rooted then "/" else "" else render rooted rest ++ "/"

/-- Steps are found in their text. -/
lemma AreSteps.parts_text (h : AreSteps r s) (hs : s ≠ []) :
    parts ("/".intercalate s.reverse) = s.reverse :=
  parts_intercalate (fun p hp => (h.ne_empty p (List.mem_reverse.1 hp)).2) (by simpa using hs)

/-- The text of steps is not empty. -/
lemma AreSteps.text_ne_empty (h : AreSteps r s) (hs : s ≠ []) :
    "/".intercalate s.reverse ≠ "" := by
  intro htext
  have hparts := h.parts_text hs
  rw [htext, parts_eq_singleton (by decide)] at hparts
  have hmem : "" ∈ s := List.mem_reverse.1 (hparts ▸ List.mem_cons_self)
  exact (h.ne_empty "" hmem).1 rfl

/-- A path with steps is their text. -/
lemma render_of_ne (h : AreSteps r s) (hs : s ≠ []) :
    render r s = (if r then "/" else "") ++ "/".intercalate s.reverse := by
  unfold render
  simp only [if_neg (h.text_ne_empty hs)]
  cases r <;> simp

/-- A path is its last step, after what is above it. -/
lemma render_cons (h : AreSteps r (part :: s)) : render r (part :: s) = above r s ++ part := by
  rw [render_of_ne h (List.cons_ne_nil part s), List.reverse_cons, above]
  by_cases hs : s = []
  · subst hs
    simp [String.intercalate_singleton]
  · rw [if_neg hs, render_of_ne h.1 hs, intercalate_concat (by simpa using hs)]
    simp only [String.append_assoc]

/-- A path that starts with a slash is absolute. -/
lemma isAbsolute_slash (p : String) : isAbsolute ("/" ++ p) = true := by
  simp [isAbsolute, toList_slash]

/-- An absolute path starts with a slash. -/
lemma exists_of_isAbsolute (h : isAbsolute p) : ∃ q, p = "" ++ "/" ++ q := by
  have hhead : p.toList.head? = some '/' := by simpa [isAbsolute] using h
  obtain ⟨rest, hrest⟩ := List.head?_eq_some_iff.1 hhead
  refine ⟨String.ofList rest, ?_⟩
  rw [← String.toList_inj, hrest]
  simp [toList_slash]

/-- Clean paths are cleaned already: their parts are found again. -/
lemma AreSteps.render (h : AreSteps r s) :
    isAbsolute (render r s) = r ∧ steps (render r s) = s := by
  by_cases hs : s = []
  · subst hs
    cases r <;> decide
  have hparts := h.parts_text hs
  rw [render_of_ne h hs]
  cases r with
  | true =>
    have habsolute := isAbsolute_slash ("/".intercalate s.reverse)
    refine ⟨habsolute, ?_⟩
    have hsplit : Path.parts ("/" ++ "/".intercalate s.reverse) = "" :: s.reverse := by
      have hempty : Path.parts "" = [""] := parts_eq_singleton (by decide)
      have happend := parts_append "" ("/".intercalate s.reverse)
      rwa [hparts, hempty, String.empty_append] at happend
    rw [if_pos rfl, steps, habsolute, hsplit]
    exact h.foldl_reverse
  | false =>
    have hrelative : isAbsolute ("/".intercalate s.reverse) = false := by
      by_contra hne
      obtain ⟨q, hq⟩ := exists_of_isAbsolute (Bool.of_not_eq_false hne)
      rw [hq, parts_append, parts_eq_singleton (by decide)] at hparts
      have hmem : "" ∈ s := List.mem_reverse.1 (hparts ▸ List.mem_cons_self)
      exact (h.ne_empty "" hmem).1 rfl
    simp only [Bool.false_eq_true, if_false, String.empty_append]
    refine ⟨hrelative, ?_⟩
    rw [steps, hrelative, hparts]
    exact h.foldl_reverse

/-- Steps are known from their path. -/
lemma render_inj {r' : Bool} {s' : List String} (h : AreSteps r s) (h' : AreSteps r' s')
    (he : Path.render r s = Path.render r' s') : r = r' ∧ s = s' := by
  obtain ⟨hr, hs⟩ := h.render
  obtain ⟨hr', hs'⟩ := h'.render
  exact ⟨by rw [← hr, he, hr'], by rw [← hs, he, hs']⟩

/-- A rendered path is clean. -/
lemma clean_render (h : AreSteps r s) : clean (Path.render r s) = Path.render r s := by
  rw [clean_eq, h.render.1, h.render.2]

/-- Cleaning twice is cleaning once. -/
theorem clean_clean (p : String) : clean (clean p) = clean p := clean_render (areSteps_steps p)

/-! ## The last part of a path -/

/-- What is appended does not make a path absolute. -/
lemma isAbsolute_append (hp : p ≠ "") (q : String) : isAbsolute (p ++ q) = isAbsolute p := by
  obtain ⟨c, cs, hcs⟩ := List.exists_cons_of_ne_nil (l := p.toList) (by simpa using hp)
  simp [isAbsolute, hcs]

/-- A name is a step more. -/
lemma steps_append (hp : p ≠ "") (hn : '/' ∉ n.toList) :
    steps (p ++ "/" ++ n) = push (isAbsolute p) (steps p) n := by
  rw [steps, parts_append, parts_eq_singleton hn, String.append_assoc, isAbsolute_append hp,
    List.foldl_append]
  rfl

/-- What stands before the last part is the directory, up to cleaning. -/
lemma clean_above (h : AreSteps r s) : clean (above r s) = Path.render r s := by
  unfold above
  by_cases hs : s = []
  · subst hs
    cases r <;> decide
  · have hne : Path.render r s ≠ "" := by
      rw [render_of_ne h hs]
      cases r <;> simp [h.text_ne_empty hs]
    have hsteps := steps_append hne (n := "") (by decide)
    have habsolute := isAbsolute_append hne "/"
    rw [String.append_empty] at hsteps
    rw [if_neg hs, clean_eq, hsteps, habsolute, h.render.1, h.render.2]
    rfl

/-- What is above a step ends with a slash, if anything is. -/
lemma above_cases (r : Bool) (s : List String) :
    above r s = "" ∨ ∃ p, above r s = p ++ "/" := by
  unfold above
  by_cases hs : s = []
  · cases r
    · simp [hs]
    · exact .inr ⟨"", by simp [hs]⟩
  · rw [if_neg hs]
    exact .inr ⟨_, rfl⟩

/-- **Parts of a path**: the part after the last slash, and what stands before it. -/
lemma lastPart_eq (h : p = "" ∨ ∃ q, p = q ++ "/") (hn : '/' ∉ n.toList) :
    lastPart (p ++ n) = n.toList ∧
      String.ofList ((p ++ n).toList.reverse.dropWhile (· ≠ '/')).reverse = p := by
  have hne : ∀ c ∈ n.toList.reverse, decide (c ≠ '/') = true := fun c hc =>
    decide_eq_true fun he => hn (he ▸ List.mem_reverse.1 hc)
  have hp : p.toList.reverse.takeWhile (fun c => decide (c ≠ '/')) = [] ∧
      p.toList.reverse.dropWhile (fun c => decide (c ≠ '/')) = p.toList.reverse := by
    obtain rfl | ⟨q, rfl⟩ := h
    · simp
    · simp [toList_slash]
  rw [lastPart, String.toList_append, List.reverse_append, List.takeWhile_append_of_pos hne,
    List.dropWhile_append_of_pos hne, hp.1, hp.2]
  simp

/-- A name that is appended has no slashes to trim. -/
lemma trimSlashes_eq (hne : n ≠ "") (hn : '/' ∉ n.toList) : trimSlashes (p ++ n) = p ++ n := by
  have hlast : n.toList.reverse ≠ [] := by simpa using hne
  obtain ⟨c, cs, hcs⟩ := List.exists_cons_of_ne_nil hlast
  have hc : c ≠ '/' := fun he => hn (List.mem_reverse.1 (hcs ▸ he ▸ List.mem_cons_self))
  have hdrop : (p ++ n).toList.reverse.dropWhile (fun c => decide (c = '/')) =
      (p ++ n).toList.reverse := by
    rw [String.toList_append, List.reverse_append, hcs]
    simp [hc]
  rw [trimSlashes, hdrop, List.reverse_reverse, String.ofList_toList]

/-- The base of a path is the name after the last slash. -/
lemma base_append (hne : n ≠ "") (h : p = "" ∨ ∃ q, p = q ++ "/") (hn : '/' ∉ n.toList) :
    base (p ++ n) = n := by
  have happend : p ++ n ≠ "" := by simp [hne]
  rw [base, if_neg happend, trimSlashes_eq hne hn, (lastPart_eq h hn).1]
  split
  · rename_i hnil
    exact absurd hnil (by simpa using hne)
  · exact String.ofList_toList

/-- **The last part of a clean path and its directory**. -/
lemma AreSteps.base_render (h : AreSteps r (part :: s)) :
    lastPart (Path.render r (part :: s)) = part.toList ∧
      base (Path.render r (part :: s)) = part ∧
      dir (Path.render r (part :: s)) = Path.render r s := by
  obtain ⟨hne, hslash⟩ := h.ne_empty part List.mem_cons_self
  have habove := above_cases r s
  obtain ⟨hlast, hdir⟩ := lastPart_eq habove hslash
  rw [render_cons h]
  exact ⟨hlast, base_append hne habove hslash, by rw [dir, hdir, clean_above h.1]⟩

/-! ## Names below directories -/

/-- A directory and a name are joined by a step more. -/
lemma join_eq (hd : d ≠ "") (hn : IsName n) :
    join [d, n] = Path.render (isAbsolute d) (n :: steps d) := by
  have hfilter : [d, n].filter (fun p => decide (p ≠ "")) = [d, n] := by
    simp [hd, hn.ne_empty]
  have hpush : push (isAbsolute d) (steps d) n = n :: steps d := by
    simp [push, hn.ne_empty, hn.ne_dot, hn.ne_up]
  unfold join
  rw [hfilter]
  simp only [String.intercalate_cons_cons, String.intercalate_singleton]
  rw [clean_eq, steps_append hd hn.slash_notMem, hpush, String.append_assoc, isAbsolute_append hd]

/-- A name is a step after those of the directory. -/
lemma areSteps_cons (d : String) (hn : IsName n) : AreSteps (isAbsolute d) (n :: steps d) :=
  ⟨areSteps_steps d, .inl hn⟩

/-- A cleaned path is not empty. -/
lemma clean_ne_empty (p : String) : clean p ≠ "" := by
  rw [clean_eq]
  by_cases hs : steps p = []
  · rw [hs]
    cases isAbsolute p <;> decide
  · rw [render_of_ne (areSteps_steps p) hs]
    cases isAbsolute p <;> simp [(areSteps_steps p).text_ne_empty hs]

/-- The directory of a path is not empty. -/
lemma dir_ne_empty (p : String) : dir p ≠ "" := by
  rw [dir]
  exact clean_ne_empty _

/-- The directory of a path is clean. -/
lemma clean_dir (p : String) : clean (dir p) = dir p := by rw [dir, clean_clean]

/-- **A name below a directory**: both can be read off the path. -/
theorem join_spec (hd : d ≠ "") (hn : IsName n) :
    clean (join [d, n]) = join [d, n] ∧ lastPart (join [d, n]) = n.toList ∧
      base (join [d, n]) = n ∧ dir (join [d, n]) = clean d := by
  rw [join_eq hd hn]
  exact ⟨clean_render (areSteps_cons d hn), (areSteps_cons d hn).base_render⟩

/-- A directory may be cleaned before a name is joined to it. -/
lemma join_clean (hd : d ≠ "") (hn : IsName n) : join [clean d, n] = join [d, n] := by
  obtain ⟨habsolute, hsteps⟩ := (areSteps_steps d).render
  rw [join_eq (clean_ne_empty d) hn, join_eq hd hn, clean_eq, habsolute, hsteps]

/-- A clean path with a name is that name below its directory. -/
theorem eq_join (hq : clean q = q) (hd : d ≠ "") (hn : IsName n) (hbase : base q = n)
    (hdir : dir q = clean d) : q = join [d, n] := by
  have hrender : q = Path.render (isAbsolute q) (steps q) := hq.symm.trans (clean_eq q)
  have hsteps := areSteps_steps q
  cases hs : steps q with
  | nil =>
    exfalso
    rw [hs] at hrender
    rw [hrender] at hbase
    cases hr : isAbsolute q with
    | true =>
      obtain rfl : "/" = n := by rw [← hbase, hr]; decide
      exact absurd hn.slash_notMem (by decide)
    | false =>
      obtain rfl : "." = n := by rw [← hbase, hr]; decide
      exact hn.ne_dot rfl
  | cons part rest =>
    rw [hs] at hrender hsteps
    obtain ⟨-, hb, hd'⟩ := hsteps.base_render
    rw [← hrender] at hb hd'
    obtain rfl : part = n := hb.symm.trans hbase
    obtain ⟨hr, rfl⟩ := render_inj hsteps.1 (areSteps_steps d)
      (hd'.symm.trans (hdir.trans (clean_eq d)))
    rw [join_eq hd hn, ← hr, ← hrender]

/-- The last part of a clean path other than the root. -/
lemma base_spec (hq : clean q = q) (hroot : q ≠ "/") :
    lastPart q = (base q).toList ∧ '/' ∉ (base q).toList := by
  have hrender : q = Path.render (isAbsolute q) (steps q) := hq.symm.trans (clean_eq q)
  have hsteps := areSteps_steps q
  cases hs : steps q with
  | nil =>
    rw [hs] at hrender
    cases hr : isAbsolute q with
    | true =>
      rw [hr] at hrender
      exact absurd (hrender.trans (by decide)) hroot
    | false =>
      rw [hr] at hrender
      obtain rfl : q = "." := hrender.trans (by decide)
      decide
  | cons part rest =>
    rw [hs] at hrender hsteps
    obtain ⟨hlast, hb, -⟩ := hsteps.base_render
    rw [← hrender] at hlast hb
    rw [hb]
    exact ⟨hlast, (hsteps.ne_empty part List.mem_cons_self).2⟩

/-! ## Extensions -/

/-- An extension starts at the last dot. -/
lemma ext_eq {pre letters : List Char} (h : lastPart p = pre ++ '.' :: letters)
    (hdot : '.' ∉ letters) : ext p = String.ofList ('.' :: letters) := by
  have hne : ∀ c ∈ letters.reverse, decide (c ≠ '.') = true := fun c hc =>
    decide_eq_true fun he => hdot (he ▸ List.mem_reverse.1 hc)
  have hspan : (lastPart p).reverse.span (fun c => decide (c ≠ '.')) =
      (letters.reverse, '.' :: pre.reverse) := by
    rw [h, List.span_eq_takeWhile_dropWhile, List.reverse_append, List.reverse_cons,
      List.append_assoc, List.takeWhile_append_of_pos hne, List.dropWhile_append_of_pos hne]
    simp
  rw [ext, hspan]
  simp

/-- The extension ends the last part. -/
lemma exists_lastPart (p : String) : ∃ pre : List Char, lastPart p = pre ++ (ext p).toList := by
  have hsplit := List.takeWhile_append_dropWhile (p := fun c => decide (c ≠ '.'))
    (l := (lastPart p).reverse)
  have hhead := List.head?_dropWhile_not (fun c => decide (c ≠ '.')) (lastPart p).reverse
  unfold ext
  rw [List.span_eq_takeWhile_dropWhile]
  generalize (lastPart p).reverse.takeWhile (fun c => decide (c ≠ '.')) = after at hsplit ⊢
  generalize (lastPart p).reverse.dropWhile (fun c => decide (c ≠ '.')) = before at hsplit hhead ⊢
  cases before with
  | nil => exact ⟨lastPart p, by simp⟩
  | cons c rest =>
    obtain rfl : c = '.' := by simpa using hhead
    refine ⟨rest.reverse, ?_⟩
    rw [← List.reverse_reverse (lastPart p), ← hsplit]
    simp

/-- An ending is dropped if it is there. -/
lemma dropEnding_eq {e : String} {pre : List Char} (h : p.toList = pre ++ e.toList) :
    dropEnding p e = String.ofList pre := by
  have hsuffix : e.toList.isSuffixOf p.toList := List.isSuffixOf_iff_suffix.2 ⟨pre, h.symm⟩
  have hlength : p.length - e.length = pre.length := by
    rw [← String.length_toList, ← String.length_toList, h, List.length_append]
    omega
  rw [dropEnding, if_pos hsuffix, hlength, h, List.take_left]

/-- The name of a file without its extension. -/
def stem (p : String) : String := dropEnding (base p) (ext p)

/-- **Parts of a file's name**: its stem and its extension. -/
theorem stem_append_ext (hp : clean p = p) (hroot : p ≠ "/") : stem p ++ ext p = base p := by
  obtain ⟨pre, hpre⟩ := exists_lastPart p
  rw [(base_spec hp hroot).1] at hpre
  rw [stem, dropEnding_eq hpre, ← String.toList_inj, hpre]
  simp

/-- The stem of a file has no slashes. -/
lemma slash_notMem_stem (hp : clean p = p) (hroot : p ≠ "/") : '/' ∉ (stem p).toList := by
  have hslash := (base_spec hp hroot).2
  rw [← stem_append_ext hp hroot, String.toList_append] at hslash
  exact fun h => hslash (List.mem_append_left _ h)

/-- A file's name is taken apart in one way into a stem and an extension. -/
theorem stem_ext_iff {s e : String} {letters : List Char} (he : e.toList = '.' :: letters)
    (hdot : '.' ∉ letters) (hp : clean p = p) (hroot : p ≠ "/") :
    base p = s ++ e ↔ ext p = e ∧ stem p = s := by
  constructor
  · intro h
    have hlast : lastPart p = s.toList ++ '.' :: letters := by
      rw [(base_spec hp hroot).1, h, String.toList_append, he]
    have hext : ext p = e := by rw [ext_eq hlast hdot, ← he, String.ofList_toList]
    have hbase : (base p).toList = s.toList ++ e.toList := by rw [h, String.toList_append]
    exact ⟨hext, by rw [stem, hext, dropEnding_eq hbase, String.ofList_toList]⟩
  · rintro ⟨rfl, rfl⟩
    exact (stem_append_ext hp hroot).symm

end Lane.Path
