import Lane.Analysis.Context
import Mathlib.Tactic.Lemma

set_option relaxedAutoImplicit false
set_option autoImplicit false

/-!
# Analyses that report nothing

Reasoning about analyses in which no error is reported. An analysis goes on after an error, so what
is known about its result is known only if the number of errors is zero in the end; and if it is
zero in the end, it was zero all the time. The rules below carry both facts, so that a branch that
reports an error needs no further proof.

## Main definitions

* `Lane.Analysis.Clean`: what holds after an analysis that reported nothing.
* `Lane.Analysis.From`: the same, for an analysis that starts in a given context.
* `Lane.Analysis.Keeps`: an analysis that changes nothing but to report.

## Main results

* `Lane.Analysis.Clean.bind`, `Lane.Analysis.From.bind`, `Lane.Analysis.Keeps.bind`: analyses one
  after the other.
-/

namespace Lane

namespace Context

/-- A scope is left at its own depth. -/
lemma left_scope {c : Context} {depth : Nat} (h : c.depth = depth) :
    c.left (.scope depth) = { c with scopes := c.scopes.tail } := by
  simp [left, leave, closeScope, h]

/-- A function is left at the depth of its root scope. -/
lemma left_function {c : Context} {depth : Nat} (h : c.depth = depth) (outer : Option Frame)
    (loops : Int) :
    c.left (.function depth outer loops) =
      { c with scopes := c.scopes.tail, function := outer, loops } := by
  have hclose : c.closeScope depth = .ok { c with scopes := c.scopes.tail } := if_pos h
  simp only [left, leave, hclose]
  rfl

/-- Nothing is reported on the way back out. -/
lemma errors_left (c : Context) (out : Leave) : (c.left out).errors = c.errors := by
  cases out with
  | scope depth =>
    by_cases h : c.depth = depth
    · rw [left_scope h]
    · simp [left, leave, closeScope, h, broken, fail]
  | cls | loop => rfl
  | function depth outer loops =>
    by_cases h : c.depth = depth
    · rw [left_function h]
    · simp [left, leave, closeScope, h, broken, fail, bind, Except.bind]

end Context

namespace Analysis

/-- **Clean analyses**: if there is no error after the analysis, there was none before it, and the
result and the context after it satisfy `Q` where the context before it satisfied `P`. -/
def Clean {α : Type} (P : Context → Prop) (m : Analysis α) (Q : α → Context → Prop) : Prop :=
  ∀ c : Context, (c.errors = 0 → P c) → (m.run c).2.errors = 0 →
    c.errors = 0 ∧ Q (m.run c).1 (m.run c).2

/-- **Clean analyses from a context**: what holds of the result and the context in the end, if the
analysis starts in the context `c` and `H` holds. -/
def From {α : Type} (c : Context) (H : Prop) (m : Analysis α) (Q : α → Context → Prop) : Prop :=
  Clean (fun d => d = c ∧ H) m Q

/-- **Analyses that only report**: if there is no error in the end, the context is what it was, and
the result satisfies `R` where `H` holds. -/
def Keeps {α : Type} (c : Context) (H : Prop) (m : Analysis α) (R : α → Prop) : Prop :=
  From c H m fun a d => d = c ∧ R a

section Clean

variable {α β : Type} {P P' : Context → Prop} {Q Q' : α → Context → Prop}
  {S : β → Context → Prop} {m : Analysis α} {f : α → Analysis β}

/-- A result that is known. -/
lemma Clean.pure {a : α} (h : ∀ c, P c → Q a c) : Clean P (pure a) Q :=
  fun c hP hc => ⟨hc, h c (hP hc)⟩

/-- Analyses one after the other. The second is known to be free of errors first. -/
lemma Clean.bind (hm : Clean P m Q) (hf : ∀ a, Clean (Q a) (f a) S) : Clean P (m >>= f) S := by
  intro c hP hc
  have hc' : ((f (m.run c).1).run (m.run c).2).2.errors = 0 := hc
  obtain ⟨h1, h2⟩ := hf _ (m.run c).2 (fun h => (hm c hP h).2) hc'
  exact ⟨(hm c hP h1).1, h2⟩

/-- More may be asked for before, and less said afterwards. -/
lemma Clean.weaken (hm : Clean P' m Q') (hP : ∀ c, P c → P' c) (hQ : ∀ a c, Q' a c → Q a c) :
    Clean P m Q :=
  fun c h hc => ((hm c fun h0 => hP c (h h0)) hc).imp_right (hQ _ _)

/-- Whatever is wanted after an error holds. -/
lemma Clean.report {Q : Unit → Context → Prop} (kind : DiagnosticKind) (pos : Position)
    (message : String) : Clean P (report kind pos message) Q := by
  intro c _ hc
  exact absurd hc (Nat.succ_ne_zero _)

/-- The context is looked at. -/
lemma Clean.get : Clean P get fun a c => a = c ∧ P c :=
  fun _ hP hc => ⟨hc, rfl, hP hc⟩

/-- A change of the context that leaves the number of errors alone. -/
lemma Clean.modify {g : Context → Context} {Q : Unit → Context → Prop}
    (hg : ∀ c, (g c).errors = c.errors) (h : ∀ c, P c → Q () (g c)) :
    Clean P (modify g : Analysis Unit) Q :=
  fun c hP hc => ⟨(hg c).symm.trans hc, h c (hP ((hg c).symm.trans hc))⟩

/-- A change of the context that finds no error. -/
lemma Clean.modifyGet {g : Context → α × Context}
    (hg : ∀ c, (g c).2.errors = c.errors) (h : ∀ c, P c → Q (g c).1 (g c).2) :
    Clean P (modifyGet g : Analysis α) Q :=
  fun c hP hc => ⟨(hg c).symm.trans hc, h c (hP ((hg c).symm.trans hc))⟩

end Clean

section From

variable {α β : Type} {c : Context} {H H' : Prop} {Q Q' : α → Context → Prop}
  {S : β → Context → Prop} {m : Analysis α} {f : α → Analysis β}

/-- A result that is known. -/
lemma From.pure {a : α} (h : H → Q a c) : From c H (pure a) Q :=
  Clean.pure fun _ hc => hc.1 ▸ h hc.2

/-- Two things that hold after an analysis. -/
lemma From.and (h : From c H m Q) (h' : From c H m Q') :
    From c H m fun a d => Q a d ∧ Q' a d :=
  fun d hd hc => ⟨(h d hd hc).1, (h d hd hc).2, (h' d hd hc).2⟩

/-- One analysis after the other. -/
lemma From.bind (hm : From c H m Q) (hf : ∀ a d, From d (H ∧ Q a d) (f a) S) :
    From c H (m >>= f) S := by
  intro d hd hc
  have hc' : ((f (m.run d).1).run (m.run d).2).2.errors = 0 := hc
  obtain ⟨h1, h2⟩ := hf _ (m.run d).2 (m.run d).2
    (fun h => ⟨rfl, (hd (hm d hd h).1).2, (hm d hd h).2⟩) hc'
  exact ⟨(hm d hd h1).1, h2⟩

/-- More may be asked for before, and less said afterwards. -/
lemma From.weaken (hm : From c H' m Q') (hH : H → H') (hQ : ∀ a d, H → Q' a d → Q a d) :
    From c H m Q := by
  intro d hd hc
  obtain ⟨h1, h2⟩ := hm d (fun h => (hd h).imp_right hH) hc
  exact ⟨h1, hQ _ _ (hd h1).2 h2⟩

/-- Whatever is wanted after an error holds. -/
lemma From.report {Q : Unit → Context → Prop} (kind : DiagnosticKind) (pos : Position)
    (message : String) : From c H (report kind pos message) Q :=
  Clean.report kind pos message

/-- The context is looked at. -/
lemma From.get : From c H get fun a d => d = c ∧ a = c :=
  Clean.weaken Clean.get (fun _ hc => hc) fun _ _ h => ⟨h.2.1, h.1.trans h.2.1⟩

/-- There is no error before the analysis and none after it. -/
lemma From.errors (hm : From c H m Q) :
    From c H m fun a d => Q a d ∧ c.errors = 0 ∧ d.errors = 0 := by
  intro d hd hc
  obtain ⟨h1, h2⟩ := hm d hd hc
  exact ⟨h1, h2, (hd h1).1 ▸ h1, hc⟩

/-- A change of the context that leaves the number of errors alone. -/
lemma From.modify {g : Context → Context} {Q : Unit → Context → Prop}
    (hg : ∀ d, (g d).errors = d.errors) (h : H → Q () (g c)) :
    From c H (modify g : Analysis Unit) Q :=
  Clean.modify hg fun _ hd => hd.1 ▸ h hd.2

/-- A change of the context that finds no error. -/
lemma From.modifyGet {g : Context → α × Context}
    (hg : ∀ d, (g d).2.errors = d.errors) (h : H → Q (g c).1 (g c).2) :
    From c H (modifyGet g : Analysis α) Q :=
  Clean.modifyGet hg fun _ hd => hd.1 ▸ h hd.2

/-- An analysis that only reports, followed by another one. -/
lemma From.keeps_bind {R : α → Prop} (hm : Keeps c H m R)
    (hf : ∀ a, From c (H ∧ R a) (f a) S) : From c H (m >>= f) S :=
  From.bind hm fun a d => by
    intro e he hc
    refine hf a e (fun h => ?_) hc
    obtain ⟨rfl, hH, rfl, hR⟩ := he h
    exact ⟨rfl, hH, hR⟩

/-- Nothing has to be shown about what follows an error. -/
lemma From.report_bind {f : Unit → Analysis β} (kind : DiagnosticKind) (pos : Position)
    (message : String) (hf : ∀ d, From d False (f ()) S) :
    From c H (Analysis.report kind pos message >>= f) S :=
  From.bind (Q := fun _ _ => False) (From.report kind pos message) fun _ d =>
    (hf d).weaken And.right fun _ _ h => h.2.elim

/-- A check that reports an error, and then goes on as if there was none. -/
lemma From.report_if {f : Unit → Analysis β} {b : Prop} [Decidable b] {kind : DiagnosticKind}
    {pos : Position} {message : String}
    (hf : ∀ (d : Context) (H' : Prop), (H' → d = c ∧ H ∧ ¬b) → From d H' (f ()) S) :
    From c H (if b then Analysis.report kind pos message >>= f else f ()) S := by
  split
  · exact From.report_bind kind pos message fun d => hf d False False.elim
  · exact hf c H fun h => ⟨rfl, h, ‹_›⟩

/-- An analysis that is clean from every context that satisfies `P`. -/
lemma From.clean {P : Context → Prop} (hm : ∀ c, From c (P c) m Q) : Clean P m Q :=
  fun c hP hc => hm c c (fun h => ⟨rfl, hP h⟩) hc

/-- An analysis from a context that satisfies what a clean analysis asks for. -/
lemma Clean.from {P : Context → Prop} (hm : Clean P m Q) (h : H → P c) : From c H m Q :=
  Clean.weaken hm (fun _ hd => hd.1 ▸ h hd.2) fun _ _ h => h

/-- An invariant of an analysis for every entry of a list. -/
lemma Clean.forM {P : Context → Prop} {f : α → Analysis Unit} {l : List α}
    (hf : ∀ a ∈ l, Clean P (f a) fun _ => P) : Clean P (l.forM f) fun _ => P := by
  induction l with
  | nil => exact Clean.pure fun _ h => h
  | cons a l ih =>
    exact Clean.bind (hf a List.mem_cons_self) fun _ =>
      ih fun b hb => hf b (List.mem_cons_of_mem a hb)

end From

section Keeps

variable {α β : Type} {c : Context} {H H' : Prop} {R R' : α → Prop} {S : β → Prop}
  {m : Analysis α} {f : α → Analysis β}

/-- A result that leaves the context alone. -/
lemma Keeps.pure {a : α} (h : H → R a) : Keeps c H (pure a) R :=
  From.pure fun hH => ⟨rfl, h hH⟩

/-- Analyses that leave the context alone, one after the other. -/
lemma Keeps.bind (hm : Keeps c H m R) (hf : ∀ a, Keeps c (H ∧ R a) (f a) S) :
    Keeps c H (m >>= f) S :=
  From.keeps_bind hm hf

/-- More may be asked for before, and less said afterwards. -/
lemma Keeps.weaken (hm : Keeps c H' m R') (hH : H → H') (h : ∀ a, R' a → R a) : Keeps c H m R :=
  From.weaken hm hH fun _ _ _ hc => hc.imp_right (h _)

/-- Whatever is said after an error holds. -/
lemma Keeps.report {R : Unit → Prop} (kind : DiagnosticKind) (pos : Position) (message : String) :
    Keeps c H (Analysis.report kind pos message) R :=
  From.report kind pos message

/-- The context is looked at. -/
lemma Keeps.get : Keeps c H get (· = c) := From.get

/-- Two things that hold of the result. -/
lemma Keeps.and (h : Keeps c H m R) (h' : Keeps c H m R') : Keeps c H m fun a => R a ∧ R' a :=
  (From.and h h').weaken id fun _ _ _ h => ⟨h.1.1, h.1.2, h.2.2⟩

/-- What held before still holds in the end. -/
lemma Keeps.frame (hm : Keeps c H m R) : Keeps c H m fun a => H ∧ R a :=
  From.weaken hm id fun _ _ hH h => ⟨h.1, hH, h.2⟩

/-- An analysis for every entry of a list. -/
lemma Keeps.forM {f : α → Analysis Unit} {l : List α}
    (hf : ∀ a ∈ l, ∀ H, Keeps c H (f a) fun _ => R a) :
    Keeps c H (l.forM f) fun _ => ∀ a ∈ l, R a := by
  induction l generalizing H with
  | nil => exact Keeps.pure fun _ _ ha => nomatch ha
  | cons a l ih =>
    refine Keeps.bind (hf a List.mem_cons_self H) fun _ => ?_
    refine (ih fun b hb => hf b (List.mem_cons_of_mem a hb)).frame.weaken id fun _ h => ?_
    simpa using ⟨h.1.2, h.2⟩

/-- Nothing has to be shown about what follows an error. -/
lemma Keeps.report_bind {f : Unit → Analysis β} (kind : DiagnosticKind) (pos : Position)
    (message : String) (hf : Keeps c False (f ()) S) :
    Keeps c H (Analysis.report kind pos message >>= f) S :=
  Keeps.bind (R := fun _ => False) (Keeps.report kind pos message) fun _ =>
    hf.weaken (fun h => h.2.elim) fun _ h => h

/-- Nothing has to be shown about what follows a broken promise, if none is broken. -/
lemma Keeps.bug_bind {f : Unit → Analysis β} (what : String) (hH : ¬H)
    (hf : Keeps c False (f ()) S) : Keeps c H (bug what >>= f) S :=
  From.bind (Q := fun _ _ => False) (From.modify (fun _ => rfl) hH) fun _ _ e he hc =>
    hf e (fun h => (he h).2.2.elim) hc

/-- A check that reports an error, and then goes on as if there was none. -/
lemma Keeps.report_if {f : Unit → Analysis β} {b : Bool} {kind : DiagnosticKind} {pos : Position}
    {message : String} (hf : ∀ H' : Prop, (H' → H ∧ b = false) → Keeps c H' (f ()) S) :
    Keeps c H (if b then Analysis.report kind pos message >>= f else f ()) S := by
  cases b with
  | true => exact Keeps.report_bind kind pos message (hf False False.elim)
  | false => exact hf H fun h => ⟨h, rfl⟩

end Keeps

end Analysis

end Lane
