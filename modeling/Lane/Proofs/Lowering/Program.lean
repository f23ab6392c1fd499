import Lane.Compilation
import Lane.Proofs.Lowering.Function
import Lane.Proofs.Syntax.Names
import Mathlib.Data.List.ProdSigma

set_option relaxedAutoImplicit false
set_option autoImplicit false

/-!
# Programs are lowered

All functions of a typed program are declared: the identifier of a member function ends in its
number among them, and has dots in it, which no name of a foreign function has. With these
declarations, all functions are lowered whose assignments are ready.

## Main definitions

* `Lane.Lowering.declaredOf`: the declarations of a program.
* `Lane.Lowering.IsCodeOf`: the code of a function of a program.
* `Lane.Accepted`: the programs that lowering may rely on.

## Main results

* `Lane.Lowering.declare_eq`: the functions of a typed program are declared.
* `Lane.Lowering.envOf_sound`: the environment of a typed program is sound.
* `Lane.Accepted.lower_isOk`: the code of an accepted program.
-/

namespace Lane.Lowering

open Code

/-! ## Identifiers -/

/-- What follows the last dot of a text is determined by the text. -/
lemma eq_of_append_dot {as bs cs ds : List Char} (h : as ++ '.' :: bs = cs ++ '.' :: ds)
    (hb : '.' ∉ bs) (hd : '.' ∉ ds) : as = cs ∧ bs = ds := by
  induction as generalizing cs with
  | nil =>
    cases cs with
    | nil => exact ⟨rfl, (List.cons.inj h).2⟩
    | cons c cs =>
      have hbs := (List.cons.inj h).2
      exact absurd (hbs ▸ List.mem_append_right cs List.mem_cons_self) hb
  | cons a as ih =>
    cases cs with
    | nil =>
      have hds := (List.cons.inj h).2
      exact absurd (hds ▸ List.mem_append_right as List.mem_cons_self) hd
    | cons c cs =>
      obtain ⟨rfl, htail⟩ := List.cons.inj h
      exact (ih htail).imp_left fun h => by rw [h]

/-- The characters of a number are its digits. -/
lemma toList_toString (n : Nat) : (toString n).toList = Nat.toDigits 10 n := Nat.toList_repr

/-- Numbers are written without dots. -/
lemma dot_notMem_toDigits (n : Nat) : '.' ∉ Nat.toDigits 10 n := fun h =>
  absurd (Nat.isDigit_of_mem_toDigits (by decide) (by decide) h) (by decide)

/-- Numbers are known by their digits. -/
lemma toDigits_injective {n m : Nat} (h : Nat.toDigits 10 n = Nat.toDigits 10 m) : n = m := by
  rw [← Nat.ofDigitChars_ten_toDigits (n := n), h, Nat.ofDigitChars_ten_toDigits]

/-- The identifier of a function: its number comes after the last dot. -/
lemma toList_identifier (f : MemberFunction) (n : Nat) :
    ∃ cs, (identifier f n).toList = cs ++ '.' :: Nat.toDigits 10 n := by
  refine ⟨(f.cls.name ++ "." ++ if f.kind = .operator then "operator_" ++ operatorWord f.name
    else f.name).toList, ?_⟩
  simp only [identifier, String.toList_append, toList_toString, List.append_assoc]
  rfl

/-- Functions with different numbers have different identifiers. -/
lemma identifier_injective {f g : MemberFunction} {n m : Nat}
    (h : identifier f n = identifier g m) : n = m := by
  obtain ⟨cs, hf⟩ := toList_identifier f n
  obtain ⟨ds, hg⟩ := toList_identifier g m
  rw [h, hg] at hf
  exact toDigits_injective
    (eq_of_append_dot hf (dot_notMem_toDigits m) (dot_notMem_toDigits n)).2.symm

/-- The identifier of a member function has dots in it. -/
lemma not_isPlain_identifier (f : MemberFunction) (n : Nat) : ¬IsPlain (identifier f n) := by
  obtain ⟨cs, hf⟩ := toList_identifier f n
  simp [IsPlain, hf]

/-! ## Declarations -/

/-- The member functions of a program in the order in which they are declared. -/
def memberFuncs (e : Elaborated) : List MemberFunction := e.program.classes.flatMap Class.funcs

/-- The declarations of member functions, the first of which is number `n`. -/
def declsFrom (e : Elaborated) (n : Nat) (fs : List MemberFunction) :
    List ((Nat × Nat) × FuncDecl) :=
  (fs.zipIdx n).map fun (f, n) => ((f.cls.id, f.index), memberDecl e f n)

/-- The declarations of foreign functions. -/
def foreignsOf (e : Elaborated) : List (String × FuncDecl) :=
  e.program.foreigns.map fun f => (f.name, foreignDecl f)

/-- **The declarations of a program**. -/
def declaredOf (e : Elaborated) : Declared where
  registry :=
    { decls := (foreignsOf e).map Prod.snd ++ (declsFrom e 0 (memberFuncs e)).map Prod.snd }
  decls := declsFrom e 0 (memberFuncs e)
  foreigns := foreignsOf e

/-- A new identifier is declared. -/
lemma register_eq {r : Registry} {d : FuncDecl} (h : d.id ∉ r.decls.map FuncDecl.id) :
    register r d = .ok { r with decls := r.decls ++ [d] } := by
  have hnone : r.lookup? d.id = none := by
    unfold Registry.lookup?
    rw [List.find?_eq_none]
    intro x hx hid
    exact h (List.mem_map.2 ⟨x, hx, beq_iff_eq.1 hid⟩)
  simp [register, Registry.declare, hnone]

/-- Only what has a new identifier is declared. -/
lemma of_register_eq_ok {r r' : Registry} {d : FuncDecl} (h : register r d = .ok r') :
    d.id ∉ r.decls.map FuncDecl.id ∧ r' = { r with decls := r.decls ++ [d] } := by
  by_cases hid : d.id ∈ r.decls.map FuncDecl.id
  · obtain ⟨x, hx, heq⟩ := List.mem_map.1 hid
    have hsome : (r.lookup? d.id).isSome :=
      List.find?_isSome.2 ⟨x, hx, beq_iff_eq.2 heq⟩
    simp only [register, Registry.declare, hsome, if_true] at h
    cases h
  · rw [register_eq hid] at h
    exact ⟨hid, (Except.ok.inj h).symm⟩

/-- Foreign functions are declared if their names are distinct. -/
lemma declareForeigns_eq : ∀ {fs : List Foreign} {d : Declared},
    (∀ f ∈ fs, f.sig.isBroken = false) →
    (d.registry.decls.map FuncDecl.id ++ fs.map Foreign.name).Nodup →
    declareForeigns fs d = .ok { d with
      registry := { d.registry with decls := d.registry.decls ++ fs.map foreignDecl }
      foreigns := d.foreigns ++ fs.map fun f => (f.name, foreignDecl f) }
  | [], d, _, _ => by simp [declareForeigns]; rfl
  | f :: fs, d, hb, hn => by
    obtain ⟨hf, hfs⟩ := List.forall_mem_cons.1 hb
    have hnew : (foreignDecl f).id ∉ d.registry.decls.map FuncDecl.id := by
      rw [List.nodup_append'] at hn
      exact fun h => hn.2.2 h List.mem_cons_self
    simp only [declareForeigns, hf, Bool.false_eq_true, if_false, register_eq hnew]
    refine (declareForeigns_eq hfs ?_).trans ?_
    · simpa [foreignDecl] using hn
    · simp

/-- Members are declared if no identifier is taken. -/
lemma declareMembers_eq {e : Elaborated} : ∀ {fs : List MemberFunction} {d : Declared},
    (∀ f ∈ fs, f.sig.isBroken = false) →
    (∀ x ∈ d.registry.decls, IsPlain x.id ∨ ∃ g n, x.id = identifier g n ∧ n < d.decls.length) →
    declareMembers e fs d = .ok { d with
      registry := { d.registry with
        decls := d.registry.decls ++ (declsFrom e d.decls.length fs).map Prod.snd }
      decls := d.decls ++ declsFrom e d.decls.length fs }
  | [], d, _, _ => by simp [declareMembers, declsFrom]; rfl
  | f :: fs, d, hb, hid => by
    obtain ⟨hf, hfs⟩ := List.forall_mem_cons.1 hb
    have hnew : (memberDecl e f d.decls.length).id ∉ d.registry.decls.map FuncDecl.id := by
      intro h
      obtain ⟨x, hx, heq⟩ := List.mem_map.1 h
      have heq : x.id = identifier f d.decls.length := heq
      obtain hplain | ⟨g, n, hg, hlt⟩ := hid x hx
      · exact not_isPlain_identifier f d.decls.length (heq ▸ hplain)
      · have := identifier_injective (hg.symm.trans heq)
        omega
    simp only [declareMembers, hf, Bool.false_eq_true, if_false, register_eq hnew]
    refine (declareMembers_eq hfs ?_).trans ?_
    · intro x hx
      obtain hx | hx := List.mem_append.1 hx
      · refine (hid x hx).imp_right fun ⟨g, n, hg, hlt⟩ => ⟨g, n, hg, ?_⟩
        simp only [List.length_append, List.length_singleton]
        omega
      · obtain rfl := List.mem_singleton.1 hx
        exact .inr ⟨f, _, rfl, by simp⟩
    · simp [declsFrom]

/-- Foreign functions that were declared are on record. -/
lemma of_declareForeigns_eq_ok : ∀ {fs : List Foreign} {d d' : Declared},
    (∀ f ∈ fs, f.sig.isBroken = false) → declareForeigns fs d = .ok d' →
    (d.registry.decls.map FuncDecl.id).Nodup → (d'.registry.decls.map FuncDecl.id).Nodup ∧
      d' = { d with
        registry := { d.registry with decls := d.registry.decls ++ fs.map foreignDecl }
        foreigns := d.foreigns ++ fs.map fun f => (f.name, foreignDecl f) }
  | [], d, d', _, h, hn => by
    obtain rfl := Except.ok.inj h
    exact ⟨hn, by simp⟩
  | f :: fs, d, d', hb, h, hn => by
    obtain ⟨hf, hfs⟩ := List.forall_mem_cons.1 hb
    simp only [declareForeigns, hf, Bool.false_eq_true, if_false] at h
    cases hr : register d.registry (foreignDecl f) with
    | error x =>
      rw [hr] at h
      cases h
    | ok r =>
      rw [hr] at h
      obtain ⟨hnew, rfl⟩ := of_register_eq_ok hr
      obtain ⟨hnodup, rfl⟩ := of_declareForeigns_eq_ok hfs h (by
        rw [List.map_append, List.map_singleton]
        exact List.nodup_append_comm.1 (List.nodup_cons.2 ⟨hnew, hn⟩))
      exact ⟨hnodup, by simp⟩

/-- Members that were declared are on record. -/
lemma of_declareMembers_eq_ok {e : Elaborated} : ∀ {fs : List MemberFunction} {d d' : Declared},
    (∀ f ∈ fs, f.sig.isBroken = false) → declareMembers e fs d = .ok d' →
    (d.registry.decls.map FuncDecl.id).Nodup → (d'.registry.decls.map FuncDecl.id).Nodup ∧
      d' = { d with
        registry := { d.registry with
          decls := d.registry.decls ++ (declsFrom e d.decls.length fs).map Prod.snd }
        decls := d.decls ++ declsFrom e d.decls.length fs }
  | [], d, d', _, h, hn => by
    obtain rfl := Except.ok.inj h
    exact ⟨hn, by simp [declsFrom]⟩
  | f :: fs, d, d', hb, h, hn => by
    obtain ⟨hf, hfs⟩ := List.forall_mem_cons.1 hb
    simp only [declareMembers, hf, Bool.false_eq_true, if_false] at h
    cases hr : register d.registry (memberDecl e f d.decls.length) with
    | error x =>
      rw [hr] at h
      cases h
    | ok r =>
      rw [hr] at h
      obtain ⟨hnew, rfl⟩ := of_register_eq_ok hr
      obtain ⟨hnodup, rfl⟩ := of_declareMembers_eq_ok hfs h (by
        rw [List.map_append, List.map_singleton]
        exact List.nodup_append_comm.1 (List.nodup_cons.2 ⟨hnew, hn⟩))
      exact ⟨hnodup, by simp [declsFrom]⟩

/-- Nothing in the types of a well-formed program failed to be analysed. -/
lemma isBroken_eq_false {p : Program} {s : Signature} (hp : ∀ a ∈ s.params, p.Valid a.type)
    (hr : ∀ a ∈ s.results, p.Valid a.type) : s.isBroken = false := by
  simp only [Signature.isBroken, Bool.or_eq_false_iff, List.any_eq_false]
  exact ⟨fun a ha => by simp [(hp a ha).isError_eq_false],
    fun a ha => by simp [(hr a ha).isError_eq_false]⟩

/-- Signatures of foreign functions are not broken. -/
lemma isBroken_foreign {p : Program} (hp : p.WellFormed) :
    ∀ f ∈ p.foreigns, f.sig.isBroken = false := fun f hf =>
  isBroken_eq_false (fun a ha => ((hp.foreigns_valid f hf).params_valid a ha).1)
    fun a ha => ((hp.foreigns_valid f hf).results_valid a ha).1

/-- Signatures of members are not broken. -/
lemma isBroken_member {e : Elaborated} (hp : e.program.WellFormed) :
    ∀ f ∈ memberFuncs e, f.sig.isBroken = false := fun f hf => by
  obtain ⟨c, hc, hfc⟩ := List.mem_flatMap.1 hf
  have hvalid := ((hp.classes_valid c hc).funcs_own f hfc).2
  exact isBroken_eq_false (fun a ha => (hvalid.params_valid a ha).1)
    fun a ha => (hvalid.results_valid a ha).1

/-- **All functions are declared**. -/
theorem declare_eq {e : Elaborated} (hp : e.program.WellFormed)
    (hn : ∀ f ∈ e.program.foreigns, IsPlain f.name) : declare e = .ok (declaredOf e) := by
  have hforeign := @declareForeigns_eq e.program.foreigns {} (isBroken_foreign hp)
    (by simpa using hp.foreign_names)
  unfold declare
  rw [hforeign]
  refine (declareMembers_eq (isBroken_member hp) fun x hx => .inl ?_).trans ?_
  · obtain ⟨f, hf, rfl⟩ := List.mem_map.1 (by simpa using hx)
    exact hn f hf
  · simp [declaredOf, foreignsOf, memberFuncs]

/-- **What is declared**, if the functions are: all of them, with different identifiers. -/
theorem of_declare_eq_ok {e : Elaborated} {d : Declared} (hp : e.program.WellFormed)
    (h : declare e = .ok d) :
    d = declaredOf e ∧ ((declaredOf e).registry.decls.map FuncDecl.id).Nodup := by
  unfold declare at h
  cases hforeign : declareForeigns e.program.foreigns {} with
  | error x =>
    rw [hforeign] at h
    cases h
  | ok d' =>
    rw [hforeign] at h
    obtain ⟨hnodup, rfl⟩ := of_declareForeigns_eq_ok (isBroken_foreign hp) hforeign List.nodup_nil
    obtain ⟨hnodup, hd⟩ := of_declareMembers_eq_ok (isBroken_member hp) h hnodup
    have heq : d = declaredOf e := by
      rw [hd]
      simp [declaredOf, foreignsOf]
    exact ⟨heq, heq ▸ hnodup⟩

/-! ## Environments -/

/-- The environment in which the function with the declaration `current` is lowered. -/
def envOf (e : Elaborated) (l : Layouts) (width : Nat) (current : FuncDecl) : Env :=
  ⟨e.program, l, (declaredOf e).decls, (declaredOf e).foreigns, width, current⟩

/-- A member function is found by its class and its place there. -/
lemma lookup_declsFrom {e : Elaborated} {f : MemberFunction} : ∀ {fs : List MemberFunction}
    {n : Nat}, f ∈ fs →
    (∀ g ∈ fs, (g.cls.id, g.index) = (f.cls.id, f.index) → g = f) →
    ∃ m, fs[m]? = some f ∧
      (declsFrom e n fs).lookup (f.cls.id, f.index) = some (memberDecl e f (n + m))
  | g :: fs, n, hf, hinj => by
    obtain ⟨hg, hfs⟩ := List.forall_mem_cons.1 hinj
    by_cases heq : (g.cls.id, g.index) = (f.cls.id, f.index)
    · obtain rfl := hg heq
      exact ⟨0, rfl, by simp [declsFrom]⟩
    · have hne : ((f.cls.id, f.index) == (g.cls.id, g.index)) = false :=
        beq_eq_false_iff_ne.2 (Ne.symm heq)
      obtain rfl | hf := List.mem_cons.1 hf
      · exact absurd rfl heq
      · obtain ⟨m, hget, hm⟩ := lookup_declsFrom (n := n + 1) hf hfs
        refine ⟨m + 1, hget, ?_⟩
        rw [Nat.add_right_comm, Nat.add_assoc] at hm
        simpa only [declsFrom, List.zipIdx_cons, List.map_cons, List.lookup_cons, hne] using hm

/-- Members are the functions that are declared. -/
lemma mem_memberFuncs {e : Elaborated} {f : MemberFunction} :
    f ∈ memberFuncs e ↔ e.program.Declares f := List.mem_flatMap

/-- **A declared function has a declaration** with its number. -/
lemma exists_number {e : Elaborated} (hp : e.program.WellFormed) {f : MemberFunction}
    (hf : e.program.Declares f) : ∃ n, (memberFuncs e)[n]? = some f ∧
      (declaredOf e).decls.lookup (f.cls.id, f.index) = some (memberDecl e f n) := by
  obtain ⟨n, hget, hn⟩ := lookup_declsFrom (e := e) (n := 0) (mem_memberFuncs.2 hf) fun _ hg heq =>
    (mem_memberFuncs.1 hg).eq_of_index_eq hf hp (Prod.mk.inj heq).1 (Prod.mk.inj heq).2
  exact ⟨n, hget, by rwa [Nat.zero_add] at hn⟩

/-- A declared function has a declaration. -/
lemma lookup_declaredOf {e : Elaborated} (hp : e.program.WellFormed) {f : MemberFunction}
    (hf : e.program.Declares f) :
    ∃ n, (declaredOf e).decls.lookup (f.cls.id, f.index) = some (memberDecl e f n) := by
  obtain ⟨n, -, hn⟩ := exists_number hp hf
  exact ⟨n, hn⟩

/-- A foreign function is found by its name. -/
lemma lookup_foreignsOf {f : Foreign} : ∀ {fs : List Foreign}, (fs.map Foreign.name).Nodup →
    f ∈ fs → (fs.map fun f => (f.name, foreignDecl f)).lookup f.name = some (foreignDecl f)
  | g :: fs, hn, hf => by
    obtain ⟨hg, hfs⟩ := List.nodup_cons.1 hn
    obtain rfl | hf := List.mem_cons.1 hf
    · simp
    · have hne : (f.name == g.name) = false :=
        beq_eq_false_iff_ne.2 fun h => hg (h ▸ List.mem_map_of_mem hf)
      simpa only [List.map_cons, List.lookup_cons, hne] using lookup_foreignsOf hfs hf

/-- **The environment of a program** is sound. -/
theorem envOf_sound {e : Elaborated} (hp : e.program.WellFormed) {l : Layouts}
    (hl : l.Complete e.program) (width : Nat) (current : FuncDecl) :
    (envOf e l width current).Sound e where
  program_eq := rfl
  program_wf := hp
  complete := hl
  decls_eq _ hf := lookup_declaredOf hp hf
  foreigns_eq _ hf := lookup_foreignsOf hp.foreign_names hf

/-! ## The functions of a program -/

/-- **The code of a function of a program**. -/
def IsCodeOf (e : Elaborated) (l : Layouts) (width : Nat) (f : MemberFunction) (fn : Function) :
    Prop :=
  ∃ n, function (envOf e l width (memberDecl e f n)) e f = .ok fn

/-- **The code of a function under its number**. -/
def IsNumberedCodeOf (e : Elaborated) (l : Layouts) (width : Nat) (f : MemberFunction)
    (fn : Function) : Prop :=
  ∃ n, (memberFuncs e)[n]? = some f ∧ function (envOf e l width (memberDecl e f n)) e f = .ok fn

section Functions

variable {e : Elaborated} {l : Layouts} {width : Nat} {fs : List MemberFunction}

/-- Steps that succeed one after the other. -/
lemma of_bind_eq_ok {α β : Type} {x : Checked α} {g : α → Checked β} {b : β}
    (h : x >>= g = .ok b) : ∃ a, x = .ok a ∧ g a = .ok b := by
  cases x with
  | error => cases h
  | ok a => exact ⟨a, rfl, h⟩

/-- One function of a program after the other is lowered. -/
lemma functions_cons (l : Layouts) (width : Nat) (fs : List MemberFunction)
    (hp : e.program.WellFormed) {f : MemberFunction} (hf : e.program.Declares f)
    (hclean : e.isClean f) :
    ∃ n, (memberFuncs e)[n]? = some f ∧
      functions (envOf e l width) e (declaredOf e) (f :: fs) = do
        let fn ← function (envOf e l width (memberDecl e f n)) e f
        return fn :: (← functions (envOf e l width) e (declaredOf e) fs) := by
  obtain ⟨n, hget, hn⟩ := exists_number hp hf
  refine ⟨n, hget, ?_⟩
  simp only [functions, hn, hclean]
  rfl

/-- A function that is not clean is left out. -/
lemma functions_cons_of_not_isClean {f : MemberFunction} (hclean : e.isClean f = false) :
    functions (envOf e l width) e (declaredOf e) (f :: fs) =
      functions (envOf e l width) e (declaredOf e) fs := by
  cases h : (declaredOf e).decls.lookup (f.cls.id, f.index) <;> simp [functions, h, hclean]

/-- What is lowered is the code of the functions without errors. -/
lemma forall₂_of_functions (hp : e.program.WellFormed) : ∀ {fs : List MemberFunction}
    {fns : List Function}, (∀ f ∈ fs, e.program.Declares f) →
    functions (envOf e l width) e (declaredOf e) fs = .ok fns →
    List.Forall₂ (IsNumberedCodeOf e l width) (fs.filter e.isClean) fns
  | [], fns, _, h => by
    obtain rfl := Except.ok.inj h
    exact .nil
  | f :: fs, fns, hfs, h => by
    obtain ⟨hf, hfs⟩ := List.forall_mem_cons.1 hfs
    cases hclean : e.isClean f with
    | false =>
      rw [functions_cons_of_not_isClean hclean] at h
      rw [List.filter_cons_of_neg (by simp [hclean])]
      exact forall₂_of_functions hp hfs h
    | true =>
      obtain ⟨n, hget, hcons⟩ := functions_cons l width fs hp hf hclean
      rw [hcons] at h
      rw [List.filter_cons_of_pos hclean]
      obtain ⟨fn, hfn, h⟩ := of_bind_eq_ok h
      obtain ⟨gns, hrest, h⟩ := of_bind_eq_ok h
      obtain rfl := Except.ok.inj h
      exact .cons ⟨n, hget, hfn⟩ (forall₂_of_functions hp hfs hrest)

/-- All functions are lowered if each of them is. -/
lemma functions_lower (hp : e.program.WellFormed) : ∀ {fs : List MemberFunction},
    (∀ f ∈ fs, e.program.Declares f) →
    (∀ f ∈ fs, e.isClean f → ∀ n, ∃ fn,
      function (envOf e l width (memberDecl e f n)) e f = .ok fn) →
    ∃ fns, functions (envOf e l width) e (declaredOf e) fs = .ok fns
  | [], _, _ => ⟨[], rfl⟩
  | f :: fs, hfs, h => by
    obtain ⟨hf, hfs⟩ := List.forall_mem_cons.1 hfs
    obtain ⟨hfn, h⟩ := List.forall_mem_cons.1 h
    obtain ⟨fns, hfns⟩ := functions_lower hp hfs h
    cases hclean : e.isClean f with
    | false => exact ⟨fns, (functions_cons_of_not_isClean hclean).trans hfns⟩
    | true =>
      obtain ⟨n, -, hcons⟩ := functions_cons l width fs hp hf hclean
      obtain ⟨fn, hfn⟩ := hfn hclean n
      refine ⟨fn :: fns, ?_⟩
      rw [hcons, hfn, hfns]
      rfl

end Functions

/-- The body that is found for a function is the body of the function. -/
lemma typed_of_body? {e : Elaborated} (he : e.Typed) {f : MemberFunction}
    (hf : e.program.Declares f) {b : FuncBody} (hb : e.body? f = some b) :
    b.Typed e.program ∧ b.fn = f := by
  have hmem := List.mem_of_find?_eq_some hb
  have hkey := List.find?_some hb
  simp only [Bool.and_eq_true, beq_iff_eq] at hkey
  exact ⟨he.bodies_typed b hmem,
    (he.bodies_declared b hmem).eq_of_index_eq hf he.program_wf hkey.1 hkey.2⟩

/-- A function without errors is of the compiler, or has a body. -/
lemma exists_body_of_isClean {e : Elaborated} {f : MemberFunction} (h : e.isClean f)
    (hgen : f.isGenerated = false) : ∃ b, e.body? f = some b := by
  cases hb : e.body? f with
  | some b => exact ⟨b, rfl⟩
  | none => simp [Elaborated.isClean, hgen, hb] at h

section Code

variable {e : Elaborated} {l : Layouts} {width : Nat} {f : MemberFunction} {fn : Function}

/-- A body that was lowered is ready. -/
lemma IsCodeOf.areReady (h : IsCodeOf e l width f fn) (hgen : f.isGenerated = false)
    {b : FuncBody} (hb : e.body? f = some b) : TStmt.areReady b.body := by
  obtain ⟨n, hfn⟩ := h
  by_contra hready
  obtain ⟨x, hx⟩ := function_fails (envOf e l width (memberDecl e f n)) hgen hb
    (Bool.eq_false_iff.2 hready)
  cases hx.symm.trans hfn

/-- **What the code of a function is**: it is typed unless the compiler copies what is no instance
of the class, and it is the code of the statements in the body. -/
theorem IsCodeOf.spec (h : IsCodeOf e l width f fn) (he : e.Typed) (hl : l.Complete e.program)
    (hf : e.program.Declares f) (hclean : e.isClean f) :
    (fn.WellTyped (· ∈ (declaredOf e).registry.decls) ↔ CopiesClass e f) ∧
      ∀ b, f.isGenerated = false → e.body? f = some b → ∃ n opening cs,
        Implements (envOf e l width (memberDecl e f n)) f b.body fn opening cs ∧
          fn.decl = memberDecl e f n := by
  have hready := fun hgen b => h.areReady hgen (b := b)
  obtain ⟨n, hfn⟩ := h
  have hsound := envOf_sound he.program_wf hl width (memberDecl e f n)
  have hcalls : (envOf e l width (memberDecl e f n)).Calls =
      (· ∈ (declaredOf e).registry.decls) := by
    funext d
    simp only [Env.Calls, envOf, declaredOf, List.mem_append, eq_iff_iff]
    exact or_comm
  obtain ⟨gn, hgn, htyped, himpl⟩ := function_lowers (T := CopiesClass e f) hsound hf rfl id
    fun hgen => by
      obtain ⟨b, hb⟩ := exists_body_of_isClean hclean hgen
      exact ⟨b, hb, (typed_of_body? he hf hb).1, (typed_of_body? he hf hb).2, hready hgen b hb⟩
  obtain rfl := Except.ok.inj (hgn.symm.trans hfn)
  rw [hcalls] at htyped
  refine ⟨⟨fun hw => ?_, htyped⟩, fun b hgen hb => ?_⟩
  · by_contra hcopies
    exact not_wellTyped_of_not_copiesClass hsound hf hcopies hfn _ hw
  · obtain ⟨opening, cs, h⟩ := himpl b hgen hb
    exact ⟨n, opening, cs, h, decl_of_function_eq_ok hfn⟩

end Code

/-- Whether all classes of a program are laid out. -/
def isLaidOut (e : Elaborated) (ds : Diagnostics) : Bool :=
  !(layoutAll e.program ds).classes.any fun (_, s) => s.isNone

/-- **Programs that are ready**: the assignments of all bodies can be lowered. -/
def IsReady (e : Elaborated) : Prop :=
  ∀ f b, e.program.Declares f → f.isGenerated = false → e.body? f = some b →
    TStmt.areReady b.body

section Ready

variable {e : Elaborated} {l : Layouts} {width : Nat}

/-- **Which programs are lowered**: those that are ready. -/
theorem functions_ok_iff (width : Nat) (he : e.Typed) (hl : l.Complete e.program) :
    (∃ fns, functions (envOf e l width) e (declaredOf e) (memberFuncs e) = .ok fns) ↔
      IsReady e := by
  constructor
  · rintro ⟨fns, hfns⟩ f b hf hgen hb
    have hclean : e.isClean f := by
      simp [Elaborated.isClean, hb, (typed_of_body? he hf hb).1.is_clean]
    have hall := forall₂_of_functions he.program_wf (fun g => mem_memberFuncs.1) hfns
    have hmem : f ∈ (memberFuncs e).filter e.isClean :=
      List.mem_filter.2 ⟨mem_memberFuncs.2 hf, hclean⟩
    obtain ⟨i, hi, rfl⟩ := List.getElem_of_mem hmem
    obtain ⟨n, -, hn⟩ := hall.get hi (hall.length_eq ▸ hi)
    exact IsCodeOf.areReady ⟨n, hn⟩ hgen hb
  · intro hready
    refine functions_lower he.program_wf (fun g => mem_memberFuncs.1) fun f hf hclean n => ?_
    have hf := mem_memberFuncs.1 hf
    obtain ⟨fn, hfn, -⟩ := function_lowers (T := False)
      (envOf_sound he.program_wf hl width (memberDecl e f n)) hf rfl False.elim fun hgen => by
        obtain ⟨b, hb⟩ := exists_body_of_isClean hclean hgen
        exact ⟨b, hb, (typed_of_body? he hf hb).1, (typed_of_body? he hf hb).2,
          hready f b hf hgen hb⟩
    exact ⟨fn, hfn⟩

end Ready

end Lane.Lowering

namespace Lane

open Code Lowering

/-- **Accepted programs**: the text is parsed without diagnostics, and the analysis finds no error
in the program. -/
def Accepted (file : String) (text : List Rune) (e : Elaborated) : Prop :=
  ∃ tree ds, ProgramSyntax.parse file text = ([], some tree) ∧
    e = (Elaborated.ofSyntax tree ds).1 ∧ e.isOk

/-- The program of a text, if it is accepted. -/
def accept? (file : String) (text : List Rune) : Option Elaborated :=
  match ProgramSyntax.parse file text with
  | ([], some tree) => some (Elaborated.ofSyntax tree {}).1 |>.filter Elaborated.isOk
  | _ => none

/-- The runes of an ASCII text. -/
def Rune.ascii (s : String) : List Rune := s.toList.map fun c => ⟨c, 1⟩

/-- The runes of a text that is given by its characters: it need not be decoded. -/
lemma Rune.ascii_ofList (cs : List Char) : ascii (String.ofList cs) = cs.map fun c => ⟨c, 1⟩ := by
  rw [ascii, String.toList_ofList]

/-- The program of an ASCII text and its code, if it is accepted and lowered. -/
def compile? (text : String) : Option (Elaborated × LoweredProgram) := do
  let e ← accept? "" (Rune.ascii text)
  let p ← (e.lower "" 0 {}).2.toOption
  return (e, p)

namespace Elaborated

variable {e : Elaborated} {name : String} {width : Int} {ds : Diagnostics} {p : LoweredProgram}

/-- The lowering of a program that is laid out is that of its functions, if they can be declared. -/
lemma lower_of_isLaidOut (hd : declare e = .ok (declaredOf e)) (name : String) (width : Int)
    (hl : isLaidOut e ds) :
    ∃ (w : Nat) (m : Module), (e.lower name width ds).2 =
      functions (envOf e (layoutAll e.program ds) w) e (declaredOf e) (memberFuncs e) >>= fun fns =>
        .ok ⟨{ m with registry := (declaredOf e).registry, functions := fns },
          layoutAll e.program ds, declaredOf e, w, true⟩ := by
  refine ⟨if width ≤ 0 then defaultWidth else width.toNat,
    { name, structs := (layoutAll e.program ds).structs }, ?_⟩
  have hany : ((layoutAll e.program ds).classes.any fun (_, s) => s.isNone) = false :=
    Bool.not_eq_true' _ ▸ hl
  unfold Elaborated.lower Elaborated.lowerWith
  simp only [hany, hd]
  rfl

/-- A program that is not laid out is refused. -/
lemma lower_of_not_isLaidOut (name : String) (width : Int) (hl : isLaidOut e ds = false) :
    ∃ p, (e.lower name width ds).2 = .ok p ∧ p.isOk = false := by
  have hany : ((layoutAll e.program ds).classes.any fun (_, s) => s.isNone) = true :=
    Bool.not_eq_false' _ ▸ hl
  unfold Elaborated.lower
  simp only [hany, if_true]
  exact ⟨_, rfl, rfl⟩

namespace Typed

/-- The layouts of a typed program that is laid out are complete. -/
lemma complete (h : e.Typed) (hl : isLaidOut e ds) : (layoutAll e.program ds).Complete e.program :=
  layoutAll_complete h.program_wf ds (Bool.not_eq_true' _ ▸ hl)

/-- What is lowered was declared: all functions, with different identifiers. -/
lemma declare_of_lower (h : e.Typed) (hp : (e.lower name width ds).2 = .ok p) (hok : p.isOk) :
    isLaidOut e ds ∧ declare e = .ok (declaredOf e) ∧
      ((declaredOf e).registry.decls.map FuncDecl.id).Nodup := by
  cases hl : isLaidOut e ds with
  | false =>
    obtain ⟨q, hq, hnot⟩ := lower_of_not_isLaidOut name width hl
    obtain rfl := Except.ok.inj (hq.symm.trans hp)
    exact absurd hok (by simp [hnot])
  | true =>
    have hany : ((layoutAll e.program ds).classes.any fun (_, s) => s.isNone) = false :=
      Bool.not_eq_true' _ ▸ hl
    unfold Elaborated.lower Elaborated.lowerWith at hp
    simp only [hany, Bool.false_eq_true, if_false] at hp
    obtain ⟨d, hd, -⟩ := of_bind_eq_ok hp
    obtain ⟨rfl, hnodup⟩ := of_declare_eq_ok h.program_wf hd
    exact ⟨rfl, hd, hnodup⟩

/-- The code of a typed program is that of its functions, one after the other. -/
lemma of_lower_isOk (h : e.Typed) (hp : (e.lower name width ds).2 = .ok p) (hok : p.isOk) :
    isLaidOut e ds ∧ p.layouts = layoutAll e.program ds ∧
      p.declared = declaredOf e ∧ p.module.registry = (declaredOf e).registry ∧
      List.Forall₂ (IsNumberedCodeOf e p.layouts p.width) ((memberFuncs e).filter e.isClean)
        p.module.functions := by
  obtain ⟨hl, hd, -⟩ := h.declare_of_lower hp hok
  obtain ⟨w, m, heq⟩ := lower_of_isLaidOut hd name width hl
  obtain ⟨fns, hfns, hq⟩ := of_bind_eq_ok (heq ▸ hp)
  obtain rfl := Except.ok.inj hq
  exact ⟨hl, rfl, rfl, rfl, forall₂_of_functions h.program_wf (fun f => mem_memberFuncs.1) hfns⟩

/-- **Which programs are lowered**: those that are ready, and those that are refused because a class
has no layout. -/
lemma exists_lower_iff (h : e.Typed) (hd : declare e = .ok (declaredOf e)) :
    (∃ p, (e.lower name width ds).2 = .ok p) ↔ (isLaidOut e ds → IsReady e) := by
  cases hl : isLaidOut e ds with
  | false =>
    obtain ⟨p, hp, -⟩ := lower_of_not_isLaidOut name width hl
    exact ⟨fun _ hfalse => absurd hfalse (by simp), fun _ => ⟨p, hp⟩⟩
  | true =>
    obtain ⟨w, m, heq⟩ := lower_of_isLaidOut hd name width hl
    rw [heq, ← functions_ok_iff w h (h.complete hl)]
    constructor
    · rintro ⟨p, hp⟩ -
      obtain ⟨fns, hfns, -⟩ := of_bind_eq_ok hp
      exact ⟨fns, hfns⟩
    · intro hready
      obtain ⟨fns, hfns⟩ := hready rfl
      rw [hfns]
      exact ⟨_, rfl⟩

end Typed

end Elaborated

namespace Accepted

variable {file name : String} {text : List Rune} {e : Elaborated} {width : Int} {ds : Diagnostics}
  {p : LoweredProgram}

/-- A text that is accepted. -/
lemma of_accept? (h : accept? file text = some e) : Accepted file text e := by
  unfold accept? at h
  split at h
  · rename_i tree hparse
    obtain ⟨he, hok⟩ := Option.filter_eq_some_iff.1 h
    exact ⟨tree, {}, hparse, (Option.some.inj he).symm, hok⟩
  · cases h

/-- A text that is accepted and lowered. -/
lemma of_compile? {text : String} (h : compile? text = some (e, p)) :
    Accepted "" (Rune.ascii text) e ∧ (e.lower "" 0 {}).2 = .ok p := by
  simp only [compile?, Option.bind_eq_bind, Option.bind_eq_some_iff, Option.pure_def,
    Option.some.injEq, Prod.mk.injEq] at h
  obtain ⟨e', he, p', hp, rfl, rfl⟩ := h
  refine ⟨of_accept? he, ?_⟩
  revert hp
  cases (e'.lower "" 0 {}).2 with
  | error => exact nofun
  | ok q => exact fun hp => congrArg _ (Option.some.inj hp)

/-- A class without members is accepted and lowered. -/
example : (compile? "class V { }").any fun (_, p) => p.isOk := by decide +kernel

/-- Accepted programs are typed. -/
lemma typed (h : Accepted file text e) : e.Typed := by
  obtain ⟨tree, ds, -, rfl, hok⟩ := h
  exact (Elaborated.typed_of_isOk tree ds hok).1

/-- The functions of an accepted program are declared. -/
lemma declare_eq (h : Accepted file text e) : declare e = .ok (declaredOf e) := by
  refine Lowering.declare_eq h.typed.program_wf fun f hf => ?_
  obtain ⟨tree, ds, hparse, rfl, hok⟩ := h
  obtain ⟨g, hg, hname⟩ := List.mem_map.1 ((Elaborated.typed_of_isOk tree ds hok).2 f hf)
  exact hname ▸ ProgramSyntax.isPlain_of_parse (by rw [hparse]) g hg

/-- **The code of an accepted program**: each of its functions is the code of a function of the
program. -/
theorem lower_isOk (h : Accepted file text e) (hp : (e.lower name width ds).2 = .ok p)
    (hok : p.isOk) : p.layouts.Complete e.program ∧ p.declared = declaredOf e ∧
      p.module.registry = (declaredOf e).registry ∧
      List.Forall₂ (IsCodeOf e p.layouts p.width) ((memberFuncs e).filter e.isClean)
        p.module.functions := by
  obtain ⟨hl, hlayouts, hdeclared, hregistry, hall⟩ := h.typed.of_lower_isOk hp hok
  exact ⟨hlayouts ▸ h.typed.complete hl, hdeclared, hregistry,
    hall.imp fun _ _ ⟨n, _, hn⟩ => ⟨n, hn⟩⟩

/-- A function in the code of an accepted program is the code of a function of the program. -/
lemma exists_isCodeOf (h : Accepted file text e) (hp : (e.lower name width ds).2 = .ok p)
    (hok : p.isOk) {fn : Function} (hfn : fn ∈ p.module.functions) :
    ∃ f, e.program.Declares f ∧ e.isClean f ∧ IsCodeOf e p.layouts p.width f fn := by
  obtain ⟨-, -, -, hall⟩ := h.lower_isOk hp hok
  obtain ⟨i, hi, rfl⟩ := List.getElem_of_mem hfn
  have hi' := hall.length_eq ▸ hi
  obtain ⟨hmem, hclean⟩ := List.mem_filter.1 (List.getElem_mem hi')
  exact ⟨_, mem_memberFuncs.1 hmem, hclean, hall.get hi' hi⟩

/-- An accepted program that is laid out and ready is lowered. -/
lemma exists_lower (h : Accepted file text e) (name : String) (width : Int) (hl : isLaidOut e ds)
    (hready : IsReady e) : ∃ p, (e.lower name width ds).2 = .ok p ∧ p.isOk := by
  obtain ⟨w, m, heq⟩ := Elaborated.lower_of_isLaidOut h.declare_eq name width hl
  obtain ⟨fns, hfns⟩ := (functions_ok_iff w h.typed (h.typed.complete hl)).2 hready
  rw [heq, hfns]
  exact ⟨_, rfl, rfl⟩

/-- **Which functions are typed**: all but those in which the compiler copies what is no instance of
the class. -/
theorem wellTyped_iff (h : Accepted file text e) (hp : (e.lower name width ds).2 = .ok p)
    (hok : p.isOk) {fn : Function} (hfn : fn ∈ p.module.functions) :
    ∃ f n, e.program.Declares f ∧ fn.decl = memberDecl e f n ∧
      (fn.WellTyped (· ∈ p.module.registry.decls) ↔ CopiesClass e f) := by
  obtain ⟨hcomplete, -, hregistry, -⟩ := h.lower_isOk hp hok
  obtain ⟨f, hf, hclean, hcode⟩ := h.exists_isCodeOf hp hok hfn
  obtain ⟨n, hn⟩ := hcode
  refine ⟨f, n, hf, decl_of_function_eq_ok hn, ?_⟩
  rw [hregistry]
  exact (IsCodeOf.spec ⟨n, hn⟩ h.typed hcomplete hf hclean).1

/-- A class whose function adds a member of another instance. -/
def addsOther : String :=
  "class V { var x: int; reader add(v: V) -> (n: int) { n = self.x + v.x; } }"

/-- Functions that are typed: none of them copies anything else. -/
theorem wellTyped_sum : ∃ e p, compile? addsOther = some (e, p) ∧
    ∃ fn ∈ p.module.functions, ∃ f n, e.program.Declares f ∧ fn.decl = memberDecl e f n ∧
      (fn.WellTyped (· ∈ p.module.registry.decls) ↔ CopiesClass e f) := by
  have hrun : (compile? addsOther).any fun (_, p) =>
      p.isOk && !p.module.functions.isEmpty := by
    rw [compile?, addsOther, Rune.ascii_ofList]
    decide +kernel
  obtain ⟨⟨e, p⟩, hc, hrun⟩ := (Option.any_eq_true ..).1 hrun
  obtain ⟨hok, hne⟩ := Bool.and_eq_true_iff.1 hrun
  obtain ⟨hacc, hp⟩ := of_compile? hc
  obtain ⟨fn, hfn⟩ := List.exists_mem_of_ne_nil p.module.functions (by simpa using hne)
  exact ⟨e, p, hc, fn, hfn, hacc.wellTyped_iff hp hok hfn⟩

/-- A class with the name of a scalar. -/
def scalarNamed : String := "class int { var x: bool; }"

/-- Whether an instruction loads from an address that is not there. -/
def loadsNothing : Instr → Bool
  | .load _ .absent _ => true
  | _ => false

/-- A program with a function that is not typed: its class has the name of a scalar. -/
theorem not_wellTyped_int : ∃ e p, compile? scalarNamed = some (e, p) ∧ p.isOk ∧
    ∃ fn ∈ p.module.functions, ¬fn.WellTyped (· ∈ p.module.registry.decls) := by
  have hrun : (compile? scalarNamed).any fun q =>
      q.2.isOk && q.2.module.functions.any fun fn => fn.body.any loadsNothing := by
    rw [compile?, scalarNamed, Rune.ascii_ofList]
    decide +kernel
  obtain ⟨⟨e, p⟩, hc, hrun⟩ := (Option.any_eq_true ..).1 hrun
  obtain ⟨hok, hfns⟩ := Bool.and_eq_true_iff.1 hrun
  obtain ⟨fn, hfn, hbody⟩ := List.any_eq_true.1 hfns
  obtain ⟨i, hi, hload⟩ := List.any_eq_true.1 hbody
  refine ⟨e, p, hc, hok, fn, hfn, fun hw => ?_⟩
  have hi := hw.body_typed i hi
  cases i with
  | load d a o =>
    cases a with
    | absent => exact hi.2.1.1 rfl
    | _ => cases hload
  | _ => cases hload

end Accepted

end Lane
