import Lane.Proofs.Analysis.Complete

set_option relaxedAutoImplicit false
set_option autoImplicit false

/-!
# The order of declarations

A declaration sees the names of all classes, and adds to its own class or foreign function only. So
the declarations of one round may be made in any order: each of them finds the same, and what is
known in the end is the same. In the last round the bodies of functions see everything and add
nothing.

## Main definitions

* `Lane.Program.Zone`: what a declaration is about.
* `Lane.Context.Meets`: contexts that a declaration cannot tell apart.
* `Lane.Context.ActsOn`: steps that change one zone of a program at most.
* `Lane.Elaborated.Reordered`: elaborations of the same declarations in different orders.

## Main results

* `Lane.Analysis.round_perm`: a round of declarations in two orders.
* `Lane.Elaborated.ofSyntax_perm`: programs whose declarations are written in two orders.
-/

namespace Lane

/-- What is found in a list is found in another order too, if nothing else could be. -/
lemma find?_eq_of_perm {α : Type} {P : α → Bool} {l l' : List α} (h : l.Perm l')
    (hu : ∀ a ∈ l, ∀ b ∈ l, P a → P b → a = b) : l'.find? P = l.find? P := by
  cases ha : l.find? P with
  | none =>
    rw [List.find?_eq_none] at ha ⊢
    exact fun a ha' => ha a (h.mem_iff.2 ha')
  | some a =>
    have hmem := List.mem_of_find?_eq_some ha
    cases hb : l'.find? P with
    | none => exact absurd (List.find?_some ha) (List.find?_eq_none.1 hb a (h.mem_iff.1 hmem))
    | some b =>
      rw [hu b (h.mem_iff.2 (List.mem_of_find?_eq_some hb)) a hmem (List.find?_some hb)
        (List.find?_some ha)]

/-- **The same declarations in another order.** Classes have names of their own, and foreign
functions have names of their own. -/
structure ProgramSyntax.Reordered (t t' : ProgramSyntax) : Prop where
  classes_perm : t.classes.Perm t'.classes
  foreigns_perm : t.foreigns.Perm t'.foreigns
  classes_nodup : (t.classes.map ClassSyntax.name).Nodup
  foreigns_nodup : (t.foreigns.map ForeignSyntax.name).Nodup

namespace Program

/-! ## Zones of programs -/

/-- **What a declaration is about**: a class, or a foreign function. -/
inductive Zone where
  | cls (id : Nat)
  | foreign (name : String)
  deriving DecidableEq

/-- What is known in a zone. -/
def part (p : Program) : Zone → Option Class ⊕ Option Foreign
  | .cls id => .inl (p.classes.find? fun c => c.ref.id == id)
  | .foreign name => .inr (p.foreign? name)

/-- **The names of the classes** of a program, in any order. -/
structure Names (R : List ClassRef) (p : Program) : Prop where
  refs_perm : (p.classes.map Class.ref).Perm R
  ids_nodup : (R.map ClassRef.id).Nodup
  names_nodup : (R.map ClassRef.name).Nodup

variable {p p' : Program} {R : List ClassRef} {r : ClassRef} {k : Class}

/-- A class is what its part of the program says. -/
lemma classOf_eq_of_part (h : p'.part (.cls r.id) = p.part (.cls r.id)) :
    p'.classOf r = p.classOf r := by
  unfold classOf
  rw [Sum.inl.inj h]

/-- The declared names are those of the classes. -/
lemma Names.mem_iff (h : p.Names R) : (∃ k ∈ p.classes, k.ref = r) ↔ r ∈ R := by
  rw [← h.refs_perm.mem_iff, List.mem_map]

/-- Classes with distinct names are told apart by their numbers. -/
lemma Names.classes_nodup (h : p.Names R) : (p.classes.map fun k => k.ref.id).Nodup := by
  have hids := (h.refs_perm.map ClassRef.id).symm.nodup h.ids_nodup
  rwa [List.map_map] at hids

/-- Classes with one number are one class. -/
lemma Names.ref_eq_of_id (h : p.Names R) {c d : Class} (hc : c ∈ p.classes) (hd : d ∈ p.classes)
    (hid : c.ref.id = d.ref.id) : c.ref = d.ref :=
  List.inj_on_of_nodup_map h.ids_nodup (h.mem_iff.1 ⟨c, hc, rfl⟩) (h.mem_iff.1 ⟨d, hd, rfl⟩) hid

/-- The class of a name in types is called so. -/
lemma Names.classOf_ref (h : p.Names R) (hr : r ∈ R) : (p.classOf r).ref = r := by
  obtain ⟨k, hk, rfl⟩ := h.mem_iff.2 hr
  unfold classOf
  cases hf : p.classes.find? fun c => c.ref.id == k.ref.id with
  | none => exact absurd (List.find?_eq_none.1 hf k hk) (by simp)
  | some d =>
    have hid : (d.ref.id == k.ref.id) = true := by simpa using List.find?_some hf
    exact h.ref_eq_of_id (List.mem_of_find?_eq_some hf) hk (beq_iff_eq.1 hid)

/-- The same classes have names in programs with the same names. -/
lemma Names.ref_eq (h : p.Names R) (h' : p'.Names R) (n : String) :
    (p'.class? n).map Class.ref = (p.class? n).map Class.ref := by
  have hfind : ∀ p : Program, (p.class? n).map Class.ref =
      (p.classes.map Class.ref).find? fun r => r.name == n := fun p => by
    rw [List.find?_map]
    rfl
  rw [hfind, hfind]
  refine find?_eq_of_perm (h.refs_perm.trans h'.refs_perm.symm) fun a ha b hb hn hm => ?_
  exact List.inj_on_of_nodup_map h.names_nodup (h.refs_perm.mem_iff.1 ha) (h.refs_perm.mem_iff.1 hb)
    ((beq_iff_eq.1 hn).trans (beq_iff_eq.1 hm).symm)

/-- A changed class in the place of the class it was. -/
lemma part_update (p : Program) (k : Class) (id : Nat) : (p.update k).part (.cls id) =
    .inl ((p.classes.find? fun c => c.ref.id == id).map fun d =>
      if d.ref.id == k.ref.id then k else d) := by
  show Sum.inl (List.find? _ (p.classes.map _)) = _
  rw [List.find?_map]
  congr 2
  refine congrArg (List.find? · p.classes) (funext fun d => ?_)
  simp only [Function.comp_apply, beq_iff_eq]
  split
  · rename_i h
    rw [h]
  · rfl

/-- The other zones stay as they are. -/
lemma part_update_of_ne {z : Zone} (h : z ≠ .cls k.ref.id) : (p.update k).part z = p.part z := by
  cases z with
  | foreign => rfl
  | cls id =>
    rw [part_update, part]
    cases hf : p.classes.find? fun c => c.ref.id == id with
    | none => rfl
    | some d =>
      have hid : d.ref.id = id := by simpa using List.find?_some hf
      have hne : d.ref.id ≠ k.ref.id := fun he => h (congrArg Zone.cls (hid.symm.trans he))
      simp [hne]

/-- A new foreign function is the one of its name. -/
lemma part_addForeign {f : Foreign} (h : p.foreign? f.name = none) :
    part { p with foreigns := p.foreigns ++ [f] } (.foreign f.name) = .inr (some f) := by
  refine congrArg Sum.inr (?_ : (p.foreigns ++ [f]).find? _ = some f)
  rw [List.find?_append, show p.foreigns.find? _ = none from h]
  simp

/-- A foreign function is entered, and no other part changes. -/
lemma part_addForeign_of_ne {f : Foreign} {z : Zone} (h : z ≠ .foreign f.name) :
    part { p with foreigns := p.foreigns ++ [f] } z = p.part z := by
  cases z with
  | cls => rfl
  | foreign name =>
    have hne : f.name ≠ name := fun he => h (congrArg Zone.foreign he.symm)
    refine congrArg Sum.inr (?_ : (p.foreigns ++ [f]).find? _ = p.foreigns.find? _)
    simp [List.find?_append, hne]

/-- An updated class keeps its name. -/
lemma Names.update (h : p.Names R) (hk : k.ref ∈ R) : (p.update k).Names R := by
  refine ⟨?_, h.ids_nodup, h.names_nodup⟩
  have hrefs : (p.update k).classes.map Class.ref = p.classes.map Class.ref := by
    rw [Program.update, List.map_map]
    refine List.map_congr_left fun d hd => ?_
    simp only [Function.comp_apply, beq_iff_eq]
    split
    · rename_i hid
      exact (List.inj_on_of_nodup_map h.ids_nodup (h.mem_iff.1 ⟨d, hd, rfl⟩) hk hid).symm
    · rfl
  exact hrefs ▸ h.refs_perm

/-- **Programs that agree**: the same is known in all zones. -/
structure Agree (R : List ClassRef) (p p' : Program) : Prop where
  names : p.Names R
  names' : p'.Names R
  part_eq : ∀ z, p'.part z = p.part z

/-- A class is found by its number. -/
lemma Names.part_of_mem (h : p.Names R) (hk : k ∈ p.classes) :
    p.part (.cls k.ref.id) = .inl (some k) := by
  refine congrArg Sum.inl ?_
  cases hf : p.classes.find? fun c => c.ref.id == k.ref.id with
  | none => exact absurd (List.find?_eq_none.1 hf k hk) (by simp)
  | some d =>
    have hid : (d.ref.id == k.ref.id) = true := by simpa using List.find?_some hf
    exact congrArg some (List.inj_on_of_nodup_map h.classes_nodup (List.mem_of_find?_eq_some hf) hk
      (beq_iff_eq.1 hid))

namespace Agree

variable (h : p.Agree R p')
include h

/-- Programs that agree have the same class of a name. -/
lemma classOf_eq (r : ClassRef) : p'.classOf r = p.classOf r :=
  classOf_eq_of_part (h.part_eq _)

/-- Programs that agree have the same foreign function of a name. -/
lemma foreign?_eq (n : String) : p'.foreign? n = p.foreign? n :=
  Sum.inr.inj (h.part_eq (.foreign n))

/-- Agreement is symmetric. -/
lemma symm : p'.Agree R p := ⟨h.names', h.names, fun z => (h.part_eq z).symm⟩

/-- The same classes are declared. -/
lemma mem_classes (hk : k ∈ p.classes) : k ∈ p'.classes := by
  have hpart := h.part_eq (.cls k.ref.id)
  rw [h.names.part_of_mem hk] at hpart
  exact List.mem_of_find?_eq_some (Sum.inl.inj hpart)

/-- The same functions are declared. -/
lemma declares {f : MemberFunction} (hf : p.Declares f) : p'.Declares f := by
  obtain ⟨k, hk, hfk⟩ := hf
  exact ⟨k, h.mem_classes hk, hfk⟩

/-- Programs that agree have as many classes. -/
lemma length_classes : p'.classes.length = p.classes.length := by
  have hlength := (h.names'.refs_perm.trans h.names.refs_perm.symm).length_eq
  rwa [List.length_map, List.length_map] at hlength

/-- The same classes have the names. -/
lemma class?_eq (n : String) : p'.class? n = p.class? n := by
  have href := h.names.ref_eq h.names' n
  cases hk : p.class? n with
  | none =>
    rw [hk] at href
    exact Option.map_eq_none_iff.1 href
  | some k =>
    rw [hk] at href
    obtain ⟨k', hk', heq⟩ := Option.map_eq_some_iff.1 href
    have hpart := h.part_eq (.cls k.ref.id)
    rw [h.names.part_of_mem (mem_of_class?_eq_some hk), ← heq,
      h.names'.part_of_mem (mem_of_class?_eq_some hk')] at hpart
    rw [hk', Sum.inl.inj hpart]

end Agree

end Program

namespace Context

open Program (Zone)

/-! ## Contexts that declarations cannot tell apart -/

/-- **Contexts that a declaration cannot tell apart**: the classes have the same names, and the zone
of the declaration is the same. The next locals are related by `N`. -/
structure Meets (R : List ClassRef) (N : Nat → Nat → Prop) (z : Zone) (c c' : Context) : Prop where
  names : c.program.Names R
  names' : c'.program.Names R
  number : N c.nextLocal c'.nextLocal
  part_eq : c'.program.part z = c.program.part z

/-- **Steps that change one zone** at most. -/
def ActsOn (R : List ClassRef) (z : Zone) (c d : Context) : Prop :=
  c.program.Names R → d.program.Names R ∧ ∀ y ≠ z, d.program.part y = c.program.part y

/-- Contexts in which the same is known. -/
abbrev Agree (R : List ClassRef) (c c' : Context) : Prop := c.program.Agree R c'.program

/-- **The same is found** between two contexts as between two others, maybe in another order. -/
def FoundPerm (c d c' d' : Context) : Prop :=
  ∃ found found' : List Diagnostic, found.Perm found' ∧
    d.diagnostics = c.diagnostics.append found ∧ d'.diagnostics = c'.diagnostics.append found'

/-- What is the same of two contexts after rounds of declarations. -/
structure InTurn (R : List ClassRef) (c d c' d' : Context) : Prop where
  agree : Agree R d d'
  found : FoundPerm c d c' d'

variable {R : List ClassRef} {N : Nat → Nat → Prop} {z : Zone} {c d e c' d' e' : Context}

/-- What is found in two parts in another order. -/
lemma FoundPerm.trans (h : FoundPerm c d c' d') (k : FoundPerm d e d' e') :
    FoundPerm c e c' e' := by
  obtain ⟨found, found', hp, hd, hd'⟩ := h
  obtain ⟨more, more', hq, he, he'⟩ := k
  exact ⟨found ++ more, found' ++ more', hp.append hq,
    by rw [he, hd, Diagnostics.append_append], by rw [he', hd', Diagnostics.append_append]⟩

/-- Steps in turn, one after the other. -/
lemma InTurn.trans (h : InTurn R c d c' d') (k : InTurn R d e d' e') : InTurn R c e c' e' :=
  ⟨k.agree, h.found.trans k.found⟩

/-- Contexts that meet stay together under added diagnostics. -/
instance : Parallel (Meets R N z) where
  add _ h := ⟨h.names, h.names', h.number, h.part_eq⟩
  ref_eq h n := h.names.ref_eq h.names' n

/-- Contexts that meet with equal numbers are renumbered alike. -/
instance : Numbering (Meets R Eq z) where
  nextLocal_eq h := h.number.symm
  renumber _ h := ⟨h.names, h.names', rfl, h.part_eq⟩

/-- Nothing is acted on. -/
instance : Std.Refl (ActsOn R z) := ⟨fun _ h => ⟨h, fun _ _ => rfl⟩⟩

/-- Actions in sequence. -/
instance : IsTrans Context (ActsOn R z) where
  trans _ _ _ h k hc :=
    ⟨(k (h hc).1).1, fun y hy => ((k (h hc).1).2 y hy).trans ((h hc).2 y hy)⟩

/-- A walk changes no part of the program. -/
lemma Walks.actsOn (h : c.Walks d) : ActsOn R z c d := fun hc =>
  ⟨h.program_eq ▸ hc, fun _ _ => by rw [h.program_eq]⟩

end Context

namespace Analysis

open Program (Zone)
open Context (Meets ActsOn Agree)

section Declarations

variable {R : List ClassRef} {N : Nat → Nat → Prop} {z : Zone} {r : ClassRef} {α : Type}
  {m : Analysis α} {S : α → Prop}

/-- Analysis that only walks acts on no part of the program. -/
lemma Steps.actsOn (hm : Steps (Meets R N z) Context.Walks m S) :
    Steps (Meets R N z) (ActsOn R z) m S :=
  hm.weaken (fun _ _ => Context.Walks.actsOn) fun _ h => h

/-- A report changes no zone. -/
lemma report_acts (kind : DiagnosticKind) (pos : Position) (message : String) :
    Steps (Meets R N z) (ActsOn R z) (report kind pos message) fun _ => True :=
  (report_steps kind pos message).walks.actsOn

/-- Locals are numbered anew, whatever the next local was. -/
lemma Steps.firstLocal_bind {f : Nat → Analysis α}
    (hf : Steps (Meets R Eq z) (ActsOn R z) (f 0) S) :
    Steps (Meets R (fun _ _ => True) z) (ActsOn R z) (firstLocal >>= f) S where
  run c := ⟨fun hc => (hf.run { c with nextLocal := 1 }).1 hc, (hf.run _).2⟩
  alike {c c'} h := by
    have hmeets : Meets R Eq z { c with nextLocal := 1 } { c' with nextLocal := 1 } :=
      ⟨h.names, h.names', rfl, h.part_eq⟩
    obtain ⟨hvalue, hd, hfound⟩ := hf.alike hmeets
    exact ⟨hvalue, ⟨hd.names, hd.names', trivial, hd.part_eq⟩, hfound⟩

/-- The class of a declaration is looked up. -/
lemma Steps.class_bind (hr : r ∈ R) {f : Context → Analysis α}
    (hs : ∀ {c c' : Context}, c'.program.classOf r = c.program.classOf r → f c' = f c)
    (hf : ∀ c : Context, (c.program.classOf r).ref = r →
      Steps (Meets R N (.cls r.id)) (ActsOn R (.cls r.id)) (f c) fun _ => True) :
    Steps (Meets R N (.cls r.id)) (ActsOn R (.cls r.id)) (get >>= f) fun _ => True where
  run c := ⟨fun hc => ((hf c (hc.classOf_ref hr)).run c).1 hc, trivial⟩
  alike {c c'} h := by
    show ((f c').run c').1 = ((f c).run c).1 ∧ Context.InStep (Meets R N (.cls r.id)) c
      ((f c).run c).2 c' ((f c').run c').2
    rw [hs (Program.classOf_eq_of_part h.part_eq)]
    exact (hf c (h.names.classOf_ref hr)).alike h

/-- A changed class takes the place of the class it was. -/
lemma update_acts (hr : r ∈ R) {k : Class} (hk : k.ref = r) :
    Steps (Meets R N (.cls r.id)) (ActsOn R (.cls r.id))
      (modify fun ctx => { ctx with program := ctx.program.update k }) fun _ => True := by
  subst hk
  refine Steps.modify (fun c hc => ⟨hc.update hr, fun _ => Program.part_update_of_ne⟩)
    fun {c c'} h => ⟨⟨h.names.update hr, h.names'.update hr, h.number, ?_⟩, .refl c c'⟩
  show (c'.program.update k).part _ = (c.program.update k).part _
  rw [Program.part_update, Program.part_update, Sum.inl.inj h.part_eq]

/-! ## Members -/

/-- A declared variable changes its class only. -/
lemma declareVar_acts (hr : r ∈ R) (v : VarSyntax) :
    Steps (Meets R N (.cls r.id)) (ActsOn R (.cls r.id)) (declareVar r v) fun _ => True := by
  refine Steps.bind (resolveType_steps v.type).walks.actsOn fun t _ => ?_
  -- Whatever the type turns out to be, the variable is added or reported.
  split
  on_goal 1 => split
  on_goal 1 => refine Steps.bind (report_acts _ _ _) fun _ _ => ?_
  all_goals
    refine Steps.class_bind hr (fun h => by simp only [h]) fun c hc => ?_
    split
    · rename_i k w hk
      exact update_acts hr (by rw [(Class.of_addVar_eq_ok hk).2.2, hc])
    · exact report_acts _ _ _

/-- The variables of a class change that class only. -/
lemma declareVars_acts (hr : r ∈ R) (k : ClassSyntax) :
    Steps (Meets R N (.cls r.id)) (ActsOn R (.cls r.id)) (declareVars r k) fun _ => True := by
  refine Steps.forM fun x _ => ?_
  split
  · exact declareVar_acts hr _
  · exact Steps.pure trivial

/-- A declared function changes its class only. -/
lemma declareFunc_acts (hr : r ∈ R) (d : FuncSyntax) :
    Steps (Meets R (fun _ _ => True) (.cls r.id)) (ActsOn R (.cls r.id)) (declareFunc r d)
      fun _ => True := by
  refine Steps.firstLocal_bind ?_
  refine Steps.bind (Steps.actsOn (signature_steps d.params d.results)) fun q _ => ?_
  refine Steps.bind (checkShape_steps _).walks.actsOn fun _ _ => ?_
  dsimp only
  split
  on_goal 1 => refine Steps.bind (report_acts _ _ _) fun _ _ => ?_
  all_goals
    refine Steps.class_bind hr (fun h => by simp only [h]) fun c hc => ?_
    split
    · rename_i k g hk
      exact Steps.bind (update_acts hr (by rw [(Class.of_addFunc_eq_ok hk).2, hc]))
        fun _ _ => Steps.pure trivial
    · exact Steps.bind (report_acts _ _ _) fun _ _ => Steps.pure trivial

/-- The functions of a class change that class only. -/
lemma declareFuncs_acts (hr : r ∈ R) : ∀ ms : List MemberSyntax,
    Steps (Meets R (fun _ _ => True) (.cls r.id)) (ActsOn R (.cls r.id)) (declareFuncs r ms)
      fun _ => True
  | [] => Steps.pure trivial
  | .var _ :: ms => declareFuncs_acts hr ms
  | .func d :: ms => Steps.bind (declareFunc_acts hr d) fun _ _ =>
      Steps.bind (declareFuncs_acts hr ms) fun _ _ => Steps.pure trivial

/-- A generated function changes its class only. -/
lemma generate_acts (hr : r ∈ R) (pos : Position) (kind : FuncKind) (isCopy : Bool) :
    Steps (Meets R (fun _ _ => True) (.cls r.id)) (ActsOn R (.cls r.id))
      (generate r pos kind isCopy) fun _ => True := by
  refine Steps.firstLocal_bind ?_
  refine Steps.bind (Steps.actsOn (signature_steps _ [])) fun q _ => ?_
  refine Steps.class_bind hr (fun h => by simp only [h]) fun c hc => ?_
  split
  · rename_i k g hk
    exact update_acts hr (by rw [(Class.of_addFunc_eq_ok hk).2, hc])
  · exact Steps.pure trivial

/-- All functions that are generated for a class change that class only. -/
lemma declareGenerated_acts (hr : r ∈ R) (pos : Position) :
    Steps (Meets R (fun _ _ => True) (.cls r.id)) (ActsOn R (.cls r.id)) (declareGenerated r pos)
      fun _ => True := by
  have copies := Steps.bind (S := fun _ => True) (generate_acts hr pos .create true) fun _ _ =>
    generate_acts hr pos .assign true
  refine Steps.class_bind hr (fun h => by simp only [h]) fun c _ => ?_
  split
  · exact Steps.bind (generate_acts hr pos .create false) fun _ _ => copies
  · exact copies

/-! ## Foreign functions -/

/-- A foreign function is added, or reported. -/
lemma addForeign_acts (f : Foreign) (pos : Position) (message : Foreign → String) :
    Steps (Meets R N (.foreign f.name)) (ActsOn R (.foreign f.name)) (do
      match (← get).program.addForeign f with
      | .ok program => modify fun ctx => { ctx with program }
      | .error prev => report .duplicate pos (message prev)) fun _ => True := by
  set m : Analysis Unit := do
    match (← get).program.addForeign f with
    | .ok program => modify fun ctx => { ctx with program }
    | .error prev => report .duplicate pos (message prev)
  -- What is done depends on whether there is a foreign function of the name, and on nothing else.
  have added : ∀ c : Context, c.program.foreign? f.name = none → m.run c =
      ((), { c with program := { c.program with foreigns := c.program.foreigns ++ [f] } }) := by
    intro c hc
    show StateT.run (match c.program.addForeign f with
      | .ok program => modify fun ctx => { ctx with program }
      | .error prev => report .duplicate pos (message prev) : Analysis Unit) c = _
    rw [Program.addForeign, hc]
    rfl
  have reported : ∀ (c : Context) {g : Foreign}, c.program.foreign? f.name = some g →
      m.run c = (report .duplicate pos (message g)).run c := by
    intro c g hc
    show StateT.run (match c.program.addForeign f with
      | .ok program => modify fun ctx => { ctx with program }
      | .error prev => report .duplicate pos (message prev) : Analysis Unit) c = _
    rw [Program.addForeign, hc]
  refine ⟨fun c => ⟨?_, trivial⟩, fun {c c'} h => ⟨rfl, ?_⟩⟩
  · cases hc : c.program.foreign? f.name with
    | none =>
      rw [added c hc]
      exact fun hnames => ⟨⟨hnames.refs_perm, hnames.ids_nodup, hnames.names_nodup⟩,
        fun _ => Program.part_addForeign_of_ne⟩
    | some g =>
      rw [reported c hc]
      exact ((report_acts (N := N) .duplicate pos (message g)).run c).1
  · have hfind : c'.program.foreign? f.name = c.program.foreign? f.name := Sum.inr.inj h.part_eq
    cases hc : c.program.foreign? f.name with
    | none =>
      rw [added c hc, added c' (hfind.trans hc)]
      exact ⟨⟨⟨h.names.refs_perm, h.names.ids_nodup, h.names.names_nodup⟩,
        ⟨h.names'.refs_perm, h.names'.ids_nodup, h.names'.names_nodup⟩, h.number,
        (Program.part_addForeign (hfind.trans hc)).trans (Program.part_addForeign hc).symm⟩,
        .refl c c'⟩
    | some g =>
      rw [reported c hc, reported c' (hfind.trans hc)]
      exact ((report_acts .duplicate pos (message g)).alike h).2

/-- A foreign function changes its own entry only. -/
lemma declareForeign_acts (d : ForeignSyntax) :
    Steps (Meets R (fun _ _ => True) (.foreign d.name)) (ActsOn R (.foreign d.name))
      (declareForeign d) fun _ => True := by
  refine Steps.firstLocal_bind ?_
  refine Steps.bind (Steps.actsOn (foreignParams_steps d.name false d.params)) fun ins _ => ?_
  refine Steps.bind (Steps.actsOn (foreignParams_steps d.name true d.results)) fun outs _ => ?_
  have added := addForeign_acts (R := R) (N := Eq) ⟨d.name, d.pos, ⟨ins, outs⟩⟩ d.pos fun prev =>
    "extern " ++ d.name ++ " is already declared at " ++ prev.pos.describe
  dsimp only
  split
  · exact Steps.bind (report_acts _ _ _) fun _ _ => added
  · exact added

end Declarations

/-! ## Rounds of declarations -/

/-- **What an analysis finds** from a context on. -/
def found {α : Type} (m : Analysis α) (c : Context) : List Diagnostic :=
  (m.run c).2.diagnostics.toList.drop c.diagnostics.toList.length

section Rounds

variable {R : List ClassRef} {α β γ : Type} {c c' : Context}

/-- What was found is known from the diagnostics. -/
lemma found_eq {m : Analysis α} {l : List Diagnostic}
    (h : (m.run c).2.diagnostics = c.diagnostics.append l) : found m c = l := by
  simp [found, h, Diagnostics.append, Diagnostics.toList]

/-- The same is found from two contexts. -/
lemma found_of_sameFound {m : Analysis α}
    (h : Context.SameFound c (m.run c).2 c' (m.run c').2) :
    (m.run c').2.diagnostics = c'.diagnostics.append (found m c) := by
  obtain ⟨l, hl, hl'⟩ := h
  rw [found_eq hl, hl']

/-- **A round of declarations**, each of which is about a zone of its own: each gives and finds what
it does in the context `c₀`, and makes of its zone what it does there. -/
lemma round_run {z : β → Zone} {m : β → Analysis γ} {c₀ : Context} (h₀ : c₀.program.Names R) :
    ∀ (l : List β) (c : Context), (l.map z).Nodup →
    (∀ x ∈ l, Steps (Meets R (fun _ _ => True) (z x)) (ActsOn R (z x)) (m x) fun _ => True) →
    c.program.Names R → (∀ x ∈ l, c.program.part (z x) = c₀.program.part (z x)) →
    Ends c (l.mapM m) fun vs d => vs = l.map (fun x => ((m x).run c₀).1) ∧
      d.diagnostics = c.diagnostics.append (l.flatMap fun x => found (m x) c₀) ∧
      d.program.Names R ∧
      (∀ x ∈ l, d.program.part (z x) = ((m x).run c₀).2.program.part (z x)) ∧
      ∀ y ∉ l.map z, d.program.part y = c.program.part y
  | [], c, _, _, hc, _ =>
    Ends.pure ⟨rfl, c.diagnostics.append_nil.symm, hc, by simp, fun _ _ => rfl⟩
  | x :: l, c, hz, hm, hc, hpart => by
    obtain ⟨hx, hl⟩ := List.nodup_cons.1 hz
    obtain ⟨hhere, hothers⟩ := List.forall_mem_cons.1 hpart
    obtain ⟨hvalue, hd, hfound⟩ := (hm x List.mem_cons_self).alike
      (⟨h₀, hc, trivial, hhere⟩ : Meets R _ _ c₀ c)
    have hkeep := (((hm x List.mem_cons_self).run c).1 hc).2
    have hne : ∀ a ∈ l, z a ≠ z x := fun a ha he => hx (he ▸ List.mem_map_of_mem ha)
    rw [List.mapM_cons]
    refine Ends.bind (Q := fun v d => v = ((m x).run c).1 ∧ d = ((m x).run c).2) ⟨rfl, rfl⟩ ?_
    rintro _ d ⟨rfl, rfl⟩
    refine Ends.bind (round_run h₀ l _ hl (fun a ha => hm a (List.mem_cons_of_mem x ha)) hd.names'
      fun a ha => (hkeep _ (hne a ha)).trans (hothers a ha)) ?_
    rintro _ e ⟨rfl, hds, hnames, hzones, hrest⟩
    refine Ends.pure ⟨by rw [hvalue]; rfl, ?_, hnames, ?_, fun y hy => ?_⟩
    · rw [hds, found_of_sameFound hfound, Diagnostics.append_append, List.flatMap_cons]
    · exact List.forall_mem_cons.2 ⟨(hrest _ (by simpa using hne)).trans hd.part_eq, hzones⟩
    · obtain ⟨hyx, hyl⟩ := not_or.1 (hy ∘ List.mem_cons.2)
      exact (hrest y hyl).trans (hkeep y hyx)

/-- **Analyses that do the same in turn**: their results are related by `P`, and what they find and
what is known after them does not depend on the order. -/
def InTurn {α β : Type} (R : List ClassRef) (c : Context) (m : Analysis α) (c' : Context)
    (m' : Analysis β) (P : α → β → Prop) : Prop :=
  P (m.run c).1 (m'.run c').1 ∧ Context.InTurn R c (m.run c).2 c' (m'.run c').2

/-- Rounds of two analyses go on in turn, one after the other. -/
lemma InTurn.bind {α α' β β' : Type} {m : Analysis α} {m' : Analysis α'} {f : α → Analysis β}
    {f' : α' → Analysis β'} {P : α → α' → Prop} {Q : β → β' → Prop} (hm : InTurn R c m c' m' P)
    (hf : ∀ a a' d d', P a a' → Agree R d d' → InTurn R d (f a) d' (f' a') Q) :
    InTurn R c (m >>= f) c' (m' >>= f') Q :=
  let h := hf _ _ _ _ hm.1 hm.2.agree
  ⟨h.1, hm.2.trans h.2⟩

/-- A result on both sides. -/
lemma InTurn.pure {a : α} {b : β} {P : α → β → Prop} (h : Agree R c c') (hab : P a b) :
    InTurn R c (pure a) c' (pure b) P :=
  ⟨hab, h, [], [], .nil, c.diagnostics.append_nil.symm, c'.diagnostics.append_nil.symm⟩

/-- **Rounds in any order**: what the declarations of a round give and find, and what is known in
the end, does not depend on their order. -/
theorem round_perm {z : β → Zone} {m : β → Analysis γ} {l l' : List β} (hp : l.Perm l')
    (hz : (l.map z).Nodup)
    (hm : ∀ x ∈ l, Steps (Meets R (fun _ _ => True) (z x)) (ActsOn R (z x)) (m x) fun _ => True)
    (h : Agree R c c') : InTurn R c (l.mapM m) c' (l'.mapM m) List.Perm := by
  have hzp := hp.map z
  obtain ⟨hvalues, hds, hnames, hzones, hrest⟩ :=
    round_run h.names l c hz hm h.names fun _ _ => rfl
  obtain ⟨hvalues', hds', hnames', hzones', hrest'⟩ := round_run h.names l' c' (hzp.nodup hz)
    (fun x hx => hm x (hp.mem_iff.2 hx)) h.names' fun x _ => h.part_eq (z x)
  refine ⟨?_, ⟨⟨hnames, hnames', fun y => ?_⟩, ⟨_, _, hp.flatMap_right _, hds, hds'⟩⟩⟩
  · rw [hvalues, hvalues']
    exact hp.map _
  · by_cases hy : y ∈ l.map z
    · obtain ⟨x, hx, rfl⟩ := List.mem_map.1 hy
      exact (hzones' x (hp.mem_iff.1 hx)).trans (hzones x hx).symm
    · rw [hrest y hy, hrest' y fun hy' => hy (hzp.mem_iff.2 hy')]
      exact h.part_eq y

/-- A round that gives nothing. -/
lemma forM_run {m : β → Analysis Unit} : ∀ (l : List β) (c : Context),
    (l.forM m).run c = ((), ((l.mapM m).run c).2)
  | [], c => rfl
  | x :: l, c => by
    rw [List.mapM_cons]
    exact forM_run l ((m x).run c).2

/-- The rounds over a list may come in any order if each acts on a zone of its own. -/
lemma round_forM {z : β → Zone} {m : β → Analysis Unit} {l l' : List β} (hp : l.Perm l')
    (hz : (l.map z).Nodup)
    (hm : ∀ x ∈ l, Steps (Meets R (fun _ _ => True) (z x)) (ActsOn R (z x)) (m x) fun _ => True)
    (h : Agree R c c') : InTurn R c (l.forM m) c' (l'.forM m) fun _ _ => True := by
  refine ⟨trivial, ?_⟩
  rw [forM_run, forM_run]
  exact (round_perm hp hz hm h).2

/-- The functions of all classes are declared in a round. -/
lemma declareAllFuncs_eq : ∀ cs : List (ClassRef × ClassSyntax), declareAllFuncs cs =
    (cs.mapM fun x => declareFuncs x.1 x.2.members) >>= fun fs => Pure.pure fs.flatten
  | [] => rfl
  | (r, k) :: cs => by
    rw [declareAllFuncs, declareAllFuncs_eq cs]
    simp

/-! ## Names of classes -/

/-- A class without its members. -/
def emptyClass (k : ClassSyntax) : Class := ⟨classRef k, k.pos, []⟩

/-- Classes with names of their own are all added. -/
lemma declareClasses_run : ∀ (cs done : List ClassSyntax) (c : Context),
    c.program.classes = done.map emptyClass → ((done ++ cs).map ClassSyntax.name).Nodup →
    (declareClasses cs).run c = (cs.map fun k => (classRef k, k),
      { c with program := { c.program with classes := (done ++ cs).map emptyClass } })
  | [], done, c, hc, _ => by
    rw [List.append_nil, ← hc]
    rfl
  | k :: cs, done, c, hc, hn => by
    have hfresh : c.program.class? k.name = none := by
      refine List.find?_eq_none.2 fun d hd hname => ?_
      obtain ⟨k', hk', rfl⟩ := List.mem_map.1 (hc ▸ hd)
      rw [List.map_append, List.map_cons] at hn
      exact (List.nodup_append.1 hn).2.2 _ (List.mem_map_of_mem hk') _ List.mem_cons_self
        (beq_iff_eq.1 hname)
    have hadd : c.program.addClass (emptyClass k) =
        .ok { c.program with classes := c.program.classes ++ [emptyClass k] } := by
      rw [Program.addClass, show c.program.class? (emptyClass k).name = none from hfresh]
    let d : Context :=
      { c with program := { c.program with classes := c.program.classes ++ [emptyClass k] } }
    have hrest := declareClasses_run cs (done ++ [k]) d (by simp [d, hc]) (by simpa using hn)
    simp only [declareClasses, StateT.run_bind, StateT.run_get, pure_bind,
      show c.program.addClass ⟨classRef k, k.pos, []⟩ = _ from hadd]
    show (_ :: ((declareClasses cs).run d).1, ((declareClasses cs).run d).2) = _
    rw [hrest]
    simp [d]

/-! ## Declarations -/

variable {t t' : ProgramSyntax}

/-- The names of the classes of a program that is written. -/
lemma emptyClass_names (h : t.Reordered t') {cs : List ClassSyntax} (hp : t.classes.Perm cs)
    (fs : List Foreign) : Program.Names (t.classes.map classRef) ⟨cs.map emptyClass, fs⟩ where
  refs_perm := by
    rw [List.map_map]
    exact (hp.map classRef).symm
  ids_nodup := by
    have hids := h.classes_nodup.map nameNumber_injective
    rw [List.map_map] at hids ⊢
    exact hids
  names_nodup := by
    rw [List.map_map]
    exact h.classes_nodup

/-- The names of the classes are declared in any order. -/
lemma declareClasses_perm (h : t.Reordered t') (ds ds' : Diagnostics) :
    InTurn (t.classes.map classRef) { diagnostics := ds } (declareClasses t.classes)
      { diagnostics := ds' } (declareClasses t'.classes) fun q q' =>
        q = t.classes.map (fun k => (classRef k, k)) ∧
          q' = t'.classes.map fun k => (classRef k, k) := by
  have hnames := emptyClass_names h (.refl t.classes) []
  have hnames' := emptyClass_names h h.classes_perm []
  unfold InTurn
  rw [declareClasses_run t.classes [] _ rfl h.classes_nodup,
    declareClasses_run t'.classes [] _ rfl ((h.classes_perm.map _).nodup h.classes_nodup)]
  refine ⟨⟨rfl, rfl⟩, ⟨hnames, hnames', fun z => ?_⟩, [], [], .nil, ds.append_nil.symm,
    ds'.append_nil.symm⟩
  cases z with
  | foreign => rfl
  | cls id =>
    refine congrArg Sum.inl (find?_eq_of_perm (h.classes_perm.map emptyClass)
      fun k hk d hd hid hid' => ?_)
    have hmap : ((t.classes.map emptyClass).map fun k => k.ref.id).Nodup := by
      have := hnames.ids_nodup
      rw [List.map_map] at this ⊢
      exact this
    exact List.inj_on_of_nodup_map hmap hk hd ((beq_iff_eq.1 hid).trans (beq_iff_eq.1 hid').symm)

/-- **Declarations in any order.** The functions that are declared, what is found on the way and
what is known in the end do not depend on the order. -/
theorem declarations_perm (h : t.Reordered t') (ds ds' : Diagnostics) :
    InTurn (t.classes.map classRef) { diagnostics := ds } (declarations t)
      { diagnostics := ds' } (declarations t') List.Perm := by
  set cs := t.classes.map fun k => (classRef k, k)
  set cs' := t'.classes.map fun k => (classRef k, k)
  have hp : cs.Perm cs' := h.classes_perm.map _
  have hmem : ∀ x ∈ cs, x.1 ∈ t.classes.map classRef := fun x hx => by
    obtain ⟨k, hk, rfl⟩ := List.mem_map.1 hx
    exact List.mem_map_of_mem hk
  have hz : (cs.map fun x => Zone.cls x.1.id).Nodup := by
    have hids := (emptyClass_names h (.refl t.classes) []).ids_nodup.map
      (f := Zone.cls) fun _ _ => Zone.cls.inj
    simp only [cs, List.map_map] at hids ⊢
    exact hids
  have hzf : (t.foreigns.map fun d => Zone.foreign d.name).Nodup := by
    have hnames := h.foreigns_nodup.map (f := Zone.foreign) fun _ _ => Zone.foreign.inj
    rwa [List.map_map] at hnames
  refine (declareClasses_perm h ds ds').bind ?_
  rintro _ _ c c' ⟨rfl, rfl⟩ hc
  refine (round_forM hp hz (fun x hx => ?_) hc).bind fun _ _ c c' _ hc => ?_
  · exact declareVars_acts (hmem x hx) x.2
  refine (round_forM h.foreigns_perm hzf (fun d _ => declareForeign_acts d) hc).bind
    fun _ _ c c' _ hc => ?_
  have hfuncs : InTurn (t.classes.map classRef) c (declareAllFuncs cs) c' (declareAllFuncs cs')
      List.Perm := by
    rw [declareAllFuncs_eq, declareAllFuncs_eq]
    exact (round_perm hp hz (fun x hx => declareFuncs_acts (hmem x hx) x.2.members) hc).bind
      fun _ _ _ _ hfs hd => .pure hd hfs.flatten
  refine hfuncs.bind fun qs qs' c c' hqs hc => ?_
  refine (round_forM hp hz (fun x hx => ?_) hc).bind fun _ _ c c' _ hc => .pure hc hqs
  exact declareGenerated_acts (hmem x hx) x.2.pos

/-! ## Bodies -/

/-- The body of a function is the same wherever the same is known. -/
lemma functionBody_agree {ds ds' : Diagnostics} (q : Pending) (h : Agree R c c') (hc : c.Idle ds)
    (hc' : c'.Idle ds') :
    ((functionBody q).run c').1 = ((functionBody q).run c).1 ∧
      Context.SameFound c ((functionBody q).run c).2 c' ((functionBody q).run c').2 := by
  have hin : (q.inside c).Alike (q.inside c') := by
    refine ⟨h.class?_eq, h.classOf_eq, h.foreign?_eq, ?_, rfl, ?_, rfl, rfl⟩
    all_goals simp [Pending.inside, Context.enterFunction, Context.enterClass, hc.scopes_eq,
      hc'.scopes_eq]
  obtain ⟨hvalue, hd, l, hl, hl'⟩ := (statements_steps q.body).alike hin
  obtain ⟨found, hds, herr⟩ := ((statements_steps q.body).run (q.inside c)).1.reports
  obtain ⟨found', hds', herr'⟩ := ((statements_steps q.body).run (q.inside c')).1.reports
  obtain rfl : found = l := Diagnostics.append_right_inj.1 (hds.symm.trans hl)
  obtain rfl : found' = found := Diagnostics.append_right_inj.1 (hds'.symm.trans hl')
  have hclean : (((statements q.body).run (q.inside c')).2.errors == c'.errors) =
      (((statements q.body).run (q.inside c)).2.errors == c.errors) := by
    rw [herr, herr', show (q.inside c).errors = c.errors from rfl,
      show (q.inside c').errors = c'.errors from rfl]
    simp
  rw [functionBody_run, functionBody_run]
  refine ⟨?_, found', hds, hds'⟩
  rw [hvalue, hd.scopes_eq, hclean]

/-- Bodies one after the other: each is the one that is made in the context `c₀`. -/
lemma bodies_run {ds ds' : Diagnostics} {c₀ : Context} (h₀ : c₀.Idle ds) :
    ∀ (qs : List Pending) (c : Context), Agree R c₀ c → c.Idle ds' →
    Ends c (qs.mapM functionBody) fun bs d => bs = qs.map (fun q => ((functionBody q).run c₀).1) ∧
      d.diagnostics = c.diagnostics.append (qs.flatMap fun q => found (functionBody q) c₀)
  | [], c, _, _ => Ends.pure ⟨rfl, c.diagnostics.append_nil.symm⟩
  | q :: qs, c, h, hc => by
    obtain ⟨hvalue, hfound⟩ := functionBody_agree q h h₀ hc
    obtain ⟨hwalks, -⟩ := functionBody_ends q c
    rw [List.mapM_cons]
    refine Ends.bind (Q := fun v d => v = ((functionBody q).run c).1 ∧
      d = ((functionBody q).run c).2) ⟨rfl, rfl⟩ ?_
    rintro _ d ⟨rfl, rfl⟩
    have hagree : Agree R c₀ ((functionBody q).run c).2 := by
      unfold Context.Agree
      rw [hwalks.program_eq]
      exact h
    refine Ends.bind (bodies_run h₀ qs _ hagree (hc.walks hwalks)) ?_
    rintro _ e ⟨rfl, hds⟩
    refine Ends.pure ⟨by rw [hvalue]; rfl, ?_⟩
    rw [hds, found_of_sameFound hfound, Diagnostics.append_append, List.flatMap_cons]

/-- **Bodies in any order.** -/
theorem bodies_perm {ds ds' : Diagnostics} {qs qs' : List Pending} (hp : qs.Perm qs')
    (h : Agree R c c') (hc : c.Idle ds) (hc' : c'.Idle ds') :
    InTurn R c (qs.mapM functionBody) c' (qs'.mapM functionBody) List.Perm := by
  obtain ⟨hvalues, hds⟩ := bodies_run hc qs c ⟨h.names, h.names, fun _ => rfl⟩ hc
  obtain ⟨hvalues', hds'⟩ := bodies_run hc qs' c' h hc'
  refine ⟨?_, ?_, _, _, hp.flatMap_right _, hds, hds'⟩
  · rw [hvalues, hvalues']
    exact hp.map _
  · unfold Context.Agree
    rw [(bodies_ends qs c).1.program_eq, (bodies_ends qs' c').1.program_eq]
    exact h

/-! ## Programs -/

/-- An analysis of a program: declarations, and then the bodies. -/
lemma program_run (t : ProgramSyntax) (ds : Diagnostics) :
    ∃ qs c bs d, (declarations t).run { diagnostics := ds } = (qs, c) ∧
      (qs.mapM functionBody).run c = (bs, d) ∧
      c.Registers ds (c.program.classes.map Class.ref) (qs.map Pending.fn) ∧ d.Idle ds ∧
      (program t).run { diagnostics := ds } = (⟨d.program, bs, d.isOk⟩, d) := by
  obtain ⟨hc, -⟩ := declarations_ends t ds
  cases hq : (declarations t).run { diagnostics := ds } with
  | mk qs c =>
    rw [hq] at hc
    obtain ⟨hd, -⟩ := bodies_ends qs c
    cases hb : (qs.mapM functionBody).run c with
    | mk bs d =>
      rw [hb] at hd
      have hd := hc.idle.walks hd
      have hbalance : (checkBalance.run d).2 = d := checkBalance_ends hd.scopes_eq
      refine ⟨qs, c, bs, d, rfl, hb, hc, hd, ?_⟩
      rw [program_eq, StateT.run_bind, hq]
      show StateT.run (qs.mapM functionBody >>= fun bodies => checkBalance >>= fun _ =>
        get >>= fun ctx => Pure.pure (⟨ctx.program, bodies, ctx.isOk⟩ : Elaborated)) c = _
      rw [StateT.run_bind, hb]
      show ((⟨(checkBalance.run d).2.program, bs, (checkBalance.run d).2.isOk⟩ : Elaborated),
        (checkBalance.run d).2) = _
      rw [hbalance]

end Rounds

end Analysis

namespace Elaborated

open Analysis (classRef declarations functionBody program program_run declarations_perm bodies_perm)

/-- **Elaborations of the same declarations** in different orders. -/
structure Reordered (R : List ClassRef) (e e' : Elaborated) : Prop where
  agree : e.program.Agree R e'.program
  bodies_perm : e.bodies.Perm e'.bodies
  bodies_nodup : (e.bodies.map FuncBody.fn).Nodup
  isOk_eq : e'.isOk = e.isOk

variable {R : List ClassRef} {e e' : Elaborated}

/-- A program is a reordering of each that is a reordering of it. -/
lemma Reordered.symm (h : Reordered R e e') : Reordered R e' e where
  agree := h.agree.symm
  bodies_perm := h.bodies_perm.symm
  bodies_nodup := (h.bodies_perm.map FuncBody.fn).nodup h.bodies_nodup
  isOk_eq := h.isOk_eq.symm

/-- **The order of declarations does not matter to an analysis.** The same is found in both orders,
and the elaborations are those of the same declarations. -/
theorem ofSyntax_perm {t t' : ProgramSyntax} (h : t.Reordered t') (ds ds' : Diagnostics) :
    Reordered (t.classes.map classRef) (ofSyntax t ds).1 (ofSyntax t' ds').1 ∧
      ∃ found found', List.Perm found found' ∧ (ofSyntax t ds).2 = ds.append found ∧
        (ofSyntax t' ds').2 = ds'.append found' := by
  obtain ⟨qs, c, bs, d, hq, hb, hc, hd, hrun⟩ := program_run t ds
  obtain ⟨qs', c', bs', d', hq', hb', hc', hd', hrun'⟩ := program_run t' ds'
  have hqs := declarations_perm h ds ds'
  unfold Analysis.InTurn at hqs
  rw [hq, hq'] at hqs
  have hbs := bodies_perm hqs.1 hqs.2.agree hc.idle hc'.idle
  unfold Analysis.InTurn at hbs
  rw [hb, hb'] at hbs
  have hturn := hqs.2.trans hbs.2
  obtain ⟨found, found', hp, hds, hds'⟩ := hturn.found
  have he : ofSyntax t ds = (⟨d.program, bs, d.isOk⟩, d.diagnostics) := by
    rw [ofSyntax]
    exact congrArg (fun q => (q.1, q.2.diagnostics)) hrun
  have he' : ofSyntax t' ds' = (⟨d'.program, bs', d'.isOk⟩, d'.diagnostics) := by
    rw [ofSyntax]
    exact congrArg (fun q => (q.1, q.2.diagnostics)) hrun'
  rw [he, he']
  have hfns : bs.map FuncBody.fn = qs.map Analysis.Pending.fn := by
    have := (Analysis.bodies_ends qs c).2
    rwa [hb] at this
  refine ⟨⟨hturn.agree, hbs.1, hfns ▸ hc.written_nodup, ?_⟩, found, found', hp, hds, hds'⟩
  obtain ⟨l, hl, herr⟩ := hd.found
  obtain ⟨l', hl', herr'⟩ := hd'.found
  obtain rfl : l = found := Diagnostics.append_right_inj.1 (hl.symm.trans hds)
  obtain rfl : l' = found' := Diagnostics.append_right_inj.1 (hl'.symm.trans hds')
  show (d'.errors == 0) = (d.errors == 0)
  rw [herr, herr', hp.countP_eq]

end Elaborated

end Lane
