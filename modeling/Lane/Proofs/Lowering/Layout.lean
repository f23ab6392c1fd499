import Lane.Lowering.Layout
import Lane.Proofs.Typing.Valid

set_option relaxedAutoImplicit false
set_option autoImplicit false

/-!
# Layouts fit their classes

Every class is looked at when the classes of a program are laid out, and a class that has a struct
finds each of its member variables there, in the form that the type of the variable asks for.

## Main definitions

* `Lane.Code.StructMember.Holds`: members that hold values of a type.
* `Lane.Code.Struct.Fits`: structs that hold the member variables of a class.
* `Lane.Lowering.Layouts.Complete`: every class has a struct that fits.

## Main results

* `Lane.Lowering.layoutAll_complete`: the layouts are complete unless a class has none.
-/

namespace Lane

namespace Code

/-- What a member that holds values of a type looks like. -/
def StructMember.Holds (m : StructMember) : Ty → Prop
  | .cls _ _ => ∃ name size align llvm, m.shape = .nested name size align llvm
  | .container _ _ _ => m.shape = .header
  | .error _ => False
  | .scalar m' k => m.shape = .value (Ty.scalar m' k).code
  | .ptr m' t => m.shape = .value (Ty.ptr m' t).code

/-- A member that holds an atomic value is a machine value of its type. -/
lemma StructMember.Holds.type?_eq {m : StructMember} {t : Ty} (h : m.Holds t)
    (ht : t.isAtomic) : m.type? = some t.code := by
  unfold type?
  cases t with
  | scalar | ptr => rw [show m.shape = _ from h]
  | _ => cases ht

/-- An entry is found by a key that no other entry has. -/
lemma find?_eq_of_nodup {α : Type} {key : α → String} {as : List α} {a : α}
    (h : (as.map key).Nodup) (ha : a ∈ as) : (as.find? fun b => key b == key a) = some a := by
  have hsome : (as.find? fun b => key b == key a).isSome := by
    rw [List.find?_isSome]
    exact ⟨a, ha, by simp⟩
  obtain ⟨b, hb⟩ := Option.isSome_iff_exists.1 hsome
  have hkey : key b = key a := by simpa using List.find?_some hb
  rw [hb, List.inj_on_of_nodup_map h (List.mem_of_find?_eq_some hb) ha hkey]

/-- What is related to a list has an entry for each of its entries. -/
lemma exists_of_forall₂ {α β : Type} {r : α → β → Prop} {as : List α} {bs : List β} {a : α}
    (h : List.Forall₂ r as bs) (ha : a ∈ as) : ∃ b ∈ bs, r a b := by
  induction h with
  | nil => cases ha
  | cons hr _ ih =>
    obtain rfl | ha := List.mem_cons.1 ha
    · exact ⟨_, List.mem_cons_self, hr⟩
    · obtain ⟨b, hb, hr⟩ := ih ha
      exact ⟨b, List.mem_cons_of_mem _ hb, hr⟩

/-- A member of the struct `owner` for a member variable. -/
structure StructMember.Places (owner : String) (v : MemberVar) (m : StructMember) : Prop where
  owner_eq : m.owner = some owner
  name_eq : m.name = v.name
  holds : m.Holds v.type

/-- **Structs of classes**: one member for each member variable in order. -/
structure Struct.Fits (s : Struct) (c : Class) : Prop where
  name_eq : s.name = c.name
  places : List.Forall₂ (StructMember.Places c.name) c.vars s.members

/-- What was placed for member variables with different names is found by their names. -/
lemma Struct.member?_of_forall₂ {s : Struct} {vs : List MemberVar}
    {r : MemberVar → StructMember → Prop} (h : List.Forall₂ r vs s.members)
    (hr : ∀ v m, r v m → m.name = v.name) (hn : (vs.map MemberVar.name).Nodup) {v : MemberVar}
    (hv : v ∈ vs) : ∃ m ∈ s.members, s.member? v.name = some m ∧ r v m := by
  have hnames : (s.members.map StructMember.name).Nodup := by
    have : List.Forall₂ (· = ·) (vs.map MemberVar.name) (s.members.map StructMember.name) :=
      List.forall₂_map_left_iff.2 (List.forall₂_map_right_iff.2
        (h.imp fun v m hvm => (hr v m hvm).symm))
    rw [List.forall₂_eq_eq_eq] at this
    exact this ▸ hn
  obtain ⟨m, hm, hp⟩ := exists_of_forall₂ h hv
  refine ⟨m, hm, ?_, hp⟩
  unfold Struct.member?
  rw [← hr v m hp]
  exact find?_eq_of_nodup (by rwa [List.map_reverse, List.nodup_reverse]) (List.mem_reverse.2 hm)

/-- Every member variable is found by its name. -/
lemma Struct.Fits.member?_eq_some {s : Struct} {c : Class} (hs : s.Fits c)
    (hn : (c.vars.map MemberVar.name).Nodup) {v : MemberVar} (hv : v ∈ c.vars) :
    ∃ m ∈ s.members, s.member? v.name = some m ∧ StructMember.Places c.name v m :=
  Struct.member?_of_forall₂ hs.places (fun _ _ h => h.name_eq) hn hv

end Code

namespace Lowering

open Code (Struct StructMember MemberShape)

variable {p : Program}

/-! ## Layouts -/

/-- **Fitting layouts**: the structs so far fit their classes. -/
def Layouts.Fit (p : Program) (l : Layouts) : Prop :=
  ∀ d ∈ p.classes, ∀ s, l.struct? d.ref = some s → s.Fits d

/-- **Complete layouts**: every class has a struct that fits. -/
def Layouts.Complete (p : Program) (l : Layouts) : Prop :=
  ∀ d ∈ p.classes, ∃ s, l.struct? d.ref = some s ∧ s.Fits d

/-- What a struct looks like after member variables were placed in it. -/
def Placed (s : Struct) (vs : List MemberVar) (t : Struct) : Prop :=
  t.name = s.name ∧ ∃ ms, t.members = s.members ++ ms ∧
    List.Forall₂ (StructMember.Places s.name) vs ms

/-- Member variables are placed after the members that are there.

**Proof sketch.** By induction on the variables. Every variable appends one member that holds its
values, or leaves the class without a struct. -/
lemma placeVars_placed {I : Layouts → Prop}
    {nested : ClassRef → Layouts → Option Struct × Layouts}
    (hn : ∀ c l, I l → I (nested c l).2) (vs : List MemberVar) :
    ∀ (s : Struct) (ok : Bool) (l : Layouts), I l →
      I (placeVars nested vs s ok l).2 ∧
        ∀ t, (placeVars nested vs s ok l).1 = some t → ok = true ∧ Placed s vs t := by
  induction vs with
  | nil =>
    intro s ok l hl
    refine ⟨hl, fun t ht => ?_⟩
    simp only [placeVars] at ht
    split at ht
    · obtain rfl := Option.some.inj ht
      exact ⟨‹_›, rfl, [], by simp [Struct.finish], .nil⟩
    · cases ht
  | cons v vs ih =>
    intro s ok l hl
    have placed : ∀ (shape : MemberShape) (l : Layouts), I l →
        (∀ m : StructMember, m.shape = shape → m.Holds v.type) →
        I (placeVars nested vs (s.append v.name shape) ok l).2 ∧
          ∀ t, (placeVars nested vs (s.append v.name shape) ok l).1 = some t →
            ok = true ∧ Placed s (v :: vs) t := by
      intro shape l hl hm
      refine (ih (s.append v.name shape) ok l hl).imp_right fun ht t h => ?_
      obtain ⟨hok, hname, ms, hms, hp⟩ := ht t h
      let m : StructMember := ⟨some s.name, v.name, Code.alignUp s.size shape.align, shape⟩
      exact ⟨hok, hname, m :: ms, by rw [hms]; simp [Struct.append, m],
        .cons ⟨rfl, rfl, hm m rfl⟩ hp⟩
    have failed : ∀ l : Layouts, I l → I (placeVars nested vs s false l).2 ∧
        ∀ t, (placeVars nested vs s false l).1 = some t → ok = true ∧ Placed s (v :: vs) t :=
      fun l hl => (ih s false l hl).imp_right fun ht t h => nomatch (ht t h).1
    unfold placeVars
    split
    · rename_i c hv
      have hc := hn c l hl
      split
      · rename_i t l' hnested
        exact placed _ _ (by rwa [hnested] at hc) fun m hm => hv ▸ ⟨_, _, _, _, hm⟩
      · rename_i l' hnested
        exact failed _ (by rwa [hnested] at hc)
    · rename_i hv
      exact placed _ _ hl fun m hm => hv ▸ hm
    · exact failed _ hl
    · rename_i hcls hcon herr
      refine placed _ _ hl fun m hm => ?_
      cases hv : v.type with
      | scalar | ptr => rwa [hv] at hm
      | cls => exact (hcls _ _ hv).elim
      | container => exact (hcon _ _ _ hv).elim
      | error => exact (herr _ hv).elim

/-- A class that is laid out fits its struct. -/
lemma Layouts.Fit.record {l : Layouts} (hl : l.Fit p) (hp : p.WellFormed) {c : ClassRef}
    {s : Option Struct} (hs : ∀ t, s = some t → t.Fits (p.classOf c)) : (l.record c s).Fit p := by
  intro d hd t ht
  simp only [struct?, find?, Layouts.record, List.lookup_append] at ht
  cases hfind : l.classes.lookup d.ref.id with
  | some x => exact hl d hd t (by simpa [struct?, find?, hfind] using ht)
  | none =>
    simp only [hfind, Option.none_or, List.lookup_cons] at ht
    split at ht
    · rename_i hid
      exact hp.classOf_eq_of_id hd (by simpa using (beq_iff_eq.1 hid).symm) ▸ hs t ht
    · cases ht

/-- Laying out a class keeps the structs of other classes, and gives a struct that fits. -/
lemma layoutIn_fit (hp : p.WellFormed) : ∀ (fuel : Nat) (building : List Class) (c : ClassRef)
    (l : Layouts), l.Fit p → (layoutIn p fuel building c l).2.Fit p
  | 0, _, _, _, hl => hl
  | fuel + 1, building, c, l, hl => by
    unfold layoutIn
    split
    · exact hl
    · simp only
      split
      · obtain ⟨hfit, hs⟩ := placeVars_placed (I := Layouts.Fit p)
          (layoutIn_fit hp fuel (building ++ [p.classOf c])) (p.classOf c).vars
          (.empty (p.classOf c).name) true l hl
        refine hfit.record hp fun t ht => ?_
        obtain ⟨-, hname, ms, hms, hplaces⟩ := hs t ht
        exact ⟨hname, by simpa [hms, Struct.empty] using hplaces⟩
      · intro d hd s hs
        exact hl d hd s hs

/-- The layouts of a program fit its classes. -/
lemma layoutAll_fit (hp : p.WellFormed) (ds : Diagnostics) : (layoutAll p ds).Fit p := by
  have fold : ∀ (cs : List Class) (l : Layouts), l.Fit p →
      (cs.foldl (fun l c => (layout p c.ref l).2) l).Fit p := by
    intro cs
    induction cs with
    | nil => exact fun _ hl => hl
    | cons c cs ih => exact fun l hl => ih _ (layoutIn_fit hp _ _ _ _ hl)
  exact fold _ _ fun d _ s hs => by simp [Layouts.struct?, Layouts.find?] at hs

/-- What is known about a class does not change. -/
lemma Layouts.find?_record {l : Layouts} {c r : ClassRef} {s x : Option Struct}
    (h : l.find? r = some x) : (l.record c s).find? r = some x := by
  unfold find? at h ⊢
  simp [Layouts.record, List.lookup_append, h]

/-- Layouts that were found stay found. -/
lemma find?_layoutIn {r : ClassRef} {x : Option Struct} : ∀ (fuel : Nat) (building : List Class)
    (c : ClassRef) (l : Layouts), l.find? r = some x →
    (layoutIn p fuel building c l).2.find? r = some x
  | 0, _, _, _, h => h
  | fuel + 1, building, c, l, h => by
    unfold layoutIn
    split
    · exact h
    · simp only
      split
      · exact Layouts.find?_record ((placeVars_placed (I := fun l => l.find? r = some x)
          (find?_layoutIn fuel _) _ _ true l h).1)
      · exact h

/-- A class that is laid out is known in the end. -/
lemma find?_layout (c : ClassRef) (l : Layouts) : ∃ x, (layout p c l).2.find? c = some x := by
  unfold layout layoutIn
  split
  · exact ⟨_, ‹_›⟩
  · rename_i hnone
    simp only [List.dropWhile_nil, List.isEmpty_nil, if_true]
    generalize placeVars _ _ _ _ l = q
    obtain ⟨s, l'⟩ := q
    simp only [Layouts.find?, Layouts.record, List.lookup_append]
    cases l'.classes.lookup c.id with
    | some y => exact ⟨y, rfl⟩
    | none => exact ⟨s, by simp⟩

/-- **Complete layouts**: unless a class has no layout, every class has a struct that fits. -/
theorem layoutAll_complete (hp : p.WellFormed) (ds : Diagnostics)
    (h : ((layoutAll p ds).classes.any fun (_, s) => s.isNone) = false) :
    (layoutAll p ds).Complete p := by
  have fold : ∀ (cs : List Class) (l : Layouts) (d : Class),
      (d ∈ cs ∨ ∃ x, l.find? d.ref = some x) →
      ∃ x, (cs.foldl (fun l c => (layout p c.ref l).2) l).find? d.ref = some x := by
    intro cs
    induction cs with
    | nil => simp
    | cons c cs ih =>
      intro l d hd
      refine ih _ d ?_
      obtain hd | ⟨x, hx⟩ := hd
      · obtain rfl | hd := List.mem_cons.1 hd
        · exact .inr (find?_layout d.ref l)
        · exact .inl hd
      · exact .inr ⟨x, find?_layoutIn _ _ _ _ hx⟩
  intro d hd
  obtain ⟨x, hx⟩ := fold p.classes { diagnostics := ds } d (.inl hd)
  have hx : (layoutAll p ds).find? d.ref = some x := hx
  cases x with
  | some s =>
    have hs : (layoutAll p ds).struct? d.ref = some s := by simp [Layouts.struct?, hx]
    exact ⟨s, hs, layoutAll_fit hp ds d hd s hs⟩
  | none =>
    obtain ⟨l₁, l₂, hl, -⟩ := List.lookup_eq_some_iff.1 hx
    rw [hl] at h
    simp at h

end Lowering

end Lane
