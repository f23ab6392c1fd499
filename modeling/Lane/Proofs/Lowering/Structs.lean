import Lane.Proofs.Code.Alignment
import Lane.Proofs.Lowering.Cycles
import Mathlib.Data.List.TakeWhile
import Mathlib.Logic.Relation

set_option relaxedAutoImplicit false
set_option autoImplicit false

/-!
# Structs of classes

A class holds the classes of its member variables by value. Its struct has one member for each
variable, placed one after the other, and the member for a variable of a class has the struct of
that class, which was laid out before. So a class that is laid out holds other classes to a finite
depth.

## Main definitions

* `Lane.Lowering.Nests`, `Lane.Lowering.Includes`: classes that hold others by value.
* `Lane.Lowering.IsGrounded`: classes that hold other classes to a finite depth.
* `Lane.Lowering.Lays`: structs that lay out a class, given those of other classes.
* `Lane.Lowering.Built`: structs under construction.

## Main results

* `Lane.Lowering.layoutIn_induction`: what all steps keep holds after a class was laid out.
* `Lane.Lowering.layoutEach_lay`: the structs of classes lay them out.
* `Lane.Lowering.layoutEach_grounded`: the classes that are laid out are grounded.
-/

namespace Lane.Lowering

open Code (Struct StructMember MemberShape VType Stacked)

variable {p : Program} {c d : ClassRef}

/-! ## Classes that hold others -/

/-- A class holds another by value. -/
def Nests (p : Program) (c d : ClassRef) : Prop :=
  ∃ v ∈ (p.classOf c).vars, ∃ q, v.type = .cls q d

/-- A class is another, or holds it, directly or through others. -/
def Includes (p : Program) : ClassRef → ClassRef → Prop := Relation.ReflTransGen (Nests p)

/-- The classes that a class holds are declared. -/
lemma Nests.valid (hp : p.WellFormed) (h : Nests p c d) : p.Valid (.cls .var d) := by
  obtain ⟨v, hv, q, hvt⟩ := h
  have := (hp.var_of_mem_classOf hv).2
  rwa [hvt] at this

/-- The classes that a declared class includes are declared. -/
lemma Includes.valid (hp : p.WellFormed) (hc : p.Valid (.cls .var c)) (h : Includes p c d) :
    p.Valid (.cls .var d) := by
  obtain rfl | ⟨k, -, hk⟩ := Relation.ReflTransGen.cases_tail_iff .. |>.1 h
  · exact hc
  · exact hk.valid hp

/-- The class that a type names has its number. -/
lemma id_classOf (p : Program) (c : ClassRef) : (p.classOf c).ref.id = c.id := by
  unfold Program.classOf
  cases h : p.classes.find? fun d => d.ref.id == c.id with
  | none => rfl
  | some d => simpa using List.find?_some h

/-- The class that a type names has the variables of every class with its number. -/
lemma vars_classOf_congr (p : Program) (h : c.id = d.id) :
    (p.classOf c).vars = (p.classOf d).vars := by
  unfold Program.classOf
  rw [h]
  cases p.classes.find? fun k => k.ref.id == d.id <;> rfl

/-- The variables of a class have different names. -/
lemma nodup_var_names (hp : p.WellFormed) (c : ClassRef) :
    ((p.classOf c).vars.map MemberVar.name).Nodup := by
  obtain ⟨d, hd, -, he⟩ | ⟨-, hn⟩ := p.classOf_mem_or c
  · exact he ▸ (hp.classes_valid d hd).var_names
  · simp [Class.vars, hn]

/-- **Grounded classes**: the classes that they hold are grounded, so that no class holds itself. -/
def IsGrounded (p : Program) : ClassRef → Prop := Acc fun d c => Nests p c d

/-- A grounded class does not hold itself. -/
lemma IsGrounded.not_holds (h : IsGrounded p c) : ¬Relation.TransGen (Nests p) c c := by
  induction h with
  | intro c _ ih =>
    intro hc
    obtain ⟨d, hcd, hdc⟩ := Relation.TransGen.head'_iff.1 hc
    exact ih d hcd (Relation.TransGen.tail'_iff.2 ⟨c, hdc, hcd⟩)

/-- A grounded class is not included by a class that it holds. -/
lemma IsGrounded.not_includes (h : IsGrounded p c) (hd : Nests p c d) : ¬Includes p d c :=
  fun hdc => h.not_holds (Relation.TransGen.head'_iff.2 ⟨d, hd, hdc⟩)

/-- A grounded class is not one of those that hold it. -/
lemma IsGrounded.notMem_building (hground : IsGrounded p c) (href : (p.classOf c).ref = c)
    {building : List Class} (hchain : ∀ b ∈ building, Relation.TransGen (Nests p) b.ref c) :
    p.classOf c ∉ building := fun hin => by
  have hcycle := hchain _ hin
  rw [href] at hcycle
  exact hground.not_holds hcycle

/-- The classes that hold a class hold what it holds, and so does the class itself. -/
lemma forall_mem_push (href : (p.classOf c).ref = c) {building : List Class} {d : ClassRef}
    (hchain : ∀ b ∈ building, Relation.TransGen (Nests p) b.ref c) (hnests : Nests p c d) :
    ∀ b ∈ building ++ [p.classOf c], Relation.TransGen (Nests p) b.ref d := by
  have hself : Relation.TransGen (Nests p) (p.classOf c).ref d := by
    rw [href]
    exact .single hnests
  exact List.forall_mem_append.2 ⟨fun b hb => (hchain b hb).tail hnests,
    List.forall_mem_singleton.2 hself⟩

/-! ## Structs that lay out classes -/

/-- The member for a member variable: a value of the form that `F` says, or the struct of a
class. -/
structure HoldsVar (S : ClassRef → Option Struct) (F : Ty → MemberShape) (v : MemberVar)
    (m : StructMember) : Prop where
  name_eq : m.name = v.name
  leaf : v.type.isClass = false → m.shape = F v.type
  nested : ∀ q d, v.type = .cls q d → ∃ t, S d = some t ∧ m.shape = t.asMember

/-- **Structs that lay out a class**, given those of other classes. -/
structure Lays (p : Program) (S : ClassRef → Option Struct) (F : Ty → MemberShape)
    (c : ClassRef) (s : Struct) : Prop where
  members : List.Forall₂ (HoldsVar S F) (p.classOf c).vars s.members
  isStacked : s.IsStacked

/-- **Structs under construction**: the members for some variables were placed one after the
other. -/
structure Built (r : MemberVar → StructMember → Prop) (vs : List MemberVar) (s : Struct) :
    Prop where
  members : List.Forall₂ r vs s.members
  stacked : Stacked 0 s.members s.size
  align_eq : s.align = s.shapes.foldl (fun a x => max a x.align) 1

section Built

variable {r r' : MemberVar → StructMember → Prop} {vs : List MemberVar} {s : Struct}
  {S S' : ClassRef → Option Struct} {F : Ty → MemberShape} {v : MemberVar} {m : StructMember}

/-- More structs may be known. -/
lemma HoldsVar.mono (h : HoldsVar S F v m) (hS : ∀ d t, S d = some t → S' d = some t) :
    HoldsVar S' F v m where
  name_eq := h.name_eq
  leaf := h.leaf
  nested q d hv := by
    obtain ⟨t, ht, hm⟩ := h.nested q d hv
    exact ⟨t, hS d t ht, hm⟩

/-- A variable of a class is held by a member with the struct of that class. -/
lemma HoldsVar.of_cls {q : Modifier} {d : ClassRef} {t : Struct} (hv : v.type = .cls q d)
    (ht : S d = some t) (hname : m.name = v.name) (hshape : m.shape = t.asMember) :
    HoldsVar S F v m where
  name_eq := hname
  leaf hleaf := by
    rw [hv] at hleaf
    cases hleaf
  nested q' d' hd := by
    obtain ⟨-, rfl⟩ := Ty.cls.inj (hv.symm.trans hd)
    exact ⟨t, ht, hshape⟩

/-- Any other variable is held by a member with the shape for its type. -/
lemma HoldsVar.of_leaf (hv : ∀ q d, v.type ≠ .cls q d) (hname : m.name = v.name)
    (hshape : m.shape = F v.type) : HoldsVar S F v m where
  name_eq := hname
  leaf _ := hshape
  nested q d hd := (hv q d hd).elim

/-- More structs may be known to a layout. -/
lemma Lays.mono (h : Lays p S F c s) (hS : ∀ d t, S d = some t → S' d = some t) :
    Lays p S' F c s :=
  ⟨h.members.imp fun _ _ hm => hm.mono hS, h.isStacked⟩

/-- A weaker relation between members and their place. -/
lemma Built.imp (h : Built r vs s) (hr : ∀ v m, r v m → r' v m) : Built r' vs s :=
  ⟨h.members.imp hr, h.stacked, h.align_eq⟩

/-- Nothing was placed yet. -/
lemma Built.nil (hm : s.members = []) (hs : s.size = 0) (ha : s.align = 1) : Built r [] s := by
  refine ⟨hm ▸ .nil, ?_, ?_⟩
  · rw [hm, hs]
    rfl
  · rw [Struct.shapes, hm, ha]
    rfl

/-- The next member is placed. -/
lemma Built.append (h : Built r vs s) {shape : MemberShape}
    (hv : r v ⟨some s.name, v.name, Code.alignUp s.size shape.align, shape⟩) :
    Built r (vs ++ [v]) (s.append v.name shape) where
  members := List.rel_append h.members (.cons hv .nil)
  stacked := h.stacked.append
    (m := ⟨some s.name, v.name, Code.alignUp s.size shape.align, shape⟩) rfl
  align_eq := by simp [Struct.append, Struct.shapes, h.align_eq]

/-- A struct that was constructed lays out a class. -/
lemma Built.lays (h : Built r (p.classOf c).vars s) (hr : ∀ v m, r v m → HoldsVar S F v m) :
    Lays p S F c s.finish :=
  ⟨h.members.imp hr, ⟨⟨s.size, h.stacked, rfl⟩, h.align_eq⟩⟩

/-- The member for a variable is found by its name. -/
lemma Lays.member? (h : Lays p S F c s) (hp : p.WellFormed) (hv : v ∈ (p.classOf c).vars) :
    ∃ m ∈ s.members, s.member? v.name = some m ∧ HoldsVar S F v m :=
  Struct.member?_of_forall₂ h.members (fun _ _ h => h.name_eq) (nodup_var_names hp c) hv

end Built

/-! ## Layouts -/

/-- The member for what is no class. -/
def instanceShape : Ty → MemberShape
  | .container _ _ _ => .header
  | t => .value t.code

section Layouts

variable {l l' : Layouts} {s t : Struct}

/-- What a struct looks like after member variables were placed in it.

**Proof sketch.** By induction on the variables. Every variable appends one member, or leaves the
class without a struct; the classes among them keep the structs that they have. -/
lemma placeVars_built {nested : ClassRef → Layouts → Option Struct × Layouts}
    (hmono : ∀ c l d t, l.struct? d = some t → (nested c l).2.struct? d = some t)
    (hself : ∀ c l t, (nested c l).1 = some t → (nested c l).2.struct? c = some t) :
    ∀ (vs vs₀ : List MemberVar) (s : Struct) (ok : Bool) (l : Layouts),
      (ok = true → Built (HoldsVar l.struct? instanceShape) vs₀ s) →
      ∀ t, (placeVars nested vs s ok l).1 = some t → ∃ t₀, t = t₀.finish ∧
        Built (HoldsVar (placeVars nested vs s ok l).2.struct? instanceShape) (vs₀ ++ vs) t₀ := by
  intro vs
  induction vs with
  | nil =>
    intro vs₀ s ok l h t ht
    simp only [placeVars] at ht
    split at ht
    · obtain rfl := Option.some.inj ht
      exact ⟨s, rfl, by simpa [placeVars] using h ‹_›⟩
    · cases ht
  | cons v vs ih =>
    intro vs₀ s ok l h t
    -- A member is appended where the shape of the variable is known.
    have placed : ∀ (shape : MemberShape) (l' : Layouts),
        (∀ d t, l.struct? d = some t → l'.struct? d = some t) →
        (∀ m : StructMember, m.name = v.name → m.shape = shape →
          HoldsVar l'.struct? instanceShape v m) →
        (placeVars nested vs (s.append v.name shape) ok l').1 = some t → ∃ t₀, t = t₀.finish ∧
          Built (HoldsVar (placeVars nested vs (s.append v.name shape) ok l').2.struct?
            instanceShape) (vs₀ ++ v :: vs) t₀ := by
      intro shape l' hl hv ht
      have hbuilt := ih (vs₀ ++ [v]) (s.append v.name shape) ok l'
        (fun hok => ((h hok).imp fun _ _ hm => hm.mono hl).append (hv _ rfl rfl)) t ht
      simpa using hbuilt
    -- Otherwise the class is left without a struct, whatever comes later.
    have failed : ∀ l' : Layouts, (placeVars nested vs s false l').1 = some t →
        ∃ t₀, t = t₀.finish ∧
          Built (HoldsVar (placeVars nested vs s false l').2.struct? instanceShape)
            (vs₀ ++ v :: vs) t₀ := by
      intro l' ht
      have hbuilt := ih (vs₀ ++ [v]) s false l' (by simp) t ht
      simpa using hbuilt
    unfold placeVars
    split
    · rename_i q d hv
      have hkeep := hmono d l
      have hstruct := hself d l
      split
      · rename_i t' l' hnested
        rw [hnested] at hkeep hstruct
        exact placed _ l' hkeep fun m => .of_cls hv (hstruct t' rfl)
      · rename_i l' hnested
        exact failed l'
    · rename_i hv
      exact placed _ l (fun _ _ h => h) fun m hname hshape =>
        .of_leaf (by simp [hv]) hname (by rw [hshape, hv]; rfl)
    · exact failed l
    · rename_i hcls hcon herr
      refine placed _ l (fun _ _ h => h) fun m hname hshape =>
        .of_leaf (fun q d hd => hcls q d hd) hname ?_
      rw [hshape]
      unfold instanceShape
      split
      · exact (hcon _ _ _ ‹_›).elim
      · rfl

/-- The struct of a class is on record. -/
lemma Layouts.mem_of_struct? {l : Layouts} {s : Struct} (h : l.struct? c = some s) :
    (c.id, some s) ∈ l.classes := by
  have hfind : l.classes.lookup c.id = some (some s) := Option.join_eq_some_iff.1 h
  obtain ⟨l₁, l₂, hcs, -⟩ := List.lookup_eq_some_iff.1 hfind
  simp [hcs]

/-- The structs of classes stay. -/
lemma struct?_layoutIn {fuel : Nat} {building : List Class} {d : ClassRef}
    (h : l.struct? d = some t) : (layoutIn p fuel building c l).2.struct? d = some t := by
  have hfind : l.find? d = some (some t) := by
    unfold Layouts.struct? at h
    cases hx : l.find? d with
    | none => simp [hx] at h
    | some x => simpa [hx] using h
  simp [Layouts.struct?, find?_layoutIn fuel building c l hfind]

/-- What is recorded is found if nothing was recorded before. -/
lemma find?_record {x : Option Struct} {d : ClassRef} : (l.record c x).find? d =
    (l.find? d).or (if d.id = c.id then some x else none) := by
  unfold Layouts.find?
  simp only [Layouts.record, List.lookup_append, List.lookup_cons, List.lookup_nil]
  split <;> simp_all

/-- A class is not recorded while it is being laid out. -/
lemma find?_layoutIn_of_building (p : Program) {r : ClassRef} : ∀ (fuel : Nat)
    (building : List Class) (c : ClassRef) (l : Layouts), (∃ b ∈ building, b.ref.id = r.id) →
      l.find? r = none → (layoutIn p fuel building c l).2.find? r = none
  | 0, _, _, _, _, h => h
  | fuel + 1, building, c, l, hr, h => by
    obtain ⟨b, hb, hid⟩ := hr
    unfold layoutIn
    split
    · exact h
    · simp only
      split
      · rename_i hchain
        have hinner := (placeVars_placed (I := fun l => l.find? r = none)
          (fun d l => find?_layoutIn_of_building p fuel (building ++ [p.classOf c]) d l
            ⟨b, List.mem_append_left _ hb, hid⟩) (p.classOf c).vars (.empty (p.classOf c).name) true
            l h).1
        -- The class that is recorded is not among those that are being laid out.
        have hne : r.id ≠ c.id := by
          intro he
          have hall := List.dropWhile_eq_nil_iff.1 (List.isEmpty_iff.1 hchain) b hb
          exact absurd hall (by simp [hid, he])
        rw [find?_record, hinner, if_neg hne]
        rfl
      · exact h

/-- A class is not recorded while its variables are placed. -/
lemma find?_placeVars {fuel : Nat} {building : List Class} (h : l.find? c = none) :
    (placeVars (layoutIn p fuel (building ++ [p.classOf c])) (p.classOf c).vars
      (.empty (p.classOf c).name) true l).2.find? c = none :=
  (placeVars_placed (I := fun l => l.find? c = none)
    (fun d l => find?_layoutIn_of_building p fuel (building ++ [p.classOf c]) d l
      ⟨p.classOf c, by simp, id_classOf p c⟩) (p.classOf c).vars (.empty (p.classOf c).name)
    true l h).1

/-- A class that was laid out has the struct that was made for it. -/
lemma struct?_layoutIn_self {fuel : Nat} {building : List Class}
    (h : (layoutIn p fuel building c l).1 = some t) :
    (layoutIn p fuel building c l).2.struct? c = some t := by
  cases fuel with
  | zero => cases h
  | succ fuel =>
    unfold layoutIn at h ⊢
    split
    · rename_i x hx
      rw [hx] at h
      simp only at h
      subst h
      simp [Layouts.struct?, hx]
    · rename_i hnone
      rw [hnone] at h
      simp only at h ⊢
      split
      · rename_i hchain
        rw [if_pos hchain] at h
        simp only at h
        rw [Layouts.struct?, find?_record, find?_placeVars hnone, if_pos rfl, h]
        rfl
      · rename_i hchain
        rw [if_neg hchain] at h
        cases h

/-- The structs of classes stay when a class is recorded. -/
lemma struct?_record {x : Option Struct} {d : ClassRef} (h : l.struct? d = some s) :
    (l.record c x).struct? d = some s := by
  rw [Layouts.struct?, find?_record]
  unfold Layouts.struct? at h
  cases hfind : l.find? d with
  | none => simp [hfind] at h
  | some y => simpa [hfind] using h

/-- A struct was there before a class was recorded, or it is the struct of that class. -/
lemma of_struct?_record {x : Option Struct} {d : ClassRef} (h : (l.record c x).struct? d = some s) :
    l.struct? d = some s ∨ d.id = c.id ∧ x = some s := by
  rw [Layouts.struct?, find?_record] at h
  cases hfind : l.find? d with
  | some y => exact .inl (by simpa [Layouts.struct?, hfind] using h)
  | none =>
    rw [hfind, Option.none_or] at h
    split at h
    · exact .inr ⟨‹_›, h⟩
    · cases h

/-- **What all steps keep** holds after a class was laid out. -/
lemma layoutIn_induction {I : Layouts → Prop}
    (hcycle : ∀ c chain l, I l → I (l.reportCycle c chain))
    (hrecord : ∀ c x l, I l → l.find? c = none → (∀ t, x = some t → ∃ t₀, t = t₀.finish ∧
      Built (HoldsVar l.struct? instanceShape) (p.classOf c).vars t₀) → I (l.record c x)) :
    ∀ (fuel : Nat) (building : List Class) (c : ClassRef) (l : Layouts), I l →
      I (layoutIn p fuel building c l).2
  | 0, _, _, _, h => h
  | fuel + 1, building, c, l, h => by
    unfold layoutIn
    split
    · exact h
    · simp only
      split
      · rename_i hnone hchain
        have hmono : ∀ d l r t, l.struct? r = some t →
            (layoutIn p fuel (building ++ [p.classOf c]) d l).2.struct? r = some t :=
          fun _ _ _ _ => struct?_layoutIn
        have hinner := (placeVars_placed (I := I)
          (layoutIn_induction hcycle hrecord fuel (building ++ [p.classOf c])) (p.classOf c).vars
          (.empty (p.classOf c).name) true l h).1
        have hbuilt := placeVars_built hmono (fun _ _ _ => struct?_layoutIn_self)
          (p.classOf c).vars [] (.empty (p.classOf c).name) true l fun _ => .nil rfl rfl rfl
        exact hrecord c _ _ hinner (find?_placeVars hnone) hbuilt
      · exact hcycle _ _ _ h

/-! ## Layouts of many classes -/

/-- Lay out classes one after the other. -/
def layoutEach (p : Program) (cs : List ClassRef) (l : Layouts) : Layouts :=
  cs.foldl (fun l c => (layout p c l).2) l

/-- The classes of a program are laid out in the order of their declaration. -/
lemma layoutAll_eq (p : Program) (ds : Diagnostics) :
    layoutAll p ds = layoutEach p (p.classes.map Class.ref) { diagnostics := ds } := by
  rw [layoutEach, List.foldl_map]
  rfl

/-- What is kept when a class is laid out is kept when many are. -/
lemma layoutEach_induction {I : Layouts → Prop} : ∀ {cs : List ClassRef} {l : Layouts},
    (∀ c ∈ cs, ∀ l, I l → I (layout p c l).2) → I l → I (layoutEach p cs l)
  | [], _, _, h => h
  | c :: cs, l, hstep, h => by
    obtain ⟨hc, hcs⟩ := List.forall_mem_cons.1 hstep
    show I (layoutEach p cs (layout p c l).2)
    exact layoutEach_induction hcs (hc l h)

/-- **Structs that lay out their classes**. -/
def Layouts.Lay (p : Program) (l : Layouts) : Prop :=
  ∀ d ∈ p.classes, ∀ s, l.struct? d.ref = some s → Lays p l.struct? instanceShape d.ref s

/-- Laying out a class lays out the classes that it holds. -/
lemma layoutIn_lay (hp : p.WellFormed) (fuel : Nat) (building : List Class) (c : ClassRef)
    (l : Layouts) (hl : Layouts.Lay p l) : Layouts.Lay p (layoutIn p fuel building c l).2 := by
  refine layoutIn_induction (fun _ _ _ h => h) (fun c x l hl _ hx d hd s hs => ?_) fuel building c l
    hl
  obtain hs | ⟨hid, rfl⟩ := of_struct?_record hs
  · exact (hl d hd s hs).mono fun _ _ => struct?_record
  · obtain ⟨t₀, rfl, hb⟩ := hx s rfl
    rw [hp.classOf_eq_of_id hd hid.symm, ← hp.classOf_eq hd] at hb
    exact (hb.lays fun _ _ h => h).mono fun _ _ => struct?_record

/-- **The structs of classes** lay them out. -/
theorem layoutEach_lay (hp : p.WellFormed) (cs : List ClassRef) (ds : Diagnostics) :
    Layouts.Lay p (layoutEach p cs { diagnostics := ds }) :=
  layoutEach_induction (fun _ _ _ => layoutIn_lay hp _ _ _ _) fun d _ s hs => by
    simp [Layouts.struct?, Layouts.find?] at hs

/-- Only grounded classes are laid out. -/
def Layouts.Grounded (p : Program) (l : Layouts) : Prop :=
  ∀ c s, l.struct? c = some s → IsGrounded p c

/-- Building a layout keeps all structs grounded. -/
lemma layoutIn_grounded (fuel : Nat) (building : List Class) (c : ClassRef) (l : Layouts)
    (h : Layouts.Grounded p l) : Layouts.Grounded p (layoutIn p fuel building c l).2 := by
  refine layoutIn_induction (fun _ _ _ h => h) (fun c x l hl _ hx d s hs => ?_) fuel building c l h
  obtain hs | ⟨hid, rfl⟩ := of_struct?_record hs
  · exact hl d s hs
  · obtain ⟨t₀, rfl, hbuilt⟩ := hx s rfl
    refine .intro d fun k hk => ?_
    obtain ⟨v, hv, q, hvt⟩ := hk
    rw [vars_classOf_congr p hid] at hv
    obtain ⟨m, -, hm⟩ := Code.exists_of_forall₂ hbuilt.members hv
    obtain ⟨t, ht, -⟩ := hm.nested q k hvt
    exact hl k t ht

/-- **The classes that are laid out** are grounded. -/
theorem layoutEach_grounded (p : Program) (cs : List ClassRef) (ds : Diagnostics) :
    Layouts.Grounded p (layoutEach p cs { diagnostics := ds }) :=
  layoutEach_induction (fun _ _ _ => layoutIn_grounded _ _ _ _) fun c s hs => by
    simp [Layouts.struct?, Layouts.find?] at hs

/-- The classes of a laid-out program are grounded. -/
theorem isGrounded_of_complete {ds : Diagnostics} (h : (layoutAll p ds).Complete p) :
    ∀ k ∈ p.classes, IsGrounded p k.ref := by
  intro k hk
  obtain ⟨s, hs, -⟩ := h k hk
  exact layoutEach_grounded p (p.classes.map Class.ref) ds k.ref s (layoutAll_eq p ds ▸ hs)

end Layouts

end Lane.Lowering
