import Lane.Packing.Layout
import Lane.Proofs.Lowering.Structs

set_option relaxedAutoImplicit false
set_option autoImplicit false

/-!
# Packed layouts place members

A packed layout places one member for each member variable, one after the other. A member for a
variable of a class has the packed struct of that class. A packed member is found under the names of
the class and the variable to which it belongs.

## Main definitions

* `Lane.Packing.packedShape`: the members for what is no class.
* `Lane.Packing.Grows`: packed layouts with more entries.
* `Lane.Packing.Packs`: the member for a variable, and its entry.
* `Lane.Packing.IsPackedAs`: packed structs of a class.
* `Lane.Packing.FreshFor`: classes that were not looked at have no entries.

## Main results

* `Lane.Packing.packVars_induction`: what all steps keep holds after variables were packed.
* `Lane.Packing.untouched_packClassIn`: a class leaves alone what it does not reach.
* `Lane.Packing.packVars_built`: variables are placed one after the other.
* `Lane.Packing.freshFor_packClassIn`: packing a class leaves no entries without a struct.
* `Lane.Packing.packAll_isPackedAs`: the packed structs of a program.
-/

namespace Lane.Packing

open Code Lowering

/-- The packed member for what is no class: a vector, a mask for truth values, and otherwise the
same as for a single instance. -/
def packedShape (p : Program) (W : Nat) (c : ClassRef) : Ty → MemberShape
  | .container _ _ _ => .header
  | t => .value (packValue W ((VType.scalar (.intOfSize (widest p c))).vector W) t.code).1

/-- All members but containers are packed as values. -/
lemma packedShape_of_ne {p : Program} {W : Nat} {c : ClassRef} {t : Ty}
    (h : ∀ q k u, t ≠ .container q k u) : packedShape p W c t =
      .value (packValue W ((VType.scalar (.intOfSize (widest p c))).vector W) t.code).1 := by
  cases t with
  | container q k u => exact absurd rfl (h q k u)
  | scalar | cls | ptr | error => rfl

/-- Packed layouts with more entries. -/
structure Grows (l l' : PackedLayouts) : Prop where
  classes : ∀ i x, l.classes.lookup i = some x → l'.classes.lookup i = some x
  members : ∀ k x, l.members.lookup k = some x → l'.members.lookup k = some x

/-- The member for a variable of a class in a packed layout, and its entry. -/
structure Packs (p : Program) (W : Nat) (l : PackedLayouts) (c : ClassRef) (v : MemberVar)
    (m : StructMember) : Prop where
  holds : HoldsVar l.struct? (packedShape p W c) v m
  lookup_eq : l.members.lookup (c.name, v.name) = some ⟨m, v.type.isBool⟩

section Packed

variable {p : Program} {W : Nat} {l l' l'' : PackedLayouts} {c d e : ClassRef} {s t : Struct}
  {n : String} {layouts : Layouts}

/-- Layouts are contained in themselves. -/
lemma Grows.refl (l : PackedLayouts) : Grows l l := ⟨fun _ _ h => h, fun _ _ h => h⟩

/-- Containment of layouts is transitive. -/
lemma Grows.trans (h : Grows l l') (h' : Grows l' l'') : Grows l l'' :=
  ⟨fun i x hx => h'.classes i x (h.classes i x hx), fun k x hx => h'.members k x (h.members k x hx)⟩

/-- A struct that was there stays. -/
lemma Grows.struct? (h : Grows l l') (d : ClassRef) (t : Struct) (ht : l.struct? d = some t) :
    l'.struct? d = some t := by
  unfold PackedLayouts.struct? at ht ⊢
  cases hx : l.classes.lookup d.id with
  | none => simp [hx] at ht
  | some x => rw [h.classes _ _ hx, ← hx, ht]

/-- A member that was packed stays packed. -/
lemma Packs.mono {v : MemberVar} {m : StructMember} (h : Packs p W l c v m) (hl : Grows l l') :
    Packs p W l' c v m :=
  ⟨h.holds.mono hl.struct?, hl.members _ _ h.lookup_eq⟩

/-- A member is placed, and an entry made for it. -/
lemma placePacked_eq (scalar s : Struct) (n : String) (x : MemberShape) (b : Bool)
    (l : PackedLayouts) : placePacked scalar s n x b l = (s.append n x,
      { l with members := l.members ++
        [((scalar.name, n), ⟨⟨some s.name, n, alignUp s.size x.align, x⟩, b⟩)] }) := by
  simp [placePacked, Struct.append]

/-- An entry is made. -/
lemma grows_members (l : PackedLayouts) (es : List ((String × String) × PackedMember)) :
    Grows l { l with members := l.members ++ es } :=
  ⟨fun _ _ h => h, fun k x h => by simp [List.lookup_append, h]⟩

/-- The member for a variable in a packed layout has the packed form of its values. -/
def TakesForm (W : Nat) (mask : VType) (v : MemberVar) (x : PackedMember) : Prop :=
  v.type.isAtomic → x.member.shape = .value (packValue W mask v.type.code).1 ∧
    x.isMask = (packValue W mask v.type.code).2

/-- **What all steps keep** holds after member variables were packed. -/
lemma packVars_induction {I : PackedLayouts → Prop} {cls : Class} {scalar : Struct} {mask : VType}
    {nested : ClassRef → PackedLayouts → Option Struct × PackedLayouts}
    (hreport : ∀ l pos m, I l → I (l.report pos m)) :
    ∀ (vs : List MemberVar) (s : Struct) (ok : Bool) (l : PackedLayouts),
      (∀ v ∈ vs, ∀ l x, TakesForm W mask v x → I l →
        I { l with members := l.members ++ [((scalar.name, v.name), x)] }) →
      (∀ v ∈ vs, ∀ q d, v.type = .cls q d → ∀ l, I l → I (nested d l).2) → I l →
      I (packVars cls scalar W mask nested vs s ok l).2 := by
  intro vs
  induction vs with
  | nil => exact fun _ _ _ _ _ hl => hl
  | cons v vs ih =>
    intro s ok l hplace hnested hl
    obtain ⟨hp, hps⟩ := List.forall_mem_cons.1 hplace
    obtain ⟨hv, hvs⟩ := List.forall_mem_cons.1 hnested
    unfold packVars
    split
    · rename_i q d hvt
      split
      · exact ih s false _ hps hvs (hreport _ _ _ hl)
      · have hd := hv q d hvt l hl
        split
        · rename_i l' hres
          rw [hres] at hd
          exact ih s false l' hps hvs hd
        · rename_i t l' hres
          rw [hres] at hd
          simp only [placePacked_eq]
          exact ih _ ok _ hps hvs (hp _ _ (fun ha => by rw [hvt] at ha; cases ha) hd)
    · rename_i hvt
      simp only [placePacked_eq]
      exact ih _ ok _ hps hvs (hp _ _ (fun ha => by rw [hvt] at ha; cases ha) hl)
    · simp only [placePacked_eq]
      exact ih _ ok _ hps hvs (hp _ _ (fun _ => ⟨rfl, rfl⟩) hl)

/-- What was found out about a class is recorded. -/
def recorded (c : ClassRef) (scalar : String) : Option Struct → PackedLayouts → PackedLayouts
  | none, l => l.recordNone c
  | some s, l => l.record c scalar s

/-- Recording a class adds it. -/
@[simp] lemma classes_recorded (x : Option Struct) :
    (recorded c n x l).classes = l.classes ++ [(c.id, x)] := by
  cases x <;> rfl

/-- Recording a class adds no members. -/
@[simp] lemma members_recorded (x : Option Struct) : (recorded c n x l).members = l.members := by
  cases x <;> rfl

/-- Layouts grow when a class is recorded. -/
lemma grows_recorded (x : Option Struct) : Grows l (recorded c n x l) :=
  ⟨fun i y hy => by simp [List.lookup_append, hy], fun k y hy => by simpa using hy⟩

/-- The packed form of the member variables of a class. -/
def packedVars (p : Program) (layouts : Layouts) (W fuel : Nat) (c : ClassRef) (scalar : Struct)
    (l : PackedLayouts) : Option Struct × PackedLayouts :=
  packVars (p.classOf c) scalar W ((VType.scalar (.intOfSize (widest p c))).vector W)
    (packClassIn p layouts W fuel) (p.classOf c).vars
    { name := (p.classOf c).name ++ ".x" ++ toString W, isPacked := true, lanes := W } true l

/-- What packing a class does: nothing if it was done before, and otherwise the class is recorded
with what its variables make. -/
lemma packClassIn_cases (p : Program) (layouts : Layouts) (W fuel : Nat) (c : ClassRef)
    (l : PackedLayouts) :
    (∃ x, l.classes.lookup c.id = some x ∧ packClassIn p layouts W (fuel + 1) c l = (x, l)) ∨
    l.classes.lookup c.id = none ∧
      (((layouts.struct? c).filter fun _ => c.isSimd) = none ∧
        packClassIn p layouts W (fuel + 1) c l = (none, recorded c "" none l) ∨
      ∃ scalar, layouts.struct? c = some scalar ∧ c.isSimd ∧
        packClassIn p layouts W (fuel + 1) c l =
          ((packedVars p layouts W fuel c scalar l).1,
            recorded c scalar.name (packedVars p layouts W fuel c scalar l).1
              (packedVars p layouts W fuel c scalar l).2)) := by
  unfold packClassIn
  cases hfind : l.classes.lookup c.id with
  | some x => exact .inl ⟨x, rfl, rfl⟩
  | none =>
    refine .inr ⟨rfl, ?_⟩
    cases hscalar : (layouts.struct? c).filter fun _ => c.isSimd with
    | none => exact .inl ⟨rfl, rfl⟩
    | some scalar =>
      obtain ⟨hs, hsimd⟩ := Option.filter_eq_some_iff.1 hscalar
      refine .inr ⟨scalar, hs, hsimd, ?_⟩
      simp only [packedVars]
      split <;> rename_i hres <;> simp only [hres, recorded]

/-- Entries stay. -/
lemma grows_packClassIn : ∀ (fuel : Nat) (c : ClassRef) (l : PackedLayouts),
    Grows l (packClassIn p layouts W fuel c l).2
  | 0, _, l => .refl l
  | fuel + 1, c, l => by
    obtain ⟨x, -, heq⟩ | ⟨-, ⟨-, heq⟩ | ⟨scalar, -, -, heq⟩⟩ :=
      packClassIn_cases p layouts W fuel c l <;> rw [heq]
    · exact .refl l
    · exact grows_recorded (n := "") none
    · refine .trans ?_ (grows_recorded _)
      exact packVars_induction (fun l' _ _ h => ⟨h.classes, h.members⟩) _ _ true l
        (fun v _ l' _ _ h => h.trans (grows_members l' _))
        (fun v _ q d _ l' h => h.trans (grows_packClassIn fuel d l')) (.refl l)

/-- **What a class does not reach** is left alone when it is packed. -/
structure Untouched (c : ClassRef) (l l' : PackedLayouts) : Prop where
  classes : l'.classes.lookup c.id = l.classes.lookup c.id
  members : ∀ n, l'.members.lookup (c.name, n) = l.members.lookup (c.name, n)

/-- Declared classes are told apart by their numbers and by their names. -/
lemma eq_of_id_eq (hp : p.WellFormed) (hc : p.Valid (.cls .var c)) (hd : p.Valid (.cls .var d))
    (h : c.id = d.id) : c = d := by
  obtain ⟨x, hx, rfl⟩ := hc
  obtain ⟨y, hy, rfl⟩ := hd
  rw [List.inj_on_of_nodup_map hp.ids_nodup hx hy h]

/-- Classes of a program are told apart by their names. -/
lemma eq_of_name_eq (hp : p.WellFormed) (hc : p.Valid (.cls .var c)) (hd : p.Valid (.cls .var d))
    (h : c.name = d.name) : c = d := by
  obtain ⟨x, hx, rfl⟩ := hc
  obtain ⟨y, hy, rfl⟩ := hd
  rw [List.inj_on_of_nodup_map hp.names_nodup hx hy h]

/-- Packing a class leaves alone the classes that it does not include. -/
lemma untouched_packClassIn (hp : p.WellFormed) (hl : layouts.Fit p) (hc : p.Valid (.cls .var c)) :
    ∀ (fuel : Nat) (e : ClassRef) (l : PackedLayouts), p.Valid (.cls .var e) → ¬Includes p e c →
      Untouched c l (packClassIn p layouts W fuel e l).2
  | 0, _, l, _, _ => ⟨rfl, fun _ => rfl⟩
  | fuel + 1, e, l, he, hr => by
    have hne : c ≠ e := fun h => hr (h ▸ .refl)
    have hid : (c.id == e.id) = false := by
      rw [beq_eq_false_iff_ne]
      exact fun h => hne (eq_of_id_eq hp hc he h)
    have hrecorded : ∀ (n : String) (x : Option Struct) (l' : PackedLayouts), Untouched c l l' →
        Untouched c l (recorded e n x l') := by
      intro n x l' h
      refine ⟨?_, fun n => by rw [members_recorded, h.members]⟩
      rw [classes_recorded, List.lookup_append, h.classes]
      simp [List.lookup_cons, hid]
    obtain ⟨x, -, heq⟩ | ⟨-, ⟨-, heq⟩ | ⟨scalar, hscalar, -, heq⟩⟩ :=
      packClassIn_cases p layouts W fuel e l <;> rw [heq]
    · exact ⟨rfl, fun _ => rfl⟩
    · exact hrecorded "" none l ⟨rfl, fun _ => rfl⟩
    · refine hrecorded _ _ _ ?_
      refine packVars_induction (fun l' _ _ h => ⟨h.classes, h.members⟩) _ _ true l ?_ ?_
        ⟨rfl, fun _ => rfl⟩
      · -- Entries are made under the name of the class that is packed.
        intro v _ l' x _ h
        refine ⟨h.classes, fun k => ?_⟩
        obtain ⟨y, hy, rfl⟩ := he
        have hname : scalar.name = y.ref.name := (hl y hy scalar hscalar).name_eq
        have hkey : ((c.name, k) == (scalar.name, v.name)) = false := by
          rw [beq_eq_false_iff_ne]
          intro h
          exact hne (eq_of_name_eq hp hc ⟨y, hy, rfl⟩ ((Prod.mk.inj h).1.trans hname))
        rw [List.lookup_append, h.members]
        simp [List.lookup_cons, hkey]
      · intro v hv q d hvt l' h
        have hnests : Nests p e d := ⟨v, hv, q, hvt⟩
        have hd := untouched_packClassIn hp hl hc fuel d l' (hnests.valid hp)
          fun h => hr (.head hnests h)
        exact ⟨hd.classes.trans h.classes, fun n => (hd.members n).trans (h.members n)⟩

/-- Only truth values become masks. -/
lemma packValue_snd_eq {mask : VType} {t : Ty} (hcls : ∀ q d, t ≠ .cls q d)
    (hcon : ∀ q k u, t ≠ .container q k u) : (packValue W mask t.code).2 = t.isBool := by
  cases t with
  | scalar q k => cases k <;> rfl
  | cls => exact (hcls _ _ rfl).elim
  | container => exact (hcon _ _ _ rfl).elim
  | ptr | error => rfl

/-- A member with a new entry is placed after others. -/
lemma built_placed {vs : List MemberVar} {v : MemberVar} {shape : MemberShape} {b : Bool}
    (h : Built (Packs p W l c) vs s) (hl : Grows l l')
    (hnone : l'.members.lookup (c.name, v.name) = none) (hb : b = v.type.isBool)
    (hholds : ∀ m : StructMember, m.name = v.name → m.shape = shape →
      HoldsVar l'.struct? (packedShape p W c) v m) :
    Built (Packs p W { l' with members := l'.members ++ [((c.name, v.name),
      ⟨⟨some s.name, v.name, alignUp s.size shape.align, shape⟩, b⟩)] } c) (vs ++ [v])
        (s.append v.name shape) := by
  have hl' := grows_members l' [((c.name, v.name),
    ⟨⟨some s.name, v.name, alignUp s.size shape.align, shape⟩, b⟩)]
  refine (h.imp fun _ _ hm => hm.mono (hl.trans hl')).append
    ⟨(hholds _ rfl rfl).mono hl'.struct?, ?_⟩
  simp [List.lookup_append, hnone, hb]

/-- A new entry is found under no other name. -/
lemma lookup_placed_eq_none {k k' : String × String} {x : PackedMember} (hne : k' ≠ k)
    (hnone : l.members.lookup k' = none) : (l.members ++ [(k, x)]).lookup k' = none := by
  have hkey : (k' == k) = false := beq_eq_false_iff_ne.2 hne
  simp [List.lookup_append, hnone, List.lookup_cons, hkey]

/-- What a packed struct looks like after member variables were placed in it.

**Proof sketch.** By induction on the variables. Every variable appends one member and one entry,
under a name for which there was none; packing the classes among them makes entries under other
names. -/
lemma packVars_built {cls : Class} {scalar : Struct}
    {nested : ClassRef → PackedLayouts → Option Struct × PackedLayouts}
    (hname : scalar.name = c.name) (hgrow : ∀ d l, Grows l (nested d l).2) :
    ∀ (vs vs₀ : List MemberVar) (s : Struct) (ok : Bool) (l : PackedLayouts),
      (∀ v ∈ vs, ∀ q d, v.type = .cls q d → ∀ l,
        (∀ t, (nested d l).1 = some t → (nested d l).2.struct? d = some t) ∧
          ∀ n, (nested d l).2.members.lookup (c.name, n) = l.members.lookup (c.name, n)) →
      (vs.map MemberVar.name).Nodup → (∀ v ∈ vs, l.members.lookup (c.name, v.name) = none) →
      (ok = true → Built (Packs p W l c) vs₀ s) →
      ∀ t, (packVars cls scalar W ((VType.scalar (.intOfSize (widest p c))).vector W) nested vs s ok
          l).1 = some t → ∃ t₀, t = t₀.finish ∧
        Built (Packs p W (packVars cls scalar W ((VType.scalar (.intOfSize (widest p c))).vector W)
          nested vs s ok l).2 c) (vs₀ ++ vs) t₀ := by
  generalize hmask : (VType.scalar (.intOfSize (widest p c))).vector W = mask
  intro vs
  induction vs with
  | nil =>
    intro vs₀ s ok l _ _ _ h t ht
    simp only [packVars] at ht
    split at ht
    · obtain rfl := Option.some.inj ht
      exact ⟨s, rfl, by simpa [packVars] using h ‹_›⟩
    · cases ht
  | cons v vs ih =>
    intro vs₀ s ok l hnested hnodup hnew h t
    obtain ⟨hv, hvs⟩ := List.forall_mem_cons.1 hnested
    obtain ⟨hnewv, hnews⟩ := List.forall_mem_cons.1 hnew
    rw [List.map_cons, List.nodup_cons] at hnodup
    -- The name is new, so the member and its entry leave all that was there as it is.
    have placed : ∀ (shape : MemberShape) (b : Bool) (l' : PackedLayouts), Grows l l' →
        (∀ n, l'.members.lookup (c.name, n) = l.members.lookup (c.name, n)) →
        (∀ m : StructMember, m.name = v.name → m.shape = shape →
          HoldsVar l'.struct? (packedShape p W c) v m) → b = v.type.isBool →
        (packVars cls scalar W mask nested vs (placePacked scalar s v.name shape b l').1 ok
          (placePacked scalar s v.name shape b l').2).1 = some t → ∃ t₀, t = t₀.finish ∧
          Built (Packs p W (packVars cls scalar W mask nested vs
            (placePacked scalar s v.name shape b l').1 ok
            (placePacked scalar s v.name shape b l').2).2 c) (vs₀ ++ v :: vs) t₀ := by
      intro shape b l' hl hsame hholds hb ht
      simp only [placePacked_eq, hname] at ht ⊢
      have hothers : ∀ w ∈ vs, w.name ≠ v.name := fun w hw he =>
        hnodup.1 (he ▸ List.mem_map_of_mem hw)
      simpa using ih (vs₀ ++ [v]) _ ok _ hvs hnodup.2
        (fun w hw => lookup_placed_eq_none (fun he => hothers w hw (Prod.mk.inj he).2)
          ((hsame w.name).trans (hnews w hw)))
        (fun hok => built_placed (h hok) hl ((hsame v.name).trans hnewv) hb hholds) t ht
    -- Otherwise the class is left without a struct, whatever comes later.
    have failed : ∀ l' : PackedLayouts,
        (∀ n, l'.members.lookup (c.name, n) = l.members.lookup (c.name, n)) →
        (packVars cls scalar W mask nested vs s false l').1 = some t → ∃ t₀, t = t₀.finish ∧
          Built (Packs p W (packVars cls scalar W mask nested vs s false l').2 c)
            (vs₀ ++ v :: vs) t₀ := by
      intro l' hsame ht
      simpa using ih (vs₀ ++ [v]) s false l' hvs hnodup.2
        (fun w hw => (hsame w.name).trans (hnews w hw)) (by simp) t ht
    unfold packVars
    split
    · rename_i q d hvt
      split
      · exact failed _ fun _ => rfl
      · obtain ⟨hself, hsame⟩ := hv q d hvt l
        have hl := hgrow d l
        split
        · rename_i l' hres
          rw [hres] at hsame
          exact failed l' hsame
        · rename_i t' l' hres
          rw [hres] at hself hsame hl
          exact placed t'.asMember false l' hl hsame (fun m => .of_cls hvt (hself t' rfl))
            (by rw [hvt]; rfl)
    · rename_i q k u hvt
      exact placed .header false l (.refl l) (fun _ => rfl)
        (fun m hn hs => .of_leaf (by simp [hvt]) hn (by rw [hs, hvt]; rfl)) (by rw [hvt]; rfl)
    · rename_i hcls hcon
      refine placed _ _ l (.refl l) (fun _ => rfl)
        (fun m hn hs => .of_leaf (fun q d hd => hcls q d hd) hn ?_) (packValue_snd_eq hcls hcon)
      rw [hs, packedShape_of_ne hcon, hmask]
      rfl

end Packed

end Lane.Packing

/-! ## Packed structs of classes

Every class that has a packed struct has a member with an entry for each of its variables there, in
whatever order classes were packed and however deep they are nested in others. A class gets its
entries while it is packed, which is done once, and no class that it holds makes entries for it. -/

namespace Lane.Packing

open Code Lowering

/-- **Packed structs of a class**: a member with an entry for each variable, one after the other. -/
structure IsPackedAs (p : Program) (W : Nat) (l : PackedLayouts) (c : ClassRef) (t : Struct) :
    Prop where
  members : List.Forall₂ (Packs p W l c) (p.classOf c).vars t.members
  isStacked : t.IsStacked

/-- The packed structs of all classes that have one. -/
def ArePacked (p : Program) (W : Nat) (l : PackedLayouts) : Prop :=
  ∀ k ∈ p.classes, ∀ t, l.struct? k.ref = some t → IsPackedAs p W l k.ref t

/-- **A class that was not looked at** has no entries. -/
def FreshFor (l : PackedLayouts) (c : ClassRef) : Prop :=
  l.classes.lookup c.id = none → ∀ n, l.members.lookup (c.name, n) = none

section Placement

variable {p : Program} {W : Nat} {l l' : PackedLayouts} {c d e : ClassRef} {t : Struct}
  {layouts : Layouts} {n : String} {x : Option Struct}

/-- A class that was packed stays packed. -/
lemma IsPackedAs.mono (h : IsPackedAs p W l c t) (hl : Grows l l') : IsPackedAs p W l' c t :=
  ⟨h.members.imp fun _ _ hm => hm.mono hl, h.isStacked⟩

/-- Whatever else is found, packed structs stay. -/
lemma ArePacked.mono (h : ArePacked p W l) (hl : Grows l l')
    (hs : ∀ d t, l'.struct? d = some t → l.struct? d = some t) : ArePacked p W l' :=
  fun k hk t ht => (h k hk t (hs _ _ ht)).mono hl

/-- What is fresh stays so when a class is recorded. -/
lemma FreshFor.recorded (h : FreshFor l e) : FreshFor (recorded c n x l) e := by
  intro hnone k
  rw [classes_recorded, List.lookup_append, Option.or_eq_none_iff] at hnone
  rw [members_recorded]
  exact h hnone.1 k

/-- A class is looked at once it is recorded. -/
lemma freshFor_recorded_self : FreshFor (recorded c n x l) c := by
  intro hnone
  rw [classes_recorded, List.lookup_append, Option.or_eq_none_iff] at hnone
  simp at hnone

/-- An entry for another class is made. -/
lemma FreshFor.entry (h : FreshFor l e) {k : String × String} {y : PackedMember}
    (hk : k.1 ≠ e.name) : FreshFor { l with members := l.members ++ [(k, y)] } e := by
  intro hnone m
  have hkey : ((e.name, m) == k) = false := by
    rw [beq_eq_false_iff_ne]
    rintro rfl
    exact hk rfl
  show (l.members ++ [(k, y)]).lookup (e.name, m) = none
  rw [List.lookup_append, h hnone m]
  simp [List.lookup_cons, hkey]

/-- The name of the struct of a declared class. -/
lemma name_of_fit (hl : layouts.Fit p) (hc : p.Valid (.cls .var c)) {s : Struct}
    (hs : layouts.struct? c = some s) : s.name = c.name := by
  obtain ⟨k, hk, rfl⟩ := hc
  exact (hl k hk s hs).name_eq

/-- **Packing a class** leaves no entries for a class that was not looked at.

**Proof sketch.** By induction on the fuel: entries are made for the class that is packed, which is
recorded afterwards. -/
lemma freshFor_packClassIn (hp : p.WellFormed) (hl : layouts.Fit p) (he : p.Valid (.cls .var e)) :
    ∀ (fuel : Nat) (c : ClassRef) (l : PackedLayouts), p.Valid (.cls .var c) → FreshFor l e →
      FreshFor (packClassIn p layouts W fuel c l).2 e
  | 0, _, _, _, h => h
  | fuel + 1, c, l, hc, h => by
    obtain ⟨x, -, heq⟩ | ⟨-, ⟨-, heq⟩ | ⟨scalar, hscalar, -, heq⟩⟩ :=
      packClassIn_cases p layouts W fuel c l <;> rw [heq]
    · exact h
    · exact h.recorded
    · by_cases hce : c = e
      · subst hce
        exact freshFor_recorded_self
      · refine FreshFor.recorded (packVars_induction (I := fun l => FreshFor l e)
          (fun l' _ _ h => h) _ _ true l (fun v _ l' y _ h => h.entry ?_) ?_ h)
        · rw [name_of_fit hl hc hscalar]
          exact fun hname => hce (eq_of_name_eq hp hc he hname)
        · exact fun v hv q d hvt l' h =>
            freshFor_packClassIn hp hl he fuel d l' (Nests.valid hp ⟨v, hv, q, hvt⟩) h

/-- The classes that a grounded class holds leave its entries alone. -/
lemma untouched_packed (hp : p.WellFormed) (hl : layouts.Fit p) (hc : p.Valid (.cls .var c))
    (hground : IsGrounded p c) {v : MemberVar} (hv : v ∈ (p.classOf c).vars) {q : Modifier}
    (hvt : v.type = .cls q d) (fuel : Nat) (l : PackedLayouts) :
    Untouched c l (packClassIn p layouts W fuel d l).2 :=
  have hnests : Nests p c d := ⟨v, hv, q, hvt⟩
  untouched_packClassIn hp hl hc fuel d l (hnests.valid hp) (hground.not_includes hnests)

/-- The packed struct of a class is on record. -/
lemma PackedLayouts.mem_of_struct? (h : l.struct? c = some t) : (c.id, some t) ∈ l.classes := by
  have hfind : l.classes.lookup c.id = some (some t) := Option.join_eq_some_iff.1 h
  obtain ⟨l₁, l₂, hcs, -⟩ := List.lookup_eq_some_iff.1 hfind
  simp [hcs]

/-- What is recorded is found if nothing was recorded before. -/
lemma of_struct?_recorded (h : (recorded c n x l).struct? d = some t) :
    l.struct? d = some t ∨ d.id = c.id ∧ x = some t := by
  unfold PackedLayouts.struct? at h ⊢
  rw [classes_recorded, List.lookup_append] at h
  cases hfind : l.classes.lookup d.id with
  | some y => exact .inl (by simpa [hfind] using h)
  | none =>
    rw [hfind, Option.none_or, List.lookup_cons] at h
    split at h
    · exact .inr ⟨beq_iff_eq.1 ‹_›, h⟩
    · cases h

variable (hp : p.WellFormed) (hl : layouts.Fit p)
  (hground : ∀ d s, layouts.struct? d = some s → IsGrounded p d)

include hp hl hground

/-- A class that was packed has the struct that was made for it. -/
lemma struct?_packClassIn_self (hc : p.Valid (.cls .var c)) {fuel : Nat}
    (h : (packClassIn p layouts W fuel c l).1 = some t) :
    (packClassIn p layouts W fuel c l).2.struct? c = some t := by
  cases fuel with
  | zero => cases h
  | succ fuel =>
    obtain ⟨x, hx, heq⟩ | ⟨hnone, ⟨-, heq⟩ | ⟨scalar, hscalar, -, heq⟩⟩ :=
      packClassIn_cases p layouts W fuel c l <;> rw [heq] at h ⊢
    · obtain rfl : x = some t := h
      simp [PackedLayouts.struct?, hx]
    · cases h
    · have hstill : (packedVars p layouts W fuel c scalar l).2.classes.lookup c.id = none :=
        packVars_induction (I := fun l => l.classes.lookup c.id = none)
          (fun l' _ _ h => h) _ _ true l (fun v _ l' y _ h => h) (fun v hv q d hvt l' h =>
            (untouched_packed hp hl hc (hground c scalar hscalar) hv hvt fuel l').classes.trans h)
          hnone
      simp only at h
      rw [PackedLayouts.struct?, classes_recorded, List.lookup_append, hstill, h]
      simp

/-- Packing the variables of a class that was not looked at gives it a packed struct, if all other
classes that it includes get one. -/
lemma packedVars_isPackedAs (hc : p.Valid (.cls .var c)) {scalar : Struct}
    (hscalar : layouts.struct? c = some scalar) {fuel : Nat} (hfresh : FreshFor l c)
    (hnone : l.classes.lookup c.id = none)
    (ht : (packedVars p layouts W fuel c scalar l).1 = some t) :
    IsPackedAs p W (packedVars p layouts W fuel c scalar l).2 c t := by
  have hnested : ∀ v ∈ (p.classOf c).vars, ∀ q d, v.type = .cls q d → ∀ l : PackedLayouts,
      (∀ t, (packClassIn p layouts W fuel d l).1 = some t →
        (packClassIn p layouts W fuel d l).2.struct? d = some t) ∧
      ∀ n, (packClassIn p layouts W fuel d l).2.members.lookup (c.name, n) =
        l.members.lookup (c.name, n) := fun v hv q d hvt l =>
    ⟨fun t => struct?_packClassIn_self hp hl hground (Nests.valid hp ⟨v, hv, q, hvt⟩),
      (untouched_packed hp hl hc (hground c scalar hscalar) hv hvt fuel l).members⟩
  obtain ⟨t₀, rfl, hbuilt⟩ := packVars_built (name_of_fit hl hc hscalar)
    (fun d l => grows_packClassIn fuel d l) (p.classOf c).vars [] _ true l hnested
    (nodup_var_names hp c) (fun v _ => hfresh hnone v.name) (fun _ => .nil rfl rfl rfl) t ht
  have hlays := hbuilt.lays fun v m hm => hm.holds
  exact ⟨hbuilt.members, hlays.isStacked⟩

/-- **Packing a class** gives packed structs to it and to the classes that it includes.

**Proof sketch.** By induction on the fuel. The classes that are held keep what there is, and make
no entries for the class; so there are none for a variable when it is placed (`packVars_built`). -/
lemma arePacked_packClassIn : ∀ (fuel : Nat) (c : ClassRef) (l : PackedLayouts),
    p.Valid (.cls .var c) → (∀ e, Includes p c e → FreshFor l e) → ArePacked p W l →
      ArePacked p W (packClassIn p layouts W fuel c l).2
  | 0, _, _, _, _, h => h
  | fuel + 1, c, l, hc, hfresh, h => by
    obtain ⟨x, -, heq⟩ | ⟨hnone, ⟨-, heq⟩ | ⟨scalar, hscalar, -, heq⟩⟩ :=
      packClassIn_cases p layouts W fuel c l <;> rw [heq]
    · exact h
    · refine h.mono (grows_recorded (n := "") none) fun d t ht => ?_
      obtain ht | ⟨-, hx⟩ := of_struct?_recorded ht
      · exact ht
      · cases hx
    · have hgrounded := hground c scalar hscalar
      have hname := name_of_fit hl hc hscalar
      -- While the class is packed, only its own entries are without a struct.
      let I (l : PackedLayouts) : Prop :=
        (∀ e, Includes p c e → e ≠ c → p.Valid (.cls .var e) → FreshFor l e) ∧ ArePacked p W l
      have hinner : I (packedVars p layouts W fuel c scalar l).2 := by
        have hreport : ∀ l' pos m, I l' → I (l'.report pos m) := fun l' _ _ h =>
          ⟨h.1, h.2.mono ⟨fun _ _ h => h, fun _ _ h => h⟩ fun _ _ h => h⟩
        refine packVars_induction hreport _ _ true l (fun v _ l' y _ h => ?_)
          (fun v hv q d hvt l' h => ?_) ⟨fun e he _ _ => hfresh e he, h⟩
        · refine ⟨fun e he hne hvalid => (h.1 e he hne hvalid).entry ?_,
            h.2.mono (grows_members l' _) fun _ _ h => h⟩
          rw [hname]
          exact fun heq => hne (eq_of_name_eq hp hvalid hc heq.symm)
        · have hnests : Nests p c d := ⟨v, hv, q, hvt⟩
          have hd := hnests.valid hp
          refine ⟨fun e he hne hvalid => freshFor_packClassIn hp hl hvalid fuel d l' hd
            (h.1 e he hne hvalid), arePacked_packClassIn fuel d l' hd (fun e he => ?_) h.2⟩
          refine h.1 e (.head hnests he) ?_ (he.valid hp hd)
          rintro rfl
          exact hgrounded.not_includes hnests he
      intro k hk t ht
      obtain ht | ⟨hid, hx⟩ := of_struct?_recorded ht
      · exact (hinner.2 k hk t ht).mono (grows_recorded _)
      · obtain rfl : k.ref = c := eq_of_id_eq hp ⟨k, hk, rfl⟩ hc hid
        exact (packedVars_isPackedAs hp hl hground hc hscalar (hfresh _ .refl) hnone hx).mono
          (grows_recorded _)

/-- **The packed structs of a program**. -/
theorem packAll_isPackedAs (ds : Diagnostics) (hc : p.Valid (.cls .var c))
    (ht : (packAll p layouts W ds).struct? c = some t) :
    IsPackedAs p W (packAll p layouts W ds) c t := by
  have fold : ∀ (cs : List Class) (l : PackedLayouts), (∀ k ∈ cs, k ∈ p.classes) →
      (∀ e, p.Valid (.cls .var e) → FreshFor l e) → ArePacked p W l →
      ArePacked p W (cs.foldl (fun l c => (packClass p layouts W c.ref l).2) l) := by
    intro cs
    induction cs with
    | nil => exact fun _ _ _ h => h
    | cons k cs ih =>
      intro l hcs hfresh h
      obtain ⟨hk, hcs⟩ := List.forall_mem_cons.1 hcs
      have hvalid : p.Valid (.cls .var k.ref) := ⟨k, hk, rfl⟩
      exact ih _ hcs (fun e he => freshFor_packClassIn hp hl he _ k.ref l hvalid (hfresh e he))
        (arePacked_packClassIn hp hl hground _ k.ref l hvalid
          (fun e he => hfresh e (he.valid hp hvalid)) h)
  obtain ⟨k, hk, rfl⟩ := hc
  refine fold p.classes { diagnostics := ds } (fun _ => id) (fun e _ _ n => rfl) ?_ k hk t ht
  intro k hk t ht
  simp [PackedLayouts.struct?] at ht

end Placement

end Lane.Packing
