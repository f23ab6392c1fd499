import Lane.Proofs.Packing.Layouts
import Lane.Proofs.Regular.Builder

set_option relaxedAutoImplicit false
set_option autoImplicit false

/-!
# Packed members of scalar members

Every entry of the packed layouts belongs to a member variable of a class, and the packed member has
the packed form of its values. So the path to a machine value in a layout of the program leads to
its packed form: to a mask for a truth value, to the same address for an address, and to one lane
for each instance otherwise. The fields of a container header stay as they are.

## Main definitions

* `Lane.Packing.Represents`: packed members that represent values of a machine type.

## Main results

* `Lane.Packing.isEntry_of_lookup`: entries belong to member variables.
* `Lane.Packing.offset?_represents`: paths to machine values lead to their packed form.
-/

namespace Lane.Packing

open Code Lowering

variable {p : Program} {W : Nat} {l l' : PackedLayouts} {layouts : Layouts} {c d : ClassRef}

/-! ## Entries belong to member variables -/

/-- **An entry for a member variable**. -/
def IsEntry (p : Program) (W : Nat) (k : String × String) (x : PackedMember) : Prop :=
  ∃ d ∈ p.classes, ∃ v ∈ d.vars, k = (d.name, v.name) ∧
    TakesForm W ((VType.scalar (.intOfSize (widest p d.ref))).vector W) v x

/-- All entries are for member variables. -/
def AreEntries (p : Program) (W : Nat) (l : PackedLayouts) : Prop :=
  ∀ e ∈ l.members, IsEntry p W e.1 e.2

/-- Packing a declared class makes entries for member variables. -/
lemma areEntries_packClassIn (hp : p.WellFormed) (hl : layouts.Fit p) : ∀ (fuel : Nat)
    {c : ClassRef} {l : PackedLayouts}, p.Valid (.cls .var c) → AreEntries p W l →
      AreEntries p W (packClassIn p layouts W fuel c l).2
  | 0, _, _, _, h => h
  | fuel + 1, c, l, hc, h => by
    obtain ⟨x, -, heq⟩ | ⟨-, ⟨-, heq⟩ | ⟨scalar, hscalar, -, heq⟩⟩ :=
      packClassIn_cases p layouts W fuel c l <;> rw [heq]
    · exact h
    · simpa [AreEntries] using h
    · unfold AreEntries
      rw [members_recorded]
      obtain ⟨d, hd, rfl⟩ := hc
      have hvars : ∀ v ∈ (p.classOf d.ref).vars, v ∈ d.vars := fun v hv => hp.classOf_eq hd ▸ hv
      refine packVars_induction (I := AreEntries p W) (fun l' _ _ h => h) _ _ true l ?_ ?_ h
      · intro v hv l' x hx h e he
        obtain he | he := List.mem_append.1 he
        · exact h e he
        · obtain rfl := List.mem_singleton.1 he
          have hname : scalar.name = d.name := (hl d hd scalar hscalar).name_eq
          exact ⟨d, hd, v, hvars v hv, by rw [hname], hx⟩
      · intro v hv q e hvt l' h
        exact areEntries_packClassIn hp hl fuel (Nests.valid hp ⟨v, hv, q, hvt⟩) h

/-- **Entries belong to member variables**. -/
theorem isEntry_of_lookup (hp : p.WellFormed) (hl : layouts.Fit p) (ds : Diagnostics)
    {k : String × String} {x : PackedMember}
    (h : (packAll p layouts W ds).members.lookup k = some x) : IsEntry p W k x := by
  have fold : ∀ (cs : List Class) (l : PackedLayouts), (∀ c ∈ cs, c ∈ p.classes) →
      AreEntries p W l →
      AreEntries p W (cs.foldl (fun l c => (packClass p layouts W c.ref l).2) l) := by
    intro cs
    induction cs with
    | nil => exact fun _ _ hl => hl
    | cons c cs ih =>
      intro l hcs h
      obtain ⟨hc, hcs⟩ := List.forall_mem_cons.1 hcs
      exact ih _ hcs (areEntries_packClassIn hp hl _ ⟨c, hc, rfl⟩ h)
  obtain ⟨l₁, l₂, hmem, -⟩ := List.lookup_eq_some_iff.1 h
  exact fold p.classes { diagnostics := ds } (fun _ => id) nofun (k, x) (by
    show (k, x) ∈ (packAll p layouts W ds).members
    simp [hmem])

/-! ## Members belong to member variables -/

/-- All classes that were looked at are declared. -/
def AreDeclared (p : Program) (l : Layouts) : Prop :=
  ∀ e ∈ l.classes, ∃ d ∈ p.classes, d.ref.id = e.1

/-- What laying out the classes among member variables keeps holds after they were placed. -/
lemma placeVars_induction {I : Layouts → Prop}
    (nested : ClassRef → Layouts → Option Struct × Layouts) :
    ∀ (vs : List MemberVar) (s : Struct) (ok : Bool) (l : Layouts),
      (∀ v ∈ vs, ∀ q c, v.type = .cls q c → ∀ l, I l → I (nested c l).2) → I l →
      I (placeVars nested vs s ok l).2 := by
  intro vs
  induction vs with
  | nil => exact fun _ _ _ _ hl => hl
  | cons v vs ih =>
    intro s ok l hnested hl
    obtain ⟨hv, hvs⟩ := List.forall_mem_cons.1 hnested
    unfold placeVars
    split
    · rename_i q c hvt
      have hc := hv q c hvt l hl
      split
      all_goals
        rename_i hres
        rw [hres] at hc
        exact ih _ _ _ hvs hc
    all_goals exact ih _ _ _ hvs hl

/-- Layouts that are built have entries for declared variables. -/
lemma areDeclared_layoutIn (hp : p.WellFormed) : ∀ (fuel : Nat) (building : List Class)
    {c : ClassRef} {l : Layouts}, p.Valid (.cls .var c) → AreDeclared p l →
      AreDeclared p (layoutIn p fuel building c l).2
  | 0, _, _, _, _, h => h
  | fuel + 1, building, c, l, hc, h => by
    unfold layoutIn
    split
    · exact h
    · simp only
      split
      · have hinner := placeVars_induction (I := AreDeclared p)
          (layoutIn p fuel (building ++ [p.classOf c])) (p.classOf c).vars
          (.empty (p.classOf c).name) true l (fun v hv q e hvt l' h' =>
            areDeclared_layoutIn hp fuel _ (Nests.valid hp ⟨v, hv, q, hvt⟩) h') h
        intro e he
        obtain he | he := List.mem_append.1 he
        · exact hinner e he
        · obtain rfl := List.mem_singleton.1 he
          obtain ⟨d, hd, rfl⟩ := hc
          exact ⟨d, hd, rfl⟩
      · exact h

/-- Only declared classes are laid out. -/
lemma areDeclared_layoutAll (hp : p.WellFormed) (ds : Diagnostics) :
    AreDeclared p (layoutAll p ds) := by
  have fold : ∀ (cs : List Class) (l : Layouts), (∀ c ∈ cs, c ∈ p.classes) → AreDeclared p l →
      AreDeclared p (cs.foldl (fun l c => (layout p c.ref l).2) l) := by
    intro cs
    induction cs with
    | nil => exact fun _ _ hl => hl
    | cons c cs ih =>
      intro l hcs h
      obtain ⟨hc, hcs⟩ := List.forall_mem_cons.1 hcs
      exact ih _ hcs (areDeclared_layoutIn hp _ _ ⟨c, hc, rfl⟩ h)
  exact fold p.classes { diagnostics := ds } (fun _ => id) nofun

/-- A member of a layout is for a member variable, or a field of a header. -/
lemma places_of_has (hp : p.WellFormed) (ds : Diagnostics) {m : StructMember}
    (h : (layoutAll p ds).Has m) :
    IsField m ∨ ∃ d ∈ p.classes, ∃ v ∈ d.vars, m.Places d.name v := by
  obtain rfl | rfl | ⟨c, s, hs, hm⟩ := h
  · exact .inl (.inl rfl)
  · exact .inl (.inr rfl)
  · obtain ⟨x, hx⟩ : ∃ x, (layoutAll p ds).find? c = some x := by
      cases hx : (layoutAll p ds).find? c with
      | none => simp [Layouts.struct?, hx] at hs
      | some x => exact ⟨x, rfl⟩
    obtain ⟨l₁, l₂, hl, -⟩ := List.lookup_eq_some_iff.1 hx
    obtain ⟨d, hd, hid⟩ := areDeclared_layoutAll hp ds (c.id, x) (by simp [hl])
    have hstruct : (layoutAll p ds).struct? d.ref = some s := by
      rw [← hs]
      simp [Layouts.struct?, Layouts.find?, show d.ref.id = c.id from hid]
    obtain ⟨v, hv, hplaces⟩ := exists_of_forall₂
      (List.Forall₂.flip (layoutAll_fit hp ds d hd s hstruct).places) hm
    exact .inr ⟨d, hd, v, hv, hplaces⟩

/-! ## Packed forms -/

/-- **Packed members that represent values** of a machine type: a mask for truth values, one value
that is shared by all instances, or a vector with one lane for each. -/
inductive Represents (W : Nat) : VType → PackedMember → Prop
  | mask {m : StructMember} {k : Kind} (hm : m.type? = some ⟨k, W⟩) (hk : k.isInteger) :
    Represents W .bool ⟨m, true⟩
  | shared {m : StructMember} {t : VType} (hm : m.type? = some t) (ht : t.lanes = 0)
      (hb : t ≠ .bool) : Represents W t ⟨m, false⟩
  | lanes {m : StructMember} {t : VType} (hm : m.type? = some (t.vector W)) (hb : t.kind ≠ .i1)
      (hp : t.kind ≠ .ptr) : Represents W t ⟨m, false⟩

/-- A type of a given size is one of integers. -/
lemma isInteger_intOfSize (n : Nat) : (Kind.intOfSize n).isInteger := by
  unfold Kind.intOfSize
  split <;> rfl

/-- The packed form of the values of a member variable represents them. -/
lemma TakesForm.represents {v : MemberVar} {x : PackedMember} {n : Nat}
    (h : TakesForm W ((VType.scalar (.intOfSize n)).vector W) v x) (hv : v.type.isAtomic) :
    Represents W v.type.code x := by
  obtain ⟨m, b⟩ := x
  obtain ⟨hshape, rfl⟩ := h hv
  have htype : m.type? = some (packValue W ((VType.scalar (.intOfSize n)).vector W)
      v.type.code).1 := by
    rw [StructMember.type?, hshape]
  generalize hmask : (VType.scalar (.intOfSize n)).vector W = mask at htype ⊢
  unfold packValue at htype ⊢
  split at htype <;> rename_i hk
  · have hcode : v.type.code = .bool := by
      rw [← show (⟨v.type.code.kind, v.type.code.lanes⟩ : VType) = v.type.code from rfl, hk,
        lanes_code]
      rfl
    rw [hcode]
    exact .mask (k := .intOfSize n) (htype.trans (congrArg some hmask.symm))
      (isInteger_intOfSize n)
  · dsimp only
    exact .shared htype (lanes_code _) fun hb => by rw [hb] at hk; cases hk
  · exact .lanes htype ‹_› ‹_›

/-- The members along a path. -/
@[simp] lemma path_ofPath (π : List StructMember) : (Offset.ofPath π).path = π := by
  have : ∀ (π : List StructMember) (o : Offset), (π.foldl Offset.add o).path = o.path ++ π := by
    intro π
    induction π with
    | nil => simp
    | cons m π ih => intro o; simp [ih, Offset.add]
  simpa [Offset.ofPath] using this π {}

/-- What is mapped entry by entry. -/
lemma forall₂_of_mapM {α β : Type} {f : α → Option β} : ∀ {as : List α} {bs : List β},
    as.mapM f = some bs → List.Forall₂ (fun a b => f a = some b) as bs
  | [], bs, h => by
    obtain rfl : [] = bs := by simpa using h
    exact .nil
  | a :: as, bs, h => by
    rw [List.mapM_cons] at h
    obtain ⟨b, hb, h⟩ := Option.bind_eq_some_iff.1 h
    obtain ⟨bs', hbs, h⟩ := Option.bind_eq_some_iff.1 h
    obtain rfl : b :: bs' = bs := Option.some.inj h
    exact .cons hb (forall₂_of_mapM hbs)

/-- What is related to a list ends in what is related to its last entry. -/
lemma getLast?_of_forall₂ {α β : Type} {r : α → β → Prop} {as : List α} {bs : List β} {b : β}
    (h : List.Forall₂ r as bs) (hb : bs.getLast? = some b) :
    ∃ a, as.getLast? = some a ∧ r a b := by
  rw [List.getLast?_eq_getElem?] at hb
  obtain ⟨hlt, rfl⟩ := List.getElem?_eq_some_iff.1 hb
  have hlen := h.length_eq
  refine ⟨as.get ⟨bs.length - 1, hlen ▸ hlt⟩, ?_, h.get _ hlt⟩
  rw [List.getLast?_eq_getElem?, List.getElem?_eq_some_iff]
  exact ⟨hlen ▸ hlt, by simp [hlen]⟩

/-- What is known about a path that leads somewhere in a packed layout. -/
lemma of_offset?_eq_some {o : Option Offset} {off : Offset} {last : PackedMember}
    (h : l.offset? o = some (off, last)) : Offset.last? (some off) = some last.member ∧
      ∃ m, Offset.last? o = some m ∧ l.member? m = some last := by
  unfold PackedLayouts.offset? at h
  simp only [Option.bind_eq_bind, Option.bind_eq_some_iff, Option.pure_def, Option.some.injEq,
    Prod.mk.injEq] at h
  obtain ⟨o, rfl, path, hpath, x, hx, rfl, rfl⟩ := h
  have hall : List.Forall₂ (fun m x => l.member? m = some x) o.path path := forall₂_of_mapM hpath
  obtain ⟨m, hm, hlast⟩ := getLast?_of_forall₂ hall hx
  exact ⟨by simp [Offset.last?, hx], m, hm, hlast⟩

/-- **Paths to machine values** lead to their packed form. -/
theorem offset?_represents (hp : p.WellFormed) (ds ds' : Diagnostics) {o : Option Offset}
    (ho : (layoutAll p ds).Leads o) {off : Offset} {last : PackedMember}
    (h : (packAll p (layoutAll p ds) W ds').offset? o = some (off, last)) :
    ∃ m, Offset.last? o = some m ∧ Offset.last? (some off) = some last.member ∧
      ∀ t, m.type? = some t → Represents W t last := by
  obtain ⟨hoff, m, hm, hlast⟩ := of_offset?_eq_some h
  refine ⟨m, hm, hoff, fun t ht => ?_⟩
  obtain hfield | ⟨d, hd, v, hv, hplaces⟩ := places_of_has hp ds (ho m hm)
  · obtain rfl : (⟨m, false⟩ : PackedMember) = last := by
      obtain rfl | rfl := hfield <;> exact Option.some.inj hlast
    obtain rfl | rfl := hfield <;> obtain rfl := Option.some.inj ht <;>
      exact .shared rfl rfl (by decide)
  · have hatomic : v.type.isAtomic := by
      have hholds := hplaces.holds
      cases hvt : v.type with
      | scalar | ptr => rfl
      | cls =>
        rw [hvt] at hholds
        obtain ⟨_, _, _, _, hshape⟩ := hholds
        simp [StructMember.type?, hshape] at ht
      | container =>
        rw [hvt] at hholds
        simp [StructMember.type?, show m.shape = .header from hholds] at ht
      | error =>
        rw [hvt] at hholds
        exact hholds.elim
    obtain rfl := Option.some.inj (ht.symm.trans (hplaces.holds.type?_eq hatomic))
    simp only [PackedLayouts.member?, hplaces.owner_eq] at hlast
    obtain ⟨d', hd', v', hv', hkey, hform⟩ := isEntry_of_lookup hp (layoutAll_fit hp ds) ds' hlast
    obtain ⟨hdname, hvname⟩ := Prod.mk.inj hkey
    obtain rfl := List.inj_on_of_nodup_map hp.names_nodup hd hd' hdname
    obtain rfl := List.inj_on_of_nodup_map (hp.classes_valid d hd).var_names hv hv'
      (hplaces.name_eq.symm.trans hvname)
    exact hform.represents hatomic

end Lane.Packing
