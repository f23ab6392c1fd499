import Lane.Proofs.Lowering.Widths
import Lane.Proofs.Packing.Layouts

set_option relaxedAutoImplicit false
set_option autoImplicit false

/-!
# Packed layouts for different widths

With two lanes or more, the packed layouts of a program have the same members for all widths:
vectors where there are vectors, and masks where there are masks. Only their sizes differ.

## Main definitions

* `Lane.Packing.AlikeEntries`: lists that associate the same keys with related values.
* `Lane.Packing.PackedLayouts.Alike`: packed layouts with members of the same form.

## Main results

* `Lane.Packing.packAll_alike`: the packed layouts of a program.
* `Lane.Packing.offset?_alike`: where paths lead.
-/

namespace Lane.Packing

open Lane.Code Lane.Lowering

/-! ## Entries -/

/-- Related options are both there, or both not. -/
lemma of_rel {α β : Type} {R : α → β → Prop} {x : Option α} {y : Option β} (h : Option.Rel R x y) :
    x = none ∧ y = none ∨ ∃ a b, x = some a ∧ y = some b ∧ R a b := by
  cases h with
  | none => exact .inl ⟨rfl, rfl⟩
  | some h => exact .inr ⟨_, _, rfl, rfl, h⟩

/-- **Alike entries**: the same keys in the same order, and related values. -/
def AlikeEntries {κ α β : Type} (R : α → β → Prop) : List (κ × α) → List (κ × β) → Prop :=
  List.Forall₂ fun x y => x.1 = y.1 ∧ R x.2 y.2

section Entries

variable {κ α β : Type} [BEq κ] {R : α → β → Prop} {xs : List (κ × α)} {ys : List (κ × β)}

/-- What is found under a key is related. -/
lemma AlikeEntries.lookup (h : AlikeEntries R xs ys) (k : κ) :
    Option.Rel R (xs.lookup k) (ys.lookup k) := by
  induction h with
  | nil => exact .none
  | @cons x y xs ys hxy _ ih =>
    obtain ⟨a, b⟩ := x
    obtain ⟨c, d⟩ := y
    obtain ⟨rfl, hbd⟩ : a = c ∧ R b d := hxy
    rw [List.lookup_cons, List.lookup_cons]
    split
    · exact .some hbd
    · exact ih

omit [BEq κ] in
/-- Lists of entries that are alike, in sequence. -/
lemma AlikeEntries.append {xs' : List (κ × α)} {ys' : List (κ × β)} (h : AlikeEntries R xs ys)
    (h' : AlikeEntries R xs' ys') : AlikeEntries R (xs ++ xs') (ys ++ ys') :=
  List.rel_append h h'

omit [BEq κ] in
/-- An entry is added on both sides. -/
lemma AlikeEntries.concat {k : κ} {a : α} {b : β} (h : AlikeEntries R xs ys) (hab : R a b) :
    AlikeEntries R (xs ++ [(k, a)]) (ys ++ [(k, b)]) :=
  h.append (.cons ⟨rfl, hab⟩ .nil)

end Entries

/-! ## Members -/

/-- Members of the same form. -/
structure PackedMember.Alike (x x' : PackedMember) : Prop where
  isMask_eq : x.isMask = x'.isMask
  isVector_eq : x.member.isVector = x'.member.isVector

/-- A member is like itself. -/
lemma PackedMember.Alike.refl (x : PackedMember) : x.Alike x := ⟨rfl, rfl⟩

/-- Structs that are both there, or both not. -/
def AlikeOption {α β : Type} : Option α → Option β → Prop := Option.Rel fun _ _ => True

/-- **Alike layouts**: the same classes have packed layouts, with members of the same form, and the
same errors were reported. -/
structure PackedLayouts.Alike (l l' : PackedLayouts) : Prop where
  classes : AlikeEntries AlikeOption l.classes l'.classes
  byName : AlikeEntries (fun _ _ => True) l.byName l'.byName
  members : AlikeEntries PackedMember.Alike l.members l'.members
  diagnostics_eq : l.diagnostics = l'.diagnostics
  errors_eq : l.errors = l'.errors

section Layouts

variable {l l' : PackedLayouts} {W W' : Nat}

namespace PackedLayouts.Alike

/-- Layouts stay alike when the same is reported. -/
lemma report (h : l.Alike l') (pos : Position) (m : String) :
    (l.report pos m).Alike (l'.report pos m) :=
  ⟨h.classes, h.byName, h.members, congrArg (Diagnostics.push · _) h.diagnostics_eq,
    congrArg (· + 1) h.errors_eq⟩

/-- What is known about a class on both sides. -/
lemma struct? (h : l.Alike l') (c : ClassRef) : AlikeOption (l.struct? c) (l'.struct? c) := by
  unfold PackedLayouts.struct?
  have hfound := h.classes.lookup c.id
  revert hfound
  generalize l.classes.lookup c.id = x, l'.classes.lookup c.id = x'
  rintro (hs | _)
  · exact hs
  · exact .none

/-- What was found out about a class is recorded on both sides. -/
lemma recorded (h : l.Alike l') (c : ClassRef) (n : String) {s s' : Option Struct}
    (hs : AlikeOption s s') : (recorded c n s l).Alike (recorded c n s' l') := by
  cases hs with
  | none => exact ⟨h.classes.concat .none, h.byName, h.members, h.diagnostics_eq, h.errors_eq⟩
  | some _ =>
    exact ⟨h.classes.concat (.some trivial), h.byName.concat trivial, h.members, h.diagnostics_eq,
      h.errors_eq⟩

/-- A member is placed on both sides. -/
lemma placed (h : l.Alike l') (scalar : Struct) (name : String) {x x' : PackedMember}
    (hx : x.Alike x') :
    PackedLayouts.Alike { l with members := l.members ++ [((scalar.name, name), x)] }
      { l' with members := l'.members ++ [((scalar.name, name), x')] } :=
  ⟨h.classes, h.byName, h.members.concat hx, h.diagnostics_eq, h.errors_eq⟩

/-- The member that belongs to a member. -/
lemma member? (h : l.Alike l') (m : StructMember) :
    Option.Rel PackedMember.Alike (l.member? m) (l'.member? m) := by
  unfold PackedLayouts.member?
  split
  · exact .some (.refl _)
  · exact h.members.lookup _

end PackedLayouts.Alike

/-- A member that is no machine value is no vector. -/
lemma isVector_of_type?_eq_none {m : StructMember} (h : m.type? = none) : m.isVector = false := by
  rw [StructMember.isVector, h]
  rfl

/-- The packed form of a machine value for two widths. -/
lemma packValue_alike (hW : 2 ≤ W) (hW' : 2 ≤ W') (k : Kind) (t : VType) :
    (packValue W ((VType.scalar k).vector W) t).2 =
      (packValue W' ((VType.scalar k).vector W') t).2 ∧
      (packValue W ((VType.scalar k).vector W) t).1.isVector =
        (packValue W' ((VType.scalar k).vector W') t).1.isVector := by
  have h : decide (W > 1) = decide (W' > 1) := by simp; omega
  unfold packValue
  split
  · exact ⟨rfl, h⟩
  · exact ⟨rfl, rfl⟩
  · exact ⟨rfl, h⟩

/-- **Member variables are packed alike**, if the classes among them are. -/
lemma packVars_alike (hW : 2 ≤ W) (hW' : 2 ≤ W') (cls : Class) (scalar : Struct) (k : Kind)
    {nested nested' : ClassRef → PackedLayouts → Option Struct × PackedLayouts}
    (hnested : ∀ c l l', l.Alike l' → AlikeOption (nested c l).1 (nested' c l').1 ∧
      (nested c l).2.Alike (nested' c l').2) :
    ∀ (vs : List MemberVar) (s s' : Struct) (ok : Bool) (l l' : PackedLayouts), l.Alike l' →
      AlikeOption (packVars cls scalar W ((VType.scalar k).vector W) nested vs s ok l).1
          (packVars cls scalar W' ((VType.scalar k).vector W') nested' vs s' ok l').1 ∧
        (packVars cls scalar W ((VType.scalar k).vector W) nested vs s ok l).2.Alike
          (packVars cls scalar W' ((VType.scalar k).vector W') nested' vs s' ok l').2
  | [], s, s', ok, l, l', h => by
    refine ⟨?_, h⟩
    cases ok
    · exact .none
    · exact .some trivial
  | v :: vs, s, s', ok, l, l', h => by
    unfold packVars
    simp only [placePacked_eq]
    split
    · rename_i c _
      split
      · exact packVars_alike hW hW' cls scalar k hnested vs s s' false _ _ (h.report _ _)
      · obtain ⟨hs, hl⟩ := hnested c l l' h
        rcases hn : nested c l with ⟨x, m⟩
        rcases hn' : nested' c l' with ⟨x', m'⟩
        rw [hn, hn'] at hs hl
        cases hs with
        | none => exact packVars_alike hW hW' cls scalar k hnested vs s s' false m m' hl
        | some _ =>
          exact packVars_alike hW hW' cls scalar k hnested vs _ _ ok _ _ (hl.placed _ _ ⟨rfl, rfl⟩)
    · exact packVars_alike hW hW' cls scalar k hnested vs _ _ ok _ _ (h.placed _ _ ⟨rfl, rfl⟩)
    · obtain ⟨hmask, hvector⟩ := packValue_alike hW hW' k v.type.code
      exact packVars_alike hW hW' cls scalar k hnested vs _ _ ok _ _ (h.placed _ _ ⟨hmask, hvector⟩)

/-- **Classes are packed alike**. -/
lemma packClassIn_alike (hW : 2 ≤ W) (hW' : 2 ≤ W') (p : Program) (layouts : Layouts) :
    ∀ (fuel : Nat) (c : ClassRef) (l l' : PackedLayouts), l.Alike l' →
      AlikeOption (packClassIn p layouts W fuel c l).1 (packClassIn p layouts W' fuel c l').1 ∧
        (packClassIn p layouts W fuel c l).2.Alike (packClassIn p layouts W' fuel c l').2
  | 0, _, _, _, h => ⟨.none, h⟩
  | fuel + 1, c, l, l', h => by
    have hfound := h.classes.lookup c.id
    revert hfound
    unfold packClassIn
    generalize l.classes.lookup c.id = x, l'.classes.lookup c.id = x'
    rintro (hs | _)
    · exact ⟨hs, h⟩
    · dsimp only
      split
      · exact ⟨.none, h.recorded c "" .none⟩
      · rename_i scalar _
        have hvars := packVars_alike hW hW' (p.classOf c) scalar (.intOfSize (widest p c))
          (packClassIn_alike hW hW' p layouts fuel) (p.classOf c).vars
            { name := (p.classOf c).name ++ ".x" ++ toString W, isPacked := true, lanes := W }
          { name := (p.classOf c).name ++ ".x" ++ toString W', isPacked := true, lanes := W' }
          true l l' h
        revert hvars
        generalize packVars _ _ W _ _ _ _ _ _ = r, packVars _ _ W' _ _ _ _ _ _ = r'
        obtain ⟨s, m⟩ := r
        obtain ⟨s', m'⟩ := r'
        rintro ⟨hs, hl⟩
        have hrec := hl.recorded c scalar.name hs
        cases hs with
        | none => exact ⟨.none, hrec⟩
        | some _ => exact ⟨.some trivial, hrec⟩

/-- **The packed layouts of a program** are alike for all widths. -/
theorem packAll_alike (hW : 2 ≤ W) (hW' : 2 ≤ W') (p : Program) (layouts : Layouts)
    (ds : Diagnostics) : (packAll p layouts W ds).Alike (packAll p layouts W' ds) := by
  have hclasses : ∀ (cs : List Class) (l l' : PackedLayouts), l.Alike l' →
      (cs.foldl (fun l c => (packClass p layouts W c.ref l).2) l).Alike
        (cs.foldl (fun l c => (packClass p layouts W' c.ref l).2) l') := by
    intro cs
    induction cs with
    | nil => exact fun _ _ => id
    | cons c cs ih =>
      exact fun l l' h => ih _ _ (packClassIn_alike hW hW' p layouts _ c.ref l l' h).2
  exact hclasses _ _ _ ⟨.nil, .nil, .nil, rfl, rfl⟩

/-- **Where paths lead**, if the members on them are alike. -/
theorem offset?_alike
    (h : ∀ m, Option.Rel PackedMember.Alike (l.member? m) (l'.member? m)) (o : Option Offset) :
    Option.Rel (fun r r' => r.2.Alike r'.2) (l.offset? o) (l'.offset? o) := by
  have hpath : ∀ ms : List StructMember, Option.Rel (List.Forall₂ PackedMember.Alike)
      (ms.mapM l.member?) (ms.mapM l'.member?) := by
    intro ms
    induction ms with
    | nil => exact .some .nil
    | cons m ms ih =>
      rw [List.mapM_cons, List.mapM_cons]
      have hm := h m
      revert hm ih
      generalize l.member? m = x, l'.member? m = x', ms.mapM l.member? = xs,
        ms.mapM l'.member? = xs'
      rintro (hxs | _) (hx | _)
      · exact .some (.cons hx hxs)
      all_goals exact .none
  cases o with
  | none => exact .none
  | some o =>
    have hms := hpath o.path
    show Option.Rel _ (o.path.mapM l.member? >>= _) (o.path.mapM l'.member? >>= _)
    revert hms
    generalize o.path.mapM l.member? = xs, o.path.mapM l'.member? = xs'
    rintro (hxs | _)
    · rename_i xs ys
      have hlast : Option.Rel PackedMember.Alike xs.getLast? ys.getLast? := by
        have hrev := List.rel_reverse hxs
        rw [List.getLast?_eq_head?_reverse, List.getLast?_eq_head?_reverse]
        revert hrev
        generalize xs.reverse = xs, ys.reverse = ys
        rintro (_ | ⟨hx, -⟩)
        · exact .none
        · exact .some hx
      show Option.Rel _ (xs.getLast? >>= _) (ys.getLast? >>= _)
      revert hlast
      generalize xs.getLast? = x, ys.getLast? = y
      rintro (hx | _)
      · exact .some hx
      · exact .none
    · exact .none

/-- Where paths lead, alike for all widths. -/
lemma PackedLayouts.Alike.offset? (h : l.Alike l') (o : Option Offset) :
    Option.Rel (fun r r' => r.2.Alike r'.2) (l.offset? o) (l'.offset? o) :=
  offset?_alike h.member? o

end Layouts

end Lane.Packing
