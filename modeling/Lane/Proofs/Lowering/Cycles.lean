import Lane.Proofs.Analysis.Steps
import Lane.Proofs.Lowering.Layout
import Mathlib.Data.List.Perm.Subperm
import Mathlib.Data.List.TakeWhile

set_option relaxedAutoImplicit false
set_option autoImplicit false

/-!
# Classes without a layout are reported

A class has no layout only because it holds itself, or a class that has none. So an error is
reported while the classes of a program are laid out if and only if one of them has no layout in the
end.

## Main definitions

* `Lane.Diagnostics.Reported`: diagnostics after some errors were reported and counted.
* `Lane.Lowering.Layouts.Tells`: errors were reported if and only if something has no layout.

## Main results

* `Lane.Lowering.layoutAll_reported`: the errors of the layouts of a program are reported.
* `Lane.Lowering.layoutAll_errors_iff`: there are such errors if and only if a class has no layout.
-/

namespace Lane

/-! ## Errors that are counted -/

/-- **Reported errors**: `es` are the diagnostics `ds` with `n` errors after them. -/
def Diagnostics.Reported (ds : Diagnostics) (n : Nat) (es : Diagnostics) : Prop :=
  ∃ found : List Diagnostic, es = ds.append found ∧ (∀ x ∈ found, x.isError) ∧ n = found.length

namespace Diagnostics.Reported

variable {ds es fs : Diagnostics} {m n : Nat}

/-- Nothing is reported. -/
lemma refl (ds : Diagnostics) : ds.Reported 0 ds :=
  ⟨[], ds.append_nil.symm, by simp, rfl⟩

/-- Reports of two steps are counted together. -/
lemma trans (h : ds.Reported m es) (h' : es.Reported n fs) : ds.Reported (m + n) fs := by
  obtain ⟨found, rfl, herr, rfl⟩ := h
  obtain ⟨more, rfl, hmore, rfl⟩ := h'
  refine ⟨found ++ more, ds.append_append found more, fun x hx => ?_, List.length_append.symm⟩
  exact (List.mem_append.1 hx).elim (herr x) (hmore x)

/-- An error is one report more. -/
lemma push (h : ds.Reported n es) {x : Diagnostic} (hx : x.isError) :
    ds.Reported (n + 1) (es.push x) :=
  h.trans ⟨[x], by simp [Diagnostics.push, Diagnostics.append], by simpa using hx, rfl⟩

end Diagnostics.Reported

namespace Lowering

open Code (Struct)

variable {p : Program}

/-- All errors about layouts are counted. -/
lemma layoutIn_reported {ds : Diagnostics} : ∀ (fuel : Nat) (building : List Class) (c : ClassRef)
    (l : Layouts), ds.Reported l.errors l.diagnostics →
    ds.Reported (layoutIn p fuel building c l).2.errors (layoutIn p fuel building c l).2.diagnostics
  | 0, _, _, _, h => h
  | fuel + 1, building, c, l, h => by
    unfold layoutIn
    split
    · exact h
    · simp only
      split
      · exact (placeVars_placed (I := fun l => ds.Reported l.errors l.diagnostics)
          (layoutIn_reported fuel _) _ _ true l h).1
      · exact h.push rfl

/-- **Reported errors** of the layouts of a program. -/
theorem layoutAll_reported (ds : Diagnostics) :
    ds.Reported (layoutAll p ds).errors (layoutAll p ds).diagnostics := by
  have fold : ∀ (cs : List Class) (l : Layouts), ds.Reported l.errors l.diagnostics →
      ds.Reported (cs.foldl (fun l c => (layout p c.ref l).2) l).errors
        (cs.foldl (fun l c => (layout p c.ref l).2) l).diagnostics := by
    intro cs
    induction cs with
    | nil => exact fun _ h => h
    | cons c cs ih => exact fun l h => ih _ (layoutIn_reported _ _ _ _ h)
  exact fold _ _ (.refl ds)

/-! ## Classes that are being laid out -/

/-- **Chains of classes**: declared classes, each of them once, and fuel for all others. -/
structure IsBuilding (p : Program) (fuel : Nat) (building : List Class) : Prop where
  declared : ∀ b ∈ building, b ∈ p.classes
  nodup : building.Nodup
  length_lt : p.classes.length < fuel + building.length

/-- The fuel lasts: a chain is no longer than the list of all classes. -/
lemma IsBuilding.fuel_pos {fuel : Nat} {building : List Class} (h : IsBuilding p fuel building) :
    0 < fuel := by
  have hle : building.length ≤ p.classes.length :=
    (List.subperm_of_subset h.nodup h.declared).length_le
  have := h.length_lt
  omega

/-- Another class is laid out. -/
lemma IsBuilding.push {fuel : Nat} {building : List Class} {c : Class}
    (h : IsBuilding p (fuel + 1) building) (hc : c ∈ p.classes) (hnew : c ∉ building) :
    IsBuilding p fuel (building ++ [c]) where
  declared b hb := (List.mem_append.1 hb).elim (h.declared b) fun hb => by
    rwa [List.mem_singleton.1 hb]
  nodup := h.nodup.append (List.nodup_singleton c) (by simpa using hnew)
  length_lt := by
    have := h.length_lt
    rw [List.length_append, List.length_singleton]
    omega

/-! ## Errors and missing layouts -/

/-- Some class has no layout. -/
def Layouts.Lacks (l : Layouts) : Prop := ∃ e ∈ l.classes, e.2 = none

/-- **Telling layouts**: an error was reported if and only if a class has no layout, or is found to
have none, as `pending` says. -/
def Layouts.Tells (l : Layouts) (pending : Prop) : Prop := 0 < l.errors ↔ pending ∨ l.Lacks

/-- Layouts tell what is equivalent. -/
lemma Layouts.Tells.congr {l : Layouts} {P Q : Prop} (h : l.Tells P) (hpq : P ↔ Q) : l.Tells Q :=
  h.trans (or_congr_left hpq)

/-- A class that is found to have no layout is recorded as one. -/
lemma Layouts.Tells.record {l : Layouts} {P : Prop} {c : ClassRef} {s : Option Struct}
    (h : l.Tells (P ∨ s = none)) : (l.record c s).Tells (P ∨ s = none) := by
  have hlacks : (l.record c s).Lacks ↔ l.Lacks ∨ s = none := by
    simp [Lacks, Layouts.record, or_and_right, exists_or]
  unfold Tells at h ⊢
  rw [hlacks]
  exact h.trans (by tauto)

/-- Placing member variables tells of those that have no layout.

**Proof sketch.** By induction on the variables; `ok` is pending until the struct is given up. Only
a class among the variables can have no layout, as none of them has a type that is an error. -/
lemma placeVars_tells {nested : ClassRef → Layouts → Option Struct × Layouts} :
    ∀ (vs : List MemberVar), (∀ v ∈ vs, v.type.isError = false) →
      (∀ v ∈ vs, ∀ q c, v.type = .cls q c → ∀ (l : Layouts) (P : Prop), l.Tells P →
        (nested c l).2.Tells (P ∨ (nested c l).1 = none)) →
      ∀ (s : Struct) (ok : Bool) (l : Layouts) (P : Prop), l.Tells (P ∨ ok = false) →
        (placeVars nested vs s ok l).2.Tells (P ∨ (placeVars nested vs s ok l).1 = none) := by
  intro vs
  induction vs with
  | nil =>
    intro _ _ s ok l P hl
    cases ok <;> exact hl.congr (by simp [placeVars])
  | cons v vs ih =>
    intro herr hn s ok l P hl
    obtain ⟨hv, hvs⟩ := List.forall_mem_cons.1 herr
    obtain ⟨hnv, hnvs⟩ := List.forall_mem_cons.1 hn
    unfold placeVars
    split
    · rename_i q c ht
      have hc := hnv q c ht l _ hl
      split
      · rename_i t l' hnested
        rw [hnested] at hc
        exact ih hvs hnvs _ ok l' P (hc.congr (by simp))
      · rename_i l' hnested
        rw [hnested] at hc
        exact ih hvs hnvs s false l' P (hc.congr (by simp))
    · exact ih hvs hnvs _ ok l P hl
    · rename_i ht
      rw [ht] at hv
      cases hv
    · exact ih hvs hnvs _ ok l P hl

/-- Laying out a class tells if it has no layout.

**Proof sketch.** By induction on the fuel, which lasts because a chain of classes has no class
twice. A class has no layout because an earlier attempt failed, because it is in the chain, which is
reported, or because one of its variables has none. -/
lemma layoutIn_tells (hp : p.WellFormed) : ∀ (fuel : Nat) (building : List Class) (c : ClassRef)
    (l : Layouts) (P : Prop), IsBuilding p fuel building → c ∈ p.classes.map Class.ref →
    l.Tells P → (layoutIn p fuel building c l).2.Tells (P ∨ (layoutIn p fuel building c l).1 = none)
  | 0, _, _, _, _, hb, _, _ => absurd hb.fuel_pos (by simp)
  | fuel + 1, building, c, l, P, hb, hc, hl => by
    unfold layoutIn
    split
    · rename_i s hfind
      -- What is known not to have a layout is on record.
      have hlacks : s = none → l.Lacks := fun hs => by
        obtain ⟨l₁, l₂, hcs, -⟩ := List.lookup_eq_some_iff.1 hfind
        exact ⟨(c.id, s), by simp [hcs], hs⟩
      exact hl.trans (by simp only; tauto)
    · obtain ⟨hmem, href⟩ := hp.numbered.classOf_mem hc
      simp only
      split
      · rename_i hchain
        have hnew : p.classOf c ∉ building := fun hin => by
          have hall := List.dropWhile_eq_nil_iff.1 (List.isEmpty_iff.1 hchain) _ hin
          simp [href] at hall
        refine (placeVars_tells _ (fun v hv => ?_) (fun v hv q d ht l P hl => ?_) _ true l P
          (hl.congr (by simp))).record
        · exact ((hp.classes_valid _ hmem).vars_own v hv).2.isError_eq_false
        · have hd := ((hp.classes_valid _ hmem).vars_own v hv).2
          rw [ht] at hd
          exact layoutIn_tells hp fuel _ d l P (hb.push hmem hnew) (List.mem_map.2 hd) hl
      · simp [Layouts.Tells, Layouts.reportCycle]

/-- A class that is laid out on its own is recorded. -/
lemma lacks_layout {c : ClassRef} {l : Layouts} (h : (layout p c l).1 = none) :
    (layout p c l).2.Lacks := by
  unfold layout layoutIn at h ⊢
  split
  · rename_i s hfind
    rw [hfind] at h
    obtain ⟨l₁, l₂, hcs, -⟩ := List.lookup_eq_some_iff.1 hfind
    exact ⟨(c.id, s), by simp [hcs], h⟩
  · rename_i hnone
    simp only [hnone, List.dropWhile_nil, List.isEmpty_nil, if_true] at h ⊢
    exact ⟨(c.id, _), by simp [Layouts.record], h⟩

/-- **Classes without a layout are reported**: there are errors about the layouts of a program if
and only if a class has none. -/
theorem layoutAll_errors_iff (hp : p.WellFormed) (ds : Diagnostics) :
    0 < (layoutAll p ds).errors ↔ (layoutAll p ds).classes.any fun (_, s) => s.isNone := by
  have fold : ∀ (cs : List Class) (l : Layouts), (∀ c ∈ cs, c ∈ p.classes) → l.Tells False →
      (cs.foldl (fun l c => (layout p c.ref l).2) l).Tells False := by
    intro cs
    induction cs with
    | nil => exact fun _ _ hl => hl
    | cons c cs ih =>
      intro l hcs hl
      obtain ⟨hc, hcs⟩ := List.forall_mem_cons.1 hcs
      refine ih _ hcs ?_
      have hstart : IsBuilding p (p.classes.length + 1) [] :=
        ⟨by simp, List.nodup_nil, by simp⟩
      have htold := layoutIn_tells hp _ [] c.ref l False hstart (List.mem_map_of_mem hc) hl
      have hlacks := lacks_layout (p := p) (c := c.ref) (l := l)
      exact htold.trans (by unfold layout at hlacks ⊢; tauto)
  have hall : (layoutAll p ds).Tells False :=
    fold _ _ (fun _ h => h) (by simp [Layouts.Tells, Layouts.Lacks])
  refine hall.trans ?_
  simp [Layouts.Lacks, List.any_eq_true, Option.isNone_iff_eq_none]

end Lowering

end Lane
