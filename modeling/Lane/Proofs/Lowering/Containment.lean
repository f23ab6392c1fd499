import Lane.Proofs.Lowering.Structs
import Mathlib.Data.List.Chain

set_option relaxedAutoImplicit false
set_option autoImplicit false

/-!
# Cycles of classes

A class has no layout if and only if it holds, directly or through others, a class that holds
itself. The classes that are being laid out hold each other, so that a class that is met again among
them lies on a cycle, which is what is reported. All others have a layout, whose struct comes after
those of the classes that it holds.

## Main definitions

* `Lane.Lowering.IsCyclic`: classes that include a class on a cycle.
* `Lane.Lowering.IsCycleReport`: reports of cycles that exist.
* `Lane.Lowering.Descends`: the calls that laying out a class makes.
* `Lane.Lowering.Layouts.IsExact`, `Lane.Lowering.Layouts.IsSorted`: what layouts keep.

## Main results

* `Lane.Lowering.acc_descends`: laying out a class comes to an end.
* `Lane.Lowering.layout_eq_none_iff`: which classes have no layout.
* `Lane.Lowering.layoutAll_found`: cycles are reported if and only if there are any.
* `Lane.Lowering.exists_perm_structs`: the structs of a program without cycles.
-/

namespace Lane.Lowering

open Code (Struct)

variable {p : Program} {c d : ClassRef}

/-! ## Cycles -/

/-- A class lies on a cycle: it holds itself, directly or through others. -/
def IsOnCycle (p : Program) (c : ClassRef) : Prop := Relation.TransGen (Nests p) c c

/-- **Cyclic classes** include a class on a cycle. -/
def IsCyclic (p : Program) (c : ClassRef) : Prop := ∃ d, Includes p c d ∧ IsOnCycle p d

/-- **Reports of cycles**: declared classes, each of which holds the next, from a class to
itself. -/
def IsCycleReport (p : Program) (x : Diagnostic) : Prop :=
  ∃ (c : Class) (chain : List Class), (∀ b ∈ c :: chain, b ∈ p.classes) ∧
    List.IsChain (Nests p) ((c :: chain ++ [c]).map Class.ref) ∧
    x = .error .cyclicLayout c.pos ("class " ++ c.name ++ " contains itself by value: " ++
      " -> ".intercalate ((c :: chain ++ [c]).map Class.name))

/-- A class on a cycle is cyclic. -/
lemma IsOnCycle.isCyclic (h : IsOnCycle p c) : IsCyclic p c := ⟨c, .refl, h⟩

/-- A class that holds a cyclic one is cyclic. -/
lemma IsCyclic.of_nests (hc : Nests p c d) (h : IsCyclic p d) : IsCyclic p c := by
  obtain ⟨e, he, hcycle⟩ := h
  exact ⟨e, .head hc he, hcycle⟩

/-- A grounded class includes no class on a cycle. -/
lemma IsGrounded.not_isCyclic (h : IsGrounded p c) : ¬IsCyclic p c := by
  rintro ⟨d, hd, hcycle⟩
  induction hd using Relation.ReflTransGen.head_induction_on with
  | refl => exact h.not_holds hcycle
  | head hnests _ ih => exact ih (h.inv hnests)

/-- The first of a chain is related to the last, in one or more steps. -/
lemma transGen_of_isChain {α : Type} {r : α → α → Prop} {b : α} : ∀ {as : List α} {a : α},
    List.IsChain r (a :: as ++ [b]) → Relation.TransGen r a b
  | [], a, h => .single (by simpa using h)
  | x :: as, a, h => by
    obtain ⟨hx, hrest⟩ := List.isChain_cons_cons.1 h
    exact .head hx (transGen_of_isChain hrest)

/-! ## The calls that are made -/

/-- **The calls that laying out a class makes**: it lays out the classes that it holds, itself being
one of those that are being laid out. Calls that are saved by what is on record are not left out. -/
def Descends (p : Program) (x y : List Class × ClassRef) : Prop :=
  (∀ b ∈ y.1, b.ref.id ≠ y.2.id) ∧ x.1 = y.1 ++ [p.classOf y.2] ∧ Nests p y.2 x.2

/-- **Laying out a class comes to an end**: no chain of calls goes on for ever.

**Proof sketch.** By induction on the fuel, which lasts because a chain of classes that are being
laid out has no class twice. -/
lemma acc_descends (hp : p.WellFormed) : ∀ (fuel : Nat) (building : List Class) (c : ClassRef),
    IsBuilding p fuel building → c ∈ p.classes.map Class.ref → Acc (Descends p) (building, c)
  | 0, _, _, hb, _ => absurd hb.fuel_pos (by simp)
  | fuel + 1, building, c, hb, hc => by
    obtain ⟨hmem, href⟩ := hp.numbered.classOf_mem hc
    refine .intro _ fun ⟨building', d⟩ ⟨hnew, hbuilding, hnests⟩ => ?_
    obtain rfl := hbuilding
    refine acc_descends hp fuel _ d (hb.push hmem fun hin => hnew _ hin (by rw [href])) ?_
    exact List.mem_map.2 (hnests.valid hp)

/-- Placing member variables only lays out the classes among them. -/
lemma placeVars_congr {nested nested' : ClassRef → Layouts → Option Struct × Layouts} :
    ∀ {vs : List MemberVar}, (∀ v ∈ vs, ∀ q d, v.type = .cls q d → ∀ l, nested d l = nested' d l) →
      ∀ (s : Struct) (ok : Bool) (l : Layouts),
        placeVars nested vs s ok l = placeVars nested' vs s ok l
  | [], _, _, _, _ => rfl
  | v :: vs, h, s, ok, l => by
    obtain ⟨hv, hvs⟩ := List.forall_mem_cons.1 h
    have ih := placeVars_congr hvs
    cases ht : v.type with
    | cls q d =>
      simp only [placeVars, ht, hv q d ht l]
      obtain ⟨_ | t, l'⟩ := nested' d l <;> exact ih _ _ _
    | scalar | ptr | container | error => simp only [placeVars, ht, ih]

/-- **The fuel is no limit** to the layouts, if it is above the number of classes. -/
lemma layoutIn_congr (hp : p.WellFormed) : ∀ (fuel fuel' : Nat) (building : List Class)
    (c : ClassRef) (l : Layouts), IsBuilding p fuel building → IsBuilding p fuel' building →
      c ∈ p.classes.map Class.ref → layoutIn p fuel building c l = layoutIn p fuel' building c l
  | 0, _, _, _, _, hb, _, _ => absurd hb.fuel_pos (by simp)
  | _ + 1, 0, _, _, _, _, hb, _ => absurd hb.fuel_pos (by simp)
  | fuel + 1, fuel' + 1, building, c, l, hb, hb', hc => by
    obtain ⟨hmem, href⟩ := hp.numbered.classOf_mem hc
    unfold layoutIn
    split
    · rfl
    · simp only
      split
      · rename_i hchain
        have hnew : p.classOf c ∉ building := fun hin => by
          have hall := List.dropWhile_eq_nil_iff.1 (List.isEmpty_iff.1 hchain) _ hin
          simp [href] at hall
        have hnested : ∀ v ∈ (p.classOf c).vars, ∀ q d, v.type = .cls q d → ∀ l,
            layoutIn p fuel (building ++ [p.classOf c]) d l =
              layoutIn p fuel' (building ++ [p.classOf c]) d l := fun v hv q d ht l =>
          layoutIn_congr hp fuel fuel' _ d l (hb.push hmem hnew) (hb'.push hmem hnew)
            (List.mem_map.2 (Nests.valid hp ⟨v, hv, q, ht⟩))
        rw [placeVars_congr hnested]
      · rfl

/-! ## What has no layout -/

/-- **Exact layouts**: all entries are for declared classes, those without a struct for cyclic ones,
and the diagnostics after `ds` report cycles. -/
structure Layouts.IsExact (p : Program) (ds : Diagnostics) (l : Layouts) : Prop where
  declared : ∀ x ∈ l.classes, ∃ k ∈ p.classes, k.ref.id = x.1 ∧ (x.2 = none → IsCyclic p k.ref)
  reports : ∃ found, l.diagnostics = ds.append found ∧ ∀ x ∈ found, IsCycleReport p x

/-- If variables cannot be placed, this is because of a class among them. -/
lemma placeVars_failure {I : Layouts → Prop} {Q : Prop}
    {nested : ClassRef → Layouts → Option Struct × Layouts} : ∀ {vs : List MemberVar},
      (∀ v ∈ vs, v.type.isError = false) →
      (∀ v ∈ vs, ∀ q d, v.type = .cls q d → ∀ l, I l →
        I (nested d l).2 ∧ ((nested d l).1 = none → Q)) →
      ∀ (s : Struct) (ok : Bool) (l : Layouts), I l → (ok = false → Q) →
        I (placeVars nested vs s ok l).2 ∧ ((placeVars nested vs s ok l).1 = none → Q)
  | [], _, _, s, ok, l, hl, hok => by
    refine ⟨hl, fun hnone => ?_⟩
    cases ok with
    | false => exact hok rfl
    | true => cases hnone
  | v :: vs, herr, hn, s, ok, l, hl, hok => by
    obtain ⟨hv, hvs⟩ := List.forall_mem_cons.1 herr
    obtain ⟨hnv, hnvs⟩ := List.forall_mem_cons.1 hn
    have ih := placeVars_failure hvs hnvs
    cases ht : v.type with
    | cls q d =>
      obtain ⟨hd, hnone⟩ := hnv q d ht l hl
      simp only [placeVars, ht]
      revert hd hnone
      obtain ⟨_ | t, l'⟩ := nested d l
      · exact fun hd hnone => ih s false l' hd fun _ => hnone rfl
      · exact fun hd _ => ih _ ok l' hd hok
    | error q =>
      rw [ht] at hv
      cases hv
    | scalar | ptr | container =>
      simp only [placeVars, ht]
      exact ih _ ok l hl hok

/-- A class that is met again among those that are being laid out: they hold each other from this
class on, and the last of them holds it. -/
lemma exists_chain (hp : p.WellFormed) {building : List Class} (hb : ∀ b ∈ building, b ∈ p.classes)
    (hc : c ∈ p.classes.map Class.ref)
    (hchain : List.IsChain (Nests p) (building.map Class.ref ++ [c]))
    (h : ¬(building.dropWhile fun b => b.ref.id != c.id).isEmpty) :
    ∃ rest, (building.dropWhile fun b => b.ref.id != c.id) = p.classOf c :: rest ∧
      (∀ b ∈ p.classOf c :: rest, b ∈ p.classes) ∧
      List.IsChain (Nests p) ((p.classOf c :: rest ++ [p.classOf c]).map Class.ref) := by
  obtain ⟨-, href⟩ := hp.numbered.classOf_mem hc
  have hsuffix : (building.dropWhile fun b => b.ref.id != c.id) <:+ building :=
    List.dropWhile_suffix _
  have hhead := List.head?_dropWhile_not (fun b : Class => b.ref.id != c.id) building
  cases hdrop : building.dropWhile fun b => b.ref.id != c.id with
  | nil => simp [hdrop] at h
  | cons b rest =>
    rw [hdrop] at hsuffix hhead
    have hmem : ∀ x ∈ b :: rest, x ∈ p.classes := fun x hx => hb x (hsuffix.subset hx)
    -- The first that was not dropped is the class itself.
    have hid : b.ref.id = c.id := by simpa using hhead
    obtain rfl : p.classOf c = b := hp.classOf_eq_of_id (hmem b (by simp)) hid.symm
    refine ⟨rest, rfl, hmem, ?_⟩
    obtain ⟨before, rfl⟩ := hsuffix
    refine hchain.suffix ⟨before.map Class.ref, ?_⟩
    simp [href]

/-- **What has no layout is cyclic**.

**Proof sketch.** By induction on the fuel. The classes that are being laid out hold each other, and
the last holds the one that is laid out next; if that is among them, it lies on a cycle, and the
classes from it on are the chain that is reported. -/
lemma layoutIn_isExact (hp : p.WellFormed) {ds : Diagnostics} : ∀ (fuel : Nat)
    (building : List Class) (c : ClassRef) (l : Layouts), IsBuilding p fuel building →
      c ∈ p.classes.map Class.ref → List.IsChain (Nests p) (building.map Class.ref ++ [c]) →
      l.IsExact p ds → (layoutIn p fuel building c l).2.IsExact p ds ∧
        ((layoutIn p fuel building c l).1 = none → IsCyclic p c)
  | 0, _, _, _, hb, _, _, _ => absurd hb.fuel_pos (by simp)
  | fuel + 1, building, c, l, hb, hc, hchain, hl => by
    obtain ⟨hmem, href⟩ := hp.numbered.classOf_mem hc
    unfold layoutIn
    split
    · -- The class was laid out before.
      rename_i s hfind
      refine ⟨hl, fun hs => ?_⟩
      obtain ⟨l₁, l₂, hcs, -⟩ := List.lookup_eq_some_iff.1 hfind
      obtain ⟨k, hk, hid, hcyclic⟩ := hl.declared (c.id, s) (by simp [hcs])
      have hkc : k.ref = c := by rw [← hp.classOf_eq_of_id (c := c) hk hid.symm, href]
      exact hkc ▸ hcyclic hs
    · simp only
      split
      · -- The class is new: its members are laid out with the class added to those under way.
        rename_i hempty
        have hnew : p.classOf c ∉ building := fun hin => by
          have hall := List.dropWhile_eq_nil_iff.1 (List.isEmpty_iff.1 hempty) _ hin
          simp [href] at hall
        have hnested : ∀ v ∈ (p.classOf c).vars, ∀ q d, v.type = .cls q d → ∀ l, l.IsExact p ds →
            (layoutIn p fuel (building ++ [p.classOf c]) d l).2.IsExact p ds ∧
              ((layoutIn p fuel (building ++ [p.classOf c]) d l).1 = none → IsCyclic p c) := by
          intro v hv q d ht l hl
          have hnests : Nests p c d := ⟨v, hv, q, ht⟩
          have hnext : List.IsChain (Nests p)
              ((building ++ [p.classOf c]).map Class.ref ++ [d]) := by
            rw [List.map_append, List.map_singleton, href]
            exact hchain.append (List.isChain_singleton d) (by simpa using hnests)
          obtain ⟨hexact, hnone⟩ := layoutIn_isExact hp fuel _ d l (hb.push hmem hnew)
            (List.mem_map.2 (hnests.valid hp)) hnext hl
          exact ⟨hexact, fun h => (hnone h).of_nests hnests⟩
        obtain ⟨hexact, hnone⟩ := placeVars_failure
          (fun v hv => ((hp.classes_valid _ hmem).vars_own v hv).2.isError_eq_false) hnested
          (.empty (p.classOf c).name) true l hl (by simp)
        refine ⟨⟨fun x hx => ?_, hexact.reports⟩, hnone⟩
        obtain hx | hx := List.mem_append.1 hx
        · exact hexact.declared x hx
        · obtain rfl := List.mem_singleton.1 hx
          exact ⟨p.classOf c, hmem, by rw [href], by rwa [href]⟩
      · -- The class is under way itself, and the classes from it on make up a cycle.
        rename_i hsome
        obtain ⟨rest, hdrop, hdeclared, hcycle⟩ := exists_chain hp hb.declared hc hchain hsome
        obtain ⟨found, hfound, hreports⟩ := hl.reports
        rw [hdrop]
        refine ⟨⟨hl.declared, found ++ [_], ?_, List.forall_mem_append.2 ⟨hreports,
          List.forall_mem_singleton.2 ⟨_, rest, hdeclared, hcycle, rfl⟩⟩⟩, fun _ => ?_⟩
        · simp [Layouts.reportCycle, hfound, Diagnostics.push, Diagnostics.append]
        · have hchain' : List.IsChain (Nests p) (c :: rest.map Class.ref ++ [c]) := by
            simpa [href] using hcycle
          exact IsOnCycle.isCyclic (transGen_of_isChain hchain')

/-- Nothing is being built at first. -/
lemma isBuilding_nil (p : Program) {fuel : Nat} (h : p.classes.length < fuel) :
    IsBuilding p fuel [] :=
  ⟨by simp, List.nodup_nil, by simpa using h⟩

/-- Layouts of declared classes are exact. -/
lemma layoutEach_isExact (hp : p.WellFormed) {cs : List ClassRef}
    (hcs : ∀ c ∈ cs, p.Valid (.cls .var c)) (ds : Diagnostics) :
    (layoutEach p cs { diagnostics := ds }).IsExact p ds :=
  layoutEach_induction (fun c hc l hl => (layoutIn_isExact hp _ [] c l
      (isBuilding_nil p (Nat.lt_succ_self _)) (List.mem_map.2 (hcs c hc))
      (List.isChain_singleton c) hl).1)
    ⟨by simp, [], ds.append_nil.symm, by simp⟩

/-- **Which classes have no layout**: those that include a class on a cycle, whatever was laid out
before. -/
theorem layout_eq_none_iff (hp : p.WellFormed) {cs : List ClassRef}
    (hcs : ∀ c ∈ cs, p.Valid (.cls .var c)) (ds : Diagnostics) (hc : p.Valid (.cls .var c)) :
    (layout p c (layoutEach p cs { diagnostics := ds })).1 = none ↔ IsCyclic p c := by
  constructor
  · exact (layoutIn_isExact hp _ [] c _ (isBuilding_nil p (Nat.lt_succ_self _)) (List.mem_map.2 hc)
      (List.isChain_singleton c) (layoutEach_isExact hp hcs ds)).2
  · intro hcyclic
    cases hs : (layout p c (layoutEach p cs { diagnostics := ds })).1 with
    | none => rfl
    | some s =>
      have hgrounded := layoutIn_grounded (p := p) (p.classes.length + 1) [] c _
        (layoutEach_grounded p cs ds)
      exact absurd hcyclic (hgrounded c s (struct?_layoutIn_self hs)).not_isCyclic

/-! ## What is reported -/

/-- A class is known after it was laid out. -/
lemma find?_layoutEach {cs : List ClassRef} (ds : Diagnostics) (hc : c ∈ cs) :
    ∃ x, (layoutEach p cs { diagnostics := ds }).find? c = some x := by
  have fold : ∀ (cs : List ClassRef) (l : Layouts), (c ∈ cs ∨ ∃ x, l.find? c = some x) →
      ∃ x, (layoutEach p cs l).find? c = some x := by
    intro cs
    induction cs with
    | nil => simp [layoutEach]
    | cons d cs ih =>
      intro l hd
      refine ih _ ?_
      obtain hd | ⟨x, hx⟩ := hd
      · obtain rfl | hd := List.mem_cons.1 hd
        · exact .inr (find?_layout c l)
        · exact .inl hd
      · exact .inr ⟨x, find?_layoutIn _ _ _ _ hx⟩
  exact fold cs _ (.inl hc)

/-- Declared classes are laid out. -/
lemma valid_of_mem_refs (h : c ∈ p.classes.map Class.ref) :
    p.Valid (.cls .var c) := List.mem_map.1 h

/-- A class of the program has no layout if and only if there is a cycle. -/
lemma any_isNone_iff (hp : p.WellFormed) (ds : Diagnostics) :
    ((layoutAll p ds).classes.any fun (_, s) => s.isNone) ↔ ∃ k ∈ p.classes, IsOnCycle p k.ref := by
  rw [layoutAll_eq]
  have hexact := layoutEach_isExact hp (fun c hc => valid_of_mem_refs hc) ds
  rw [List.any_eq_true]
  constructor
  · rintro ⟨x, hx, hnone⟩
    obtain ⟨k, hk, -, hcyclic⟩ := hexact.declared x hx
    obtain ⟨d, hd, hcycle⟩ := hcyclic (Option.isNone_iff_eq_none.1 hnone)
    -- What lies on a cycle is held by a class, so that it is declared.
    obtain ⟨e, -, hnests⟩ := Relation.TransGen.tail'_iff.1 hcycle
    obtain ⟨j, hj, rfl⟩ := hnests.valid hp
    exact ⟨j, hj, hcycle⟩
  · rintro ⟨k, hk, hcycle⟩
    obtain ⟨x, hx⟩ := find?_layoutEach (p := p) ds (List.mem_map_of_mem (f := Class.ref) hk)
    cases x with
    | some s =>
      have hs : (layoutEach p (p.classes.map Class.ref) { diagnostics := ds }).struct?
          k.ref = some s := by
        simp [Layouts.struct?, hx]
      exact absurd hcycle (layoutEach_grounded p _ ds k.ref s hs).not_holds
    | none =>
      obtain ⟨l₁, l₂, hl, -⟩ := List.lookup_eq_some_iff.1 hx
      exact ⟨(k.ref.id, none), by simp [hl], rfl⟩

/-- **What is reported** while the classes of a program are laid out: cycles, and only if there are
any. -/
theorem layoutAll_found (hp : p.WellFormed) (ds : Diagnostics) :
    ∃ found, (layoutAll p ds).diagnostics = ds.append found ∧ (∀ x ∈ found, IsCycleReport p x) ∧
      (found ≠ [] ↔ ∃ k ∈ p.classes, IsOnCycle p k.ref) := by
  obtain ⟨found, hfound, hreports⟩ :=
    (layoutEach_isExact hp (fun c hc => valid_of_mem_refs hc) ds).reports
  rw [← layoutAll_eq] at hfound
  obtain ⟨found', hfound', -, hlen⟩ := layoutAll_reported (p := p) ds
  have heq : found = found' := by
    have hentries := congrArg Diagnostics.entries (hfound.symm.trans hfound')
    simpa [Diagnostics.append] using Array.append_inj_right hentries rfl
  refine ⟨found, hfound, hreports, ?_⟩
  rw [← any_isNone_iff hp ds, ← layoutAll_errors_iff hp ds, hlen, ← heq, List.length_pos_iff]

/-! ## The order of structs -/

/-- **Sorted layouts**: every class has one entry, structs are in the order of the entries, and the
classes that a class with a struct holds have entries before it. -/
structure Layouts.IsSorted (p : Program) (l : Layouts) : Prop where
  nodup : (l.classes.map Prod.fst).Nodup
  structs_eq : l.structs = l.classes.filterMap Prod.snd
  before : ∀ (i : Nat) (x : Nat × Option Struct), l.classes[i]? = some x → x.2.isSome →
    ∀ c d : ClassRef, c.id = x.1 → Nests p c d → ∃ j < i, ∃ y, l.classes[j]? = some y ∧ y.1 = d.id

/-- The layout of a class keeps layouts sorted. -/
lemma layoutIn_isSorted (fuel : Nat) (building : List Class) (c : ClassRef) (l : Layouts)
    (h : l.IsSorted p) : (layoutIn p fuel building c l).2.IsSorted p := by
  refine layoutIn_induction (fun _ _ _ h => ⟨h.nodup, h.structs_eq, h.before⟩)
    (fun c x l h hnew hx => ?_) fuel building c l h
  have hid : ∀ y ∈ l.classes, y.1 ≠ c.id := fun y hy heq => by
    have := List.lookup_eq_none_iff.1 hnew y hy
    simp [heq] at this
  refine ⟨?_, ?_, fun i y hy hsome k d hk hnests => ?_⟩
  · rw [Layouts.record, List.map_append]
    exact h.nodup.append (List.nodup_singleton _) (by simpa using fun y hy => hid _ hy rfl)
  · cases x <;> simp [Layouts.record, h.structs_eq]
  · simp only [Layouts.record, List.getElem?_append] at hy ⊢
    split at hy
    · obtain ⟨j, hj, z, hz, hzid⟩ := h.before i y hy hsome k d hk hnests
      exact ⟨j, hj, z, by rw [if_pos (by omega), hz], hzid⟩
    · -- The new entry is the last, and the classes that it holds have structs.
      obtain ⟨hi, rfl⟩ : i - l.classes.length = 0 ∧ (c.id, x) = y := by
        simpa [List.getElem?_singleton] using hy
      obtain ⟨t, rfl⟩ := Option.isSome_iff_exists.1 hsome
      obtain ⟨t₀, rfl, hbuilt⟩ := hx t rfl
      obtain ⟨v, hv, q, ht⟩ := hnests
      rw [vars_classOf_congr p hk] at hv
      obtain ⟨m, -, hm⟩ := Code.exists_of_forall₂ hbuilt.members hv
      obtain ⟨u, hu, -⟩ := hm.nested q d ht
      obtain ⟨j, hj⟩ := List.getElem?_of_mem (Layouts.mem_of_struct? hu)
      have hlt : j < l.classes.length := (List.getElem?_eq_some_iff.1 hj).1
      exact ⟨j, by omega, _, by rw [if_pos hlt, hj], rfl⟩

/-- The layouts of all classes are sorted. -/
lemma layoutEach_isSorted (cs : List ClassRef) (ds : Diagnostics) :
    (layoutEach p cs { diagnostics := ds }).IsSorted p :=
  layoutEach_induction (fun _ _ _ => layoutIn_isSorted _ _ _ _) ⟨.nil, rfl, by simp⟩

/-- Entries that all have something are in the order of what they have. -/
lemma forall₂_filterMap {α β : Type} {f : α → Option β} {r : α → β → Prop} : ∀ {as : List α},
    (∀ a ∈ as, ∃ b, f a = some b ∧ r a b) → List.Forall₂ r as (as.filterMap f)
  | [], _ => .nil
  | a :: as, h => by
    obtain ⟨⟨b, hb, hr⟩, has⟩ := List.forall_mem_cons.1 h
    rw [List.filterMap_cons_some hb]
    exact .cons hr (forall₂_filterMap has)

/-- The class of an entry. -/
def entryClass (p : Program) (x : Nat × Option Struct) : Class := p.classOf ⟨x.1, "", false⟩

/-- The class of an entry is the one with its number. -/
lemma entryClass_eq (hp : p.WellFormed) {k : Class} (hk : k ∈ p.classes) {x : Nat × Option Struct}
    (h : k.ref.id = x.1) : entryClass p x = k :=
  hp.classOf_eq_of_id hk h.symm

/-- The classes that a class includes have entries before it, if all entries have structs. -/
lemma Layouts.IsSorted.before_of_transGen {l : Layouts} (h : l.IsSorted p)
    (hall : ∀ x ∈ l.classes, x.2.isSome) {i : Nat} {x : Nat × Option Struct}
    (hx : l.classes[i]? = some x) (hc : c.id = x.1) (hcd : Relation.TransGen (Nests p) c d) :
    ∃ j < i, ∃ y, l.classes[j]? = some y ∧ y.1 = d.id := by
  induction hcd with
  | single hnests => exact h.before i x hx (hall x (List.mem_of_getElem? hx)) c _ hc hnests
  | tail _ hnests ih =>
    obtain ⟨j, hj, y, hy, hid⟩ := ih
    obtain ⟨k, hk, z, hz, hzid⟩ :=
      h.before j y hy (hall y (List.mem_of_getElem? hy)) _ _ hid.symm hnests
    exact ⟨k, hk.trans hj, z, hz, hzid⟩

/-- **The structs of a program without cycles**: there is one for every class, after those of the
classes that it holds.

**Proof sketch.** The entries of the layouts are for the classes of the program, each once, in an
order in which classes come after those that they hold. None of them is without a struct. -/
theorem exists_perm_structs (hp : p.WellFormed) (ds : Diagnostics)
    (h : ∀ k ∈ p.classes, ¬IsOnCycle p k.ref) :
    ∃ cs : List Class, cs.Perm p.classes ∧
      List.Forall₂ (fun k s => (layoutAll p ds).struct? k.ref = some s ∧ s.Fits k) cs
        (layoutAll p ds).structs ∧
      cs.Pairwise fun k k' => ¬Relation.TransGen (Nests p) k.ref k'.ref := by
  have hnone : ¬((layoutAll p ds).classes.any fun (_, s) => s.isNone) = true := by
    rw [any_isNone_iff hp ds]
    rintro ⟨k, hk, hcycle⟩
    exact h k hk hcycle
  have hcomplete := layoutAll_complete hp ds (Bool.eq_false_iff.2 hnone)
  have hall : ∀ x ∈ (layoutAll p ds).classes, x.2.isSome := fun x hx => by
    by_contra hx'
    exact hnone (List.any_eq_true.2 ⟨x, hx, by simpa using hx'⟩)
  have hexact := layoutEach_isExact hp (fun c hc => valid_of_mem_refs hc) ds
  have hsorted := layoutEach_isSorted (p := p) (p.classes.map Class.ref) ds
  rw [← layoutAll_eq] at hexact hsorted
  have hids : ((layoutAll p ds).classes.map (entryClass p)).map (fun k => k.ref.id) =
      (layoutAll p ds).classes.map Prod.fst := by
    rw [List.map_map]
    refine List.map_congr_left fun x hx => ?_
    obtain ⟨k, hk, hid, -⟩ := hexact.declared x hx
    rw [Function.comp_apply, entryClass_eq hp hk hid, hid]
  refine ⟨(layoutAll p ds).classes.map (entryClass p), ?_, ?_, ?_⟩
  · refine (List.perm_ext_iff_of_nodup ?_ ?_).2 fun k => ⟨fun hk => ?_, fun hk => ?_⟩
    · exact .of_map _ (hids ▸ hsorted.nodup)
    · exact .of_map _ hp.ids_nodup
    · obtain ⟨x, hx, rfl⟩ := List.mem_map.1 hk
      obtain ⟨k, hk, hid, -⟩ := hexact.declared x hx
      rwa [entryClass_eq hp hk hid]
    · obtain ⟨s, hs, -⟩ := hcomplete k hk
      exact List.mem_map.2 ⟨_, Layouts.mem_of_struct? hs, entryClass_eq hp hk rfl⟩
  · rw [hsorted.structs_eq, List.forall₂_map_left_iff]
    refine forall₂_filterMap fun x hx => ?_
    obtain ⟨k, hk, hid, -⟩ := hexact.declared x hx
    obtain ⟨s, hs, hfits⟩ := hcomplete k hk
    rw [entryClass_eq hp hk hid]
    refine ⟨s, ?_, hs, hfits⟩
    have hentry := List.inj_on_of_nodup_map hsorted.nodup hx (Layouts.mem_of_struct? hs) hid.symm
    rw [hentry]
  · rw [List.pairwise_map, List.pairwise_iff_getElem]
    intro i j hi hj hij hheld
    obtain ⟨k, hk, hid, -⟩ := hexact.declared _ (List.getElem_mem hi)
    obtain ⟨k', hk', hid', -⟩ := hexact.declared _ (List.getElem_mem hj)
    rw [entryClass_eq hp hk hid, entryClass_eq hp hk' hid'] at hheld
    obtain ⟨m, hm, y, hy, hyid⟩ :=
      hsorted.before_of_transGen hall (List.getElem?_eq_getElem hi) hid hheld
    -- The entry that comes before is that of the class that is held, which comes after.
    obtain ⟨hmlt, rfl⟩ := List.getElem?_eq_some_iff.1 hy
    have hmj : m = j := by
      have hinj := List.nodup_iff_injective_getElem.1 hsorted.nodup
      have := @hinj ⟨m, by simpa using hmlt⟩ ⟨j, by simpa using hj⟩ (by
        simp only [List.getElem_map]
        rw [hyid, hid'])
      exact congrArg Fin.val this
    omega

end Lane.Lowering
