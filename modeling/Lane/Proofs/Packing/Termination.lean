import Lane.Proofs.Lowering.Containment
import Lane.Proofs.Lowering.Program
import Lane.Proofs.Packing.Layouts
import Mathlib.Order.Bounds.Basic

set_option relaxedAutoImplicit false
set_option autoImplicit false

/-!
# Cycles of classes are detected

Laying out a class comes to an end in any case, and what holds itself is told apart from what does
not. Looking for the widest scalar of a class and packing it do not watch for cycles. They come to
an end because they go to the classes that a class holds, and are used on classes with a layout
only.

## Main definitions

* `Lane.Packing.scalarSizes`: the sizes of the scalars of a class.

## Main results

* `Lane.Packing.widestIn_congr`, `Lane.Packing.packClassIn_congr`: the fuel is no limit.
* `Lane.Accepted.layout_detects_cycles`: which classes have no layout, and what is reported.
* `Lane.Packing.isGreatest_widest`: the greatest size of a scalar.
-/

namespace Lane.Packing

open Code Lowering

variable {p : Program} {c : ClassRef} {layouts : Layouts} {W : Nat}

/-- **The fuel is no limit** when the widest scalar of a class with a layout is looked for. -/
lemma widestIn_congr (hp : p.WellFormed) : ∀ (fuel fuel' : Nat) (building : List Class)
    (c : ClassRef), IsBuilding p fuel building → IsBuilding p fuel' building →
      (∀ b ∈ building, Relation.TransGen (Nests p) b.ref c) → c ∈ p.classes.map Class.ref →
      IsGrounded p c → widestIn p fuel c = widestIn p fuel' c
  | 0, _, _, _, hb, _, _, _, _ => absurd hb.fuel_pos (by simp)
  | _ + 1, 0, _, _, _, hb, _, _, _ => absurd hb.fuel_pos (by simp)
  | fuel + 1, fuel' + 1, building, c, hb, hb', hchain, hc, hground => by
    obtain ⟨hmem, href⟩ := hp.numbered.classOf_mem hc
    have hnew := hground.notMem_building href hchain
    unfold widestIn
    refine List.foldl_ext _ _ _ fun w v hv => ?_
    cases ht : v.type with
    | cls q d =>
      have hnests : Nests p c d := ⟨v, hv, q, ht⟩
      simp only
      rw [widestIn_congr hp fuel fuel' _ d (hb.push hmem hnew) (hb'.push hmem hnew)
        (forall_mem_push href hchain hnests) (List.mem_map.2 (hnests.valid hp))
          (hground.inv hnests)]
    | scalar | ptr | container | error => rfl

/-- Packing member variables only packs the classes among them. -/
lemma packVars_congr {cls : Class} {scalar : Struct} {mask : VType}
    {nested nested' : ClassRef → PackedLayouts → Option Struct × PackedLayouts} :
    ∀ {vs : List MemberVar}, (∀ v ∈ vs, ∀ q d, v.type = .cls q d → ∀ l, nested d l = nested' d l) →
      ∀ (s : Struct) (ok : Bool) (l : PackedLayouts),
        packVars cls scalar W mask nested vs s ok l = packVars cls scalar W mask nested' vs s ok l
  | [], _, _, _, _ => rfl
  | v :: vs, h, s, ok, l => by
    obtain ⟨hv, hvs⟩ := List.forall_mem_cons.1 h
    have ih : ∀ (s : Struct) (ok : Bool) (l : PackedLayouts),
        packVars cls scalar W mask nested vs s ok l =
          packVars cls scalar W mask nested' vs s ok l :=
      packVars_congr hvs
    cases ht : v.type with
    | cls q d =>
      simp only [packVars, ht, hv q d ht l, ih]
    | scalar | ptr | container | error => simp only [packVars, ht, ih]

/-- **The fuel is no limit** when a class is packed. -/
lemma packClassIn_congr (hp : p.WellFormed)
    (hground : ∀ d s, layouts.struct? d = some s → IsGrounded p d) : ∀ (fuel fuel' : Nat)
    (building : List Class) (c : ClassRef) (l : PackedLayouts), IsBuilding p fuel building →
      IsBuilding p fuel' building → (∀ b ∈ building, Relation.TransGen (Nests p) b.ref c) →
      c ∈ p.classes.map Class.ref →
      packClassIn p layouts W fuel c l = packClassIn p layouts W fuel' c l
  | 0, _, _, _, _, hb, _, _, _ => absurd hb.fuel_pos (by simp)
  | _ + 1, 0, _, _, _, _, hb, _, _ => absurd hb.fuel_pos (by simp)
  | fuel + 1, fuel' + 1, building, c, l, hb, hb', hchain, hc => by
    obtain ⟨hmem, href⟩ := hp.numbered.classOf_mem hc
    unfold packClassIn
    split
    · rfl
    · split
      · rfl
      · rename_i scalar hscalar
        have hgrounded : IsGrounded p c := hground c scalar (Option.filter_eq_some_iff.1 hscalar).1
        have hnew := hgrounded.notMem_building href hchain
        have hnested : ∀ v ∈ (p.classOf c).vars, ∀ q d, v.type = .cls q d → ∀ l,
            packClassIn p layouts W fuel d l = packClassIn p layouts W fuel' d l := by
          intro v hv q d ht l
          have hnests : Nests p c d := ⟨v, hv, q, ht⟩
          exact packClassIn_congr hp hground fuel fuel' _ d l (hb.push hmem hnew)
            (hb'.push hmem hnew) (forall_mem_push href hchain hnests)
            (List.mem_map.2 (hnests.valid hp))
        simp only [packVars_congr hnested]

end Lane.Packing

namespace Lane.Accepted

open Code Lowering Packing

variable {file : String} {text : List Rune} {e : Elaborated}

/-- The structs of the code of a program are those of its layouts. -/
lemma structs_of_lower {name : String} {width : Int} {ds : Diagnostics} {q : LoweredProgram}
    (hq : (e.lower name width ds).2 = .ok q) : q.layouts = layoutAll e.program ds ∧
      q.module.structs = (layoutAll e.program ds).structs := by
  unfold Elaborated.lower Elaborated.lowerWith at hq
  simp only at hq
  split at hq
  · obtain rfl := Except.ok.inj hq
    exact ⟨rfl, rfl⟩
  · simp only [bind, Except.bind] at hq
    split at hq
    · cases hq
    · split at hq
      · cases hq
      · obtain rfl := Except.ok.inj hq
        exact ⟨rfl, rfl⟩

/-- **Cycles of classes are detected**, in whatever order classes are laid out. Laying out a class
comes to an end. It gives no struct if and only if the class includes one that holds itself;
otherwise the class is grounded, so that looking for its widest scalar and packing it, which go to
the classes that it holds, come to an end as well. For all three no more fuel is needed than there
are classes. What is reported when a program is lowered are chains of classes from a class to
itself, and nothing is reported if there is no cycle; then the structs are those of all classes,
each after those that it holds.

**Proof sketch.** The classes that are being laid out hold each other, so that one that is met again
lies on a cycle (`layoutIn_isExact`). What is recorded to have no struct is cyclic, and what has one
is grounded, so that both can be used again (`layout_eq_none_iff`). -/
theorem layout_detects_cycles (h : Accepted file text e) :
    (∀ (cs : List ClassRef) (ds : Diagnostics) (c : ClassRef),
      (∀ d ∈ cs, e.program.Valid (.cls .var d)) → e.program.Valid (.cls .var c) →
      Acc (Descends e.program) ([], c) ∧
      (∀ n, e.program.classes.length < n →
        layoutIn e.program n [] c (layoutEach e.program cs { diagnostics := ds }) =
          layout e.program c (layoutEach e.program cs { diagnostics := ds })) ∧
      ((layout e.program c (layoutEach e.program cs { diagnostics := ds })).1 = none ↔
        IsCyclic e.program c) ∧
      ∀ l, layout e.program c (layoutEach e.program cs { diagnostics := ds }) = l → l.1.isSome →
        IsGrounded e.program c ∧ ∀ n, e.program.classes.length < n →
          widestIn e.program n c = widest e.program c ∧
          ∀ (W : Nat) (l' : PackedLayouts),
            packClassIn e.program l.2 W n c l' = packClass e.program l.2 W c l') ∧
    ∀ (name : String) (width : Int) (ds : Diagnostics),
      (∃ found, (e.lower name width ds).1 = ds.append found ∧
        (∀ x ∈ found, IsCycleReport e.program x) ∧
        (found ≠ [] ↔ ∃ k ∈ e.program.classes, IsOnCycle e.program k.ref)) ∧
      ((∀ k ∈ e.program.classes, ¬IsOnCycle e.program k.ref) →
        ∀ q, (e.lower name width ds).2 = .ok q → ∃ cs : List Class, cs.Perm e.program.classes ∧
          List.Forall₂ (fun k s => q.layouts.struct? k.ref = some s ∧ s.Fits k) cs
            q.module.structs ∧
          cs.Pairwise fun k k' => ¬Relation.TransGen (Nests e.program) k.ref k'.ref) := by
  have hp := h.typed.program_wf
  constructor
  · intro cs ds c hcs hc
    have hmem := List.mem_map.2 hc
    refine ⟨acc_descends hp _ [] c (isBuilding_nil _ (Nat.lt_succ_self _)) hmem, fun n hn => ?_,
      layout_eq_none_iff hp hcs ds hc, ?_⟩
    · exact layoutIn_congr hp n _ [] c _ (isBuilding_nil _ hn)
        (isBuilding_nil _ (Nat.lt_succ_self _)) hmem
    · rintro _ rfl hsome
      obtain ⟨s, hs⟩ := Option.isSome_iff_exists.1 hsome
      have hgrounded := layoutIn_grounded (p := e.program) (e.program.classes.length + 1) [] c _
        (layoutEach_grounded e.program cs ds)
      have hground := hgrounded c s (struct?_layoutIn_self hs)
      refine ⟨hground, fun n hn => ⟨?_, fun W l' => ?_⟩⟩
      · exact widestIn_congr hp n _ [] c (isBuilding_nil _ hn)
          (isBuilding_nil _ (Nat.lt_succ_self _)) (by simp) hmem hground
      · exact packClassIn_congr hp hgrounded n _ [] c l' (isBuilding_nil _ hn)
          (isBuilding_nil _ (Nat.lt_succ_self _)) (by simp) hmem
  · intro name width ds
    refine ⟨layoutAll_found hp ds, fun hnone q hq => ?_⟩
    obtain ⟨cs, hperm, hall, hpair⟩ := exists_perm_structs hp ds hnone
    obtain ⟨hlayouts, hstructs⟩ := structs_of_lower hq
    rw [hlayouts, hstructs]
    exact ⟨cs, hperm, hall, hpair⟩

/-- Two classes that hold each other, a class that holds one of them, and another class. -/
def cyclicPair : String :=
  "class A { var b: B; } class B { var a: A; } class C { var a: A; } class D { var x: int; }"

/-- Two classes, of which the first holds the second. -/
def groundedPair : String := "class A { var b: B; } class B { var x: int; }"

/-- Two classes that hold each other are reported, and a class that holds one of them has no layout,
but another class has one. And the structs of two classes, of which the first holds the second. -/
theorem layout_detects_cycles_pair :
    (∃ e a d, accept? "" (Rune.ascii cyclicPair) = some e ∧
      IsCyclic e.program a ∧ Acc (Descends e.program) ([], a) ∧
      IsGrounded e.program d ∧ widestIn e.program 9 d = widest e.program d ∧
      ∃ found, (e.lower "" 0 {}).1 = Diagnostics.append {} found ∧ found ≠ [] ∧
        ∀ x ∈ found, IsCycleReport e.program x) ∧
    ∃ e q, compile? groundedPair = some (e, q) ∧ q.isOk ∧
      ∃ cs : List Class, cs.Perm e.program.classes ∧
        List.Forall₂ (fun k s => q.layouts.struct? k.ref = some s ∧ s.Fits k) cs q.module.structs ∧
        cs.Pairwise fun k k' => ¬Relation.TransGen (Nests e.program) k.ref k'.ref := by
  constructor
  · have hrun : (accept? "" (Rune.ascii cyclicPair)).any
          fun e => e.program.classes.map Class.ref ==
              [⟨66, "A", false⟩, ⟨67, "B", false⟩, ⟨68, "C", false⟩, ⟨69, "D", false⟩] &&
            (layout e.program ⟨68, "C", false⟩ {}).1.isNone &&
            (layout e.program ⟨69, "D", false⟩ {}).1.isSome &&
            !(e.lower "" 0 {}).1.entries.isEmpty := by
      rw [cyclicPair, Rune.ascii_ofList]
      decide +kernel
    obtain ⟨e, he, hrun⟩ := (Option.any_eq_true ..).1 hrun
    simp only [Bool.and_eq_true, beq_iff_eq, Option.isNone_iff_eq_none, Bool.not_eq_true'] at hrun
    obtain ⟨⟨⟨hrefs, hnone⟩, hsome⟩, hfound⟩ := hrun
    have valid : ∀ c ∈ [ClassRef.mk 66 "A" false, ⟨67, "B", false⟩, ⟨68, "C", false⟩,
      ⟨69, "D", false⟩],
        e.program.Valid (.cls .var c) := fun c hc => List.mem_map.1 (hrefs ▸ hc)
    obtain ⟨hcalls, hlower⟩ := (of_accept? he).layout_detects_cycles
    obtain ⟨hacc, -, hiff, -⟩ := hcalls [] {} ⟨68, "C", false⟩ (by simp) (valid _ (by simp))
    obtain ⟨-, -, -, hlaid⟩ := hcalls [] {} ⟨69, "D", false⟩ (by simp) (valid _ (by simp))
    obtain ⟨hground, hfuel⟩ := hlaid _ rfl hsome
    obtain ⟨⟨found, heq, hreports, -⟩, -⟩ := hlower "" 0 {}
    have hlen : e.program.classes.length < 9 := by
      have := congrArg List.length hrefs
      simp at this
      omega
    refine ⟨e, ⟨68, "C", false⟩, ⟨69, "D", false⟩, he, hiff.1 hnone, hacc, hground,
      (hfuel 9 hlen).1, found, heq, ?_, hreports⟩
    rintro rfl
    rw [heq] at hfound
    cases hfound
  · have hrun : (compile? groundedPair).any fun (_, q) => q.isOk := by
      rw [compile?, groundedPair, Rune.ascii_ofList]
      decide +kernel
    obtain ⟨⟨e, q⟩, hc, hok⟩ := (Option.any_eq_true ..).1 hrun
    obtain ⟨hacc, hq⟩ := of_compile? hc
    obtain ⟨hl, -⟩ := hacc.typed.of_lower_isOk hq hok
    obtain ⟨-, hstructs⟩ := hacc.layout_detects_cycles.2 "" 0 {}
    exact ⟨e, q, hc, hok, hstructs
      (fun k hk => (isGrounded_of_complete (hacc.typed.complete hl) k hk).not_holds) q hq⟩

end Lane.Accepted

/-! ## The widest scalar of a class

The masks of a class are as wide as the widest scalar of the class and of the `simd` classes that it
holds. What is looked for class by class is the greatest size among all scalars that are held,
directly or through other classes. -/

namespace Lane.Packing

open Code Lowering

variable {p : Program} {c d : ClassRef}

/-- **The sizes of the scalars** of a class and of the classes that it holds. -/
def scalarSizes (p : Program) (c : ClassRef) : Set Nat :=
  {n | ∃ d, Includes p c d ∧ ∃ v ∈ (p.classOf d).vars, ∃ q k, v.type = .scalar q k ∧ n = k.size}

/-- The size that a variable adds. -/
def varSize (p : Program) (fuel : Nat) (v : MemberVar) : Nat :=
  match v.type with
  | .scalar _ k => k.size
  | .cls _ d => widestIn p fuel d
  | _ => 0

/-- The greatest of many sizes. -/
lemma isGreatest_foldl_max (g : MemberVar → Nat) : ∀ (vs : List MemberVar) (a : Nat),
    IsGreatest (insert a {n | ∃ v ∈ vs, n = g v}) (vs.foldl (fun w v => max w (g v)) a)
  | [], a => ⟨.inl rfl, by simp [upperBounds]⟩
  | v :: vs, a => by
    obtain ⟨hmem, hupper⟩ := isGreatest_foldl_max g vs (max a (g v))
    have hle : max a (g v) ≤ (v :: vs).foldl (fun w v => max w (g v)) a := hupper (.inl rfl)
    refine ⟨?_, ?_⟩
    · obtain heq | ⟨w, hw, heq⟩ := hmem
      · obtain h | h := max_choice a (g v)
        · exact .inl (heq.trans h)
        · exact .inr ⟨v, by simp, heq.trans h⟩
      · exact .inr ⟨w, by simp [hw], heq⟩
    · rintro n (rfl | ⟨w, hw, rfl⟩)
      · exact (le_max_left ..).trans hle
      · obtain rfl | hw := List.mem_cons.1 hw
        · exact (le_max_right ..).trans hle
        · exact hupper (.inr ⟨w, hw, rfl⟩)

/-- The widest scalar is the greatest of what the variables add. -/
lemma widestIn_succ {fuel : Nat} (h : ∀ d, Nests p c d → d.isSimd ∧ d.id ≠ c.id) :
    widestIn p (fuel + 1) c = (p.classOf c).vars.foldl (fun w v => max w (varSize p fuel v)) 1 := by
  unfold widestIn
  refine List.foldl_ext _ _ _ fun w v hv => ?_
  unfold varSize
  cases ht : v.type with
  | cls q d =>
    obtain ⟨hsimd, hid⟩ := h d ⟨v, hv, q, ht⟩
    simp [hsimd, hid]
  | scalar | ptr | container | error => simp

/-- **The greatest size of a scalar** is what is found with fuel for all classes.

**Proof sketch.** By induction on the fuel. What is found in a class that is held is the greatest
size there, so that the greatest of these and of the sizes of the class itself bounds them all. -/
lemma isGreatest_widestIn (hp : p.WellFormed)
    (hsimd : ∀ k ∈ p.classes, k.ref.isSimd → ∀ v ∈ k.vars, ∀ q d, v.type = .cls q d → d.isSimd) :
    ∀ (fuel : Nat) (building : List Class) (c : ClassRef), IsBuilding p fuel building →
      (∀ b ∈ building, Relation.TransGen (Nests p) b.ref c) → c ∈ p.classes.map Class.ref →
      c.isSimd → IsGrounded p c → IsGreatest (insert 1 (scalarSizes p c)) (widestIn p fuel c)
  | 0, _, _, hb, _, _, _, _ => absurd hb.fuel_pos (by simp)
  | fuel + 1, building, c, hb, hchain, hc, hcs, hground => by
    obtain ⟨hmem, href⟩ := hp.numbered.classOf_mem hc
    have hnew := hground.notMem_building href hchain
    have held : ∀ d, Nests p c d → d.isSimd ∧ d.id ≠ c.id := by
      rintro d ⟨v, hv, q, ht⟩
      refine ⟨hsimd _ hmem (by rwa [href]) v hv q d ht, fun hid => ?_⟩
      obtain rfl := eq_of_id_eq hp (Nests.valid hp ⟨v, hv, q, ht⟩) (List.mem_map.1 hc) hid
      exact hground.not_holds (.single ⟨v, hv, q, ht⟩)
    have inner : ∀ d, Nests p c d →
        IsGreatest (insert 1 (scalarSizes p d)) (widestIn p fuel d) := fun d hd =>
      isGreatest_widestIn hp hsimd fuel _ d (hb.push hmem hnew) (forall_mem_push href hchain hd)
        (List.mem_map.2 (hd.valid hp)) (held d hd).1 (hground.inv hd)
    rw [widestIn_succ held]
    obtain ⟨hfound, hupper⟩ := isGreatest_foldl_max (varSize p fuel) (p.classOf c).vars 1
    generalize (p.classOf c).vars.foldl (fun w v => max w (varSize p fuel v)) 1 = n at hfound hupper
    have hone : 1 ≤ n := hupper (.inl rfl)
    refine ⟨?_, ?_⟩
    · obtain rfl | ⟨v, hv, rfl⟩ := hfound
      · exact .inl rfl
      · unfold varSize at hone ⊢
        cases ht : v.type with
        | scalar q k => exact .inr ⟨c, .refl, v, hv, q, k, ht, rfl⟩
        | cls q d =>
          have hnests : Nests p c d := ⟨v, hv, q, ht⟩
          obtain hin | ⟨e, he, hsize⟩ := (inner d hnests).1
          · exact .inl hin
          · exact .inr ⟨e, .head hnests he, hsize⟩
        | ptr | container | error => simp [ht] at hone
    · rintro m (rfl | ⟨e, he, v, hv, q, k, ht, rfl⟩)
      · exact hone
      · obtain rfl | ⟨d, hnests, hde⟩ := Relation.ReflTransGen.cases_head he
        · exact hupper (.inr ⟨v, hv, by simp [varSize, ht]⟩)
        · obtain ⟨w, hw, q', ht'⟩ := hnests
          have hle : k.size ≤ widestIn p fuel d :=
            (inner d ⟨w, hw, q', ht'⟩).2 (.inr ⟨e, hde, v, hv, q, k, ht, rfl⟩)
          exact hle.trans (hupper (.inr ⟨w, hw, by simp [varSize, ht']⟩))

/-- **The widest scalar of a class**. -/
theorem isGreatest_widest (hp : p.WellFormed)
    (hsimd : ∀ k ∈ p.classes, k.ref.isSimd → ∀ v ∈ k.vars, ∀ q d, v.type = .cls q d → d.isSimd)
    (hc : p.Valid (.cls .var c)) (hcs : c.isSimd) (hground : IsGrounded p c) :
    IsGreatest (insert 1 (scalarSizes p c)) (widest p c) :=
  isGreatest_widestIn hp hsimd _ [] c (isBuilding_nil p (Nat.lt_succ_self _)) (by simp)
    (List.mem_map.2 hc) hcs hground

/-- What a `simd` class includes are `simd` classes. -/
lemma isSimd_of_includes (hp : p.WellFormed)
    (hsimd : ∀ k ∈ p.classes, k.ref.isSimd → ∀ v ∈ k.vars, ∀ q d, v.type = .cls q d → d.isSimd)
    (hc : p.Valid (.cls .var c)) (hcs : c.isSimd) (h : Includes p c d) : d.isSimd := by
  induction h with
  | refl => exact hcs
  | @tail j d hj hnests ih =>
    obtain ⟨k, hk, rfl⟩ := Includes.valid hp hc hj
    obtain ⟨v, hv, q, ht⟩ := hnests
    exact hsimd k hk ih v (hp.classOf_eq hk ▸ hv) q d ht

/-- There is an integer of the size of every scalar. -/
lemma size_intOfSize {n : Nat} (h : n ∈ insert 1 (scalarSizes p c)) :
    (Kind.intOfSize n).size = n := by
  obtain rfl | ⟨d, -, v, -, q, k, -, rfl⟩ := h
  · rfl
  · cases k <;> rfl

end Lane.Packing
