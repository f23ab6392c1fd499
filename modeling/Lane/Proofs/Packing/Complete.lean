import Lane.Proofs.Packing.Layouts

set_option relaxedAutoImplicit false
set_option autoImplicit false

/-!
# Packed layouts are complete

No class of a laid-out program holds itself. So packing a class comes to the classes that it holds
and to an end, and if a `simd` class holds `simd` classes only, every `simd` class has a packed
layout, and nothing is reported.

## Main definitions

* `Lane.Packing.IsFlawless`: packed layouts about which nothing was reported.

## Main results

* `Lane.Packing.packAll_isFlawless`: all `simd` classes have packed layouts.
-/

namespace Lane.Packing

open Code Lowering

variable {p : Program} {c d : ClassRef} {l : Layouts}

/-! ## Packed layouts -/

/-- **Flawless packed layouts**: nothing was reported after the diagnostics `ds`, and no `simd`
class was found to have no packed layout. -/
structure IsFlawless (p : Program) (ds : Diagnostics) (l : PackedLayouts) : Prop where
  errors_eq : l.errors = 0
  diagnostics_eq : l.diagnostics = ds
  found : ∀ k ∈ p.classes, k.ref.isSimd → l.classes.lookup k.ref.id ≠ some none

section Flawless

variable {ds : Diagnostics} {layouts : Layouts} {W : Nat} {l : PackedLayouts}

/-- Recording a class keeps layouts flawless, unless it is one that should have a layout. -/
lemma IsFlawless.recorded (h : IsFlawless p ds l) {n : String} {x : Option Struct}
    (hx : ∀ k ∈ p.classes, k.ref.isSimd → k.ref.id = c.id → x ≠ none) :
    IsFlawless p ds (recorded c n x l) := by
  refine ⟨?_, ?_, fun k hk hs => ?_⟩
  · cases x <;> exact h.errors_eq
  · cases x <;> exact h.diagnostics_eq
  · rw [classes_recorded, List.lookup_append]
    cases hfind : l.classes.lookup k.ref.id with
    | some y => simpa [hfind] using h.found k hk hs
    | none =>
      by_cases hid : k.ref.id = c.id
      · simpa [List.lookup_cons, hid] using hx k hk hs hid
      · simp [List.lookup_cons, beq_eq_false_iff_ne.2 hid]

/-- Member variables are packed, if the classes among them are. -/
lemma packVars_isFlawless (cls : Class) (scalar : Struct) (mask : VType)
    {nested : ClassRef → PackedLayouts → Option Struct × PackedLayouts} :
    ∀ (vs : List MemberVar), (∀ v ∈ vs, ∀ q d, v.type = .cls q d → d.isSimd ∧
        ∀ l, IsFlawless p ds l → (nested d l).1.isSome ∧ IsFlawless p ds (nested d l).2) →
      ∀ (s : Struct) (l : PackedLayouts), IsFlawless p ds l →
        (packVars cls scalar W mask nested vs s true l).1.isSome ∧
          IsFlawless p ds (packVars cls scalar W mask nested vs s true l).2 := by
  intro vs
  induction vs with
  | nil => exact fun _ _ _ h => ⟨rfl, h⟩
  | cons v vs ih =>
    intro hn s l h
    obtain ⟨hv, hvs⟩ := List.forall_mem_cons.1 hn
    have placed : ∀ {l : PackedLayouts} (es : List ((String × String) × PackedMember)),
        IsFlawless p ds l → IsFlawless p ds { l with members := l.members ++ es } :=
      fun _ h => ⟨h.errors_eq, h.diagnostics_eq, h.found⟩
    unfold packVars
    simp only [placePacked_eq]
    split
    · rename_i q d hvt
      obtain ⟨hsimd, hd⟩ := hv q d hvt
      obtain ⟨hsome, hl⟩ := hd l h
      rw [if_neg (by simp [hsimd])]
      split
      · rename_i l' hres
        rw [hres] at hsome
        cases hsome
      · rename_i t l' hres
        rw [hres] at hl
        exact ih hvs _ _ (placed _ hl)
    · exact ih hvs _ _ (placed _ h)
    · exact ih hvs _ _ (placed _ h)

/-- A `simd` class is packed.

**Proof sketch.** By induction on the fuel, which lasts because a chain of classes that hold each
other has no class twice. -/
lemma packClassIn_isFlawless (hp : p.WellFormed) (ho : ∀ k ∈ p.classes, k.ref.isSimd → ∀ v ∈ k.vars,
      ∀ q d, v.type = .cls q d → d.isSimd) (hl : layouts.Complete p)
    (hground : ∀ k ∈ p.classes, IsGrounded p k.ref) : ∀ (fuel : Nat) (building : List Class)
    (c : ClassRef) (l : PackedLayouts), IsBuilding p fuel building →
      (∀ b ∈ building, Relation.TransGen (Nests p) b.ref c) → c ∈ p.classes.map Class.ref →
      c.isSimd → IsFlawless p ds l →
      (packClassIn p layouts W fuel c l).1.isSome ∧
        IsFlawless p ds (packClassIn p layouts W fuel c l).2
  | 0, _, _, _, hb, _, _, _, _ => absurd hb.fuel_pos (by simp)
  | fuel + 1, building, c, l, hb, hchain, hc, hsimd, h => by
    obtain ⟨hmem, href⟩ := hp.numbered.classOf_mem hc
    have hmsimd : (p.classOf c).ref.isSimd := by rwa [href]
    have hfound := h.found _ hmem hmsimd
    rw [href] at hfound
    obtain ⟨x, hx, heq⟩ | ⟨-, ⟨hnone, -⟩ | ⟨scalar, -, -, heq⟩⟩ :=
      packClassIn_cases p layouts W fuel c l
    · rw [heq]
      refine ⟨?_, h⟩
      cases x with
      | none => exact absurd hx hfound
      | some => rfl
    · obtain ⟨s, hs, -⟩ := hl _ hmem
      rw [href] at hs
      simp [hs, hsimd] at hnone
    · have hgrounded : IsGrounded p c := href ▸ hground _ hmem
      have hnew := hgrounded.notMem_building href hchain
      have hnested : ∀ v ∈ (p.classOf c).vars, ∀ q d, v.type = .cls q d → d.isSimd ∧
          ∀ l, IsFlawless p ds l → (packClassIn p layouts W fuel d l).1.isSome ∧
            IsFlawless p ds (packClassIn p layouts W fuel d l).2 := by
        intro v hv q d hvt
        have hnests : Nests p c d := ⟨v, hv, q, hvt⟩
        have hd := ho _ hmem hmsimd v hv q d hvt
        refine ⟨hd, fun l' hl' => packClassIn_isFlawless hp ho hl hground fuel
          (building ++ [p.classOf c]) d l' (hb.push hmem hnew) (forall_mem_push href hchain hnests)
          (List.mem_map.2 (hnests.valid hp)) hd hl'⟩
      obtain ⟨hsome, hinner⟩ := packVars_isFlawless (p.classOf c) scalar
        ((VType.scalar (.intOfSize (widest p c))).vector W) (p.classOf c).vars hnested
        { name := (p.classOf c).name ++ ".x" ++ toString W, isPacked := true, lanes := W } l h
      rw [heq]
      exact ⟨hsome, hinner.recorded fun k _ _ _ => Option.isSome_iff_ne_none.1 hsome⟩

/-- What is known about a class is known after it was packed. -/
lemma lookup_packClassIn (fuel : Nat) (c : ClassRef) (l : PackedLayouts) :
    ((packClassIn p layouts W (fuel + 1) c l).2.classes.lookup c.id).isSome := by
  have hrecorded : ∀ (n : String) (x : Option Struct) (l : PackedLayouts),
      ((recorded c n x l).classes.lookup c.id).isSome := by
    intro n x l
    rw [classes_recorded, List.lookup_append]
    simp
  obtain ⟨x, hx, heq⟩ | ⟨-, ⟨-, heq⟩ | ⟨scalar, -, -, heq⟩⟩ :=
    packClassIn_cases p layouts W fuel c l <;> rw [heq]
  · simp [hx]
  · exact hrecorded _ _ _
  · exact hrecorded _ _ _

/-- **All `simd` classes are packed**, and nothing is reported. -/
theorem packAll_isFlawless (hp : p.WellFormed) (ho : ∀ k ∈ p.classes, k.ref.isSimd → ∀ v ∈ k.vars,
      ∀ q d, v.type = .cls q d → d.isSimd) (hl : layouts.Complete p)
    (hground : ∀ k ∈ p.classes, IsGrounded p k.ref) :
    IsFlawless p ds (packAll p layouts W ds) ∧
      ∀ k ∈ p.classes, k.ref.isSimd → ((packAll p layouts W ds).struct? k.ref).isSome := by
  have step : ∀ k ∈ p.classes, ∀ l : PackedLayouts, IsFlawless p ds l →
      IsFlawless p ds (packClass p layouts W k.ref l).2 := by
    intro k hk l h
    cases hsimd : k.ref.isSimd with
    | true =>
      exact (packClassIn_isFlawless hp ho hl hground _ [] k.ref l
        ⟨nofun, List.nodup_nil, Nat.lt_succ_self _⟩ nofun (List.mem_map_of_mem hk) hsimd h).2
    | false =>
      obtain ⟨x, -, heq⟩ | ⟨-, ⟨-, heq⟩ | ⟨scalar, -, hs, -⟩⟩ :=
        packClassIn_cases p layouts W p.classes.length k.ref l
      · unfold packClass
        rwa [heq]
      · unfold packClass
        rw [heq]
        refine IsFlawless.recorded (c := k.ref) (n := "") (x := none) h fun k' hk' hs' hid => ?_
        obtain rfl := List.inj_on_of_nodup_map hp.ids_nodup hk' hk hid
        simp [hsimd] at hs'
      · simp [hsimd] at hs
  -- What is known about a class stays known.
  have fold : ∀ (cs : List Class) (l : PackedLayouts), (∀ k ∈ cs, k ∈ p.classes) →
      IsFlawless p ds l →
      IsFlawless p ds (cs.foldl (fun l c => (packClass p layouts W c.ref l).2) l) ∧
        ∀ k, k ∈ cs ∨ (l.classes.lookup k.ref.id).isSome →
          ((cs.foldl (fun l c => (packClass p layouts W c.ref l).2) l).classes.lookup
            k.ref.id).isSome := by
    intro cs
    induction cs with
    | nil => exact fun l _ h => ⟨h, fun k hk => by simpa using hk⟩
    | cons c cs ih =>
      intro l hcs h
      obtain ⟨hc, hcs⟩ := List.forall_mem_cons.1 hcs
      obtain ⟨hflaw, hknown⟩ := ih _ hcs (step c hc l h)
      refine ⟨hflaw, fun k hk => hknown k ?_⟩
      obtain hk | hk := hk
      · obtain rfl | hk := List.mem_cons.1 hk
        · exact .inr (lookup_packClassIn _ _ _)
        · exact .inl hk
      · obtain ⟨x, hx⟩ := Option.isSome_iff_exists.1 hk
        have hgrow : (packClass p layouts W c.ref l).2.classes.lookup k.ref.id = some x :=
          (grows_packClassIn _ c.ref l).classes _ x hx
        exact .inr (by rw [hgrow]; rfl)
  obtain ⟨hflaw, hknown⟩ := fold p.classes { diagnostics := ds } (fun _ h => h)
    ⟨rfl, rfl, fun _ _ _ => by simp⟩
  refine ⟨hflaw, fun k hk hs => ?_⟩
  obtain ⟨x, hx⟩ := Option.isSome_iff_exists.1 (hknown k (.inl hk))
  have hne := hflaw.found k hk hs
  unfold PackedLayouts.struct? packAll
  rw [hx] at hne ⊢
  cases x with
  | none => exact absurd rfl hne
  | some => rfl

end Flawless

end Lane.Packing
