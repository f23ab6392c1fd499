import Lane.Proofs.Code.Blocks
import Lane.Proofs.Code.Wide

set_option relaxedAutoImplicit false
set_option autoImplicit false

/-!
# Code in lockstep

Several runs of one function, each on its own state, and one run of another function that does the
work of all of them. The other function has some instructions for each instruction of the first. The
states are related, whatever the relation is, if straight-line instructions keep it and if all runs
take the same branches.

## Main definitions

* `Lane.Code.Wide.Follows`: straight-line code that keeps states related.
* `Lane.Code.Wide.Mirrors`, `Lane.Code.Wide.MirrorsAll`: the instructions for one instruction, and
  for several.

## Main results

* `Lane.Code.Wide.MirrorsAll.ends_iff`: the one run comes to an end if and only if all others do.
* `Lane.Code.Wide.MirrorsAll.ends`: the states are related in the end.
* `Lane.Code.Wide.Ends.of_agreesOn`: runs do not depend on registers at the start.
-/

namespace Lane.Code.Wide

section Lockstep

variable (I : Operators) (W : Nat) (R : (Nat → State) → State → Prop) (ψ : Label → Label → Prop)

/-- **Straight-line code that keeps states related**: it can be run after the instruction was run in
all of the states. -/
def Follows (i : Instr) (js : List Instr) : Prop :=
  ∀ s t, R s t → ∃ s' t', (∀ k < W, exec? I (s k) i = some (s' k)) ∧
    execAll? I t js = some t' ∧ R s' t'

/-- **The instructions for one instruction**. -/
inductive Mirrors : Instr → List Instr → Prop
  | label {l l' : Label} (h : ψ l l') : Mirrors (.label l) [.label l']
  | params : Mirrors .params [.params]
  | results : Mirrors .results [.results]
  | goto {l l' : Label} (h : ψ l l') : Mirrors (.goto l) [.goto l']
  | branch {c c' : Operand} {yes yes' no no' : Label}
      (hc : ∀ s t, R s t → ∀ k < W, (s k).lane c 0 = t.lane c' 0) (hyes : ψ yes yes')
      (hno : ψ no no') : Mirrors (.branch c yes no) [.branch c' yes' no']
  | straight {i : Instr} {js : List Instr} (hi : i.isStraight) (hjs : ∀ j ∈ js, j.isStraight)
      (hne : js ≠ []) (h : Follows I W R i js) : Mirrors i js

/-- **The instructions for several instructions**. -/
inductive MirrorsAll : List Instr → List Instr → Prop
  | nil : MirrorsAll [] []
  | cons {i : Instr} {is js ks : List Instr} (h : Mirrors I W R ψ i js) (h' : MirrorsAll is ks) :
      MirrorsAll (i :: is) (js ++ ks)

end Lockstep

variable {I : Operators} {W : Nat} {R : (Nat → State) → State → Prop}
  {ψ : Label → Label → Prop} {is ks body body' : List Instr} {s : Nat → State} {t : State}

/-- Code mirrors code if its parts do, one after the other. -/
lemma MirrorsAll.append {js ls : List Instr} (h : MirrorsAll I W R ψ is ks)
    (h' : MirrorsAll I W R ψ js ls) : MirrorsAll I W R ψ (is ++ js) (ks ++ ls) := by
  induction h with
  | nil => exact h'
  | cons hi _ ih =>
    rw [List.cons_append, List.append_assoc]
    exact .cons hi ih

/-- Code of one instruction mirrors it if it mirrors the instruction. -/
lemma MirrorsAll.singleton {i : Instr} {js : List Instr} (h : Mirrors I W R ψ i js) :
    MirrorsAll I W R ψ [i] js := by
  simpa using MirrorsAll.cons h .nil

/-- Labels that belong together, one for one. -/
def OneForOne (ψ : Label → Label → Prop) : Prop :=
  ∀ l l' m m', ψ l l' → ψ m m' → (l = m ↔ l' = m')

/-- There is no label in straight-line code. -/
lemma after?_append {js : List Instr} (hjs : ∀ j ∈ js, j.isStraight) (l : Label) :
    after? l (js ++ ks) = after? l ks := by
  induction js with
  | nil => rfl
  | cons j js ih =>
    obtain ⟨hj, hjs⟩ := List.forall_mem_cons.1 hjs
    rw [← ih hjs]
    cases j <;> first | rfl | cases hj

/-- The same comes after labels that belong together. -/
lemma MirrorsAll.after? (hψ : OneForOne ψ) (h : MirrorsAll I W R ψ is ks) {l l' : Label}
    (hl : ψ l l') :
    (∃ is' ks', after? l is = some is' ∧ after? l' ks = some ks' ∧ MirrorsAll I W R ψ is' ks') ∨
      after? l is = none ∧ after? l' ks = none := by
  induction h with
  | nil => exact .inr ⟨rfl, rfl⟩
  | @cons i is js ks h hrest ih =>
    cases h with
    | @label m m' hm =>
      have hiff := hψ m m' l l' hm hl
      by_cases he : m = l
      · exact .inl ⟨is, ks, by simp [Wide.after?, he], by simp [Wide.after?, hiff.1 he], hrest⟩
      · have he' : m' ≠ l' := fun h => he (hiff.2 h)
        simpa [Wide.after?, he, he'] using ih
    | params | results | goto | branch => simpa [Wide.after?] using ih
    | straight hi hjs =>
      have hskip : Wide.after? l (i :: is) = Wide.after? l is :=
        @after?_append is [i] (by simpa using hi) l
      rw [after?_append hjs, hskip]
      exact ih

section Run

variable (hψ : OneForOne ψ) (hbody : MirrorsAll I W R ψ body body')

/-- **One instruction in lockstep**: all runs move on to the same place and the other run follows,
or none can. -/
def Moves (I : Operators) (W : Nat) (R : (Nat → State) → State → Prop) (ψ : Label → Label → Prop)
    (body body' is ks : List Instr) (s : Nat → State) (t : State) : Prop :=
  (∃ is' ks' s' t', ∃ n > 0, (∀ k < W, step? I body is (s k) = some (is', s' k)) ∧
      (∀ m u, EndsIn I body' m ks t u ↔ ∃ m', m = m' + n ∧ EndsIn I body' m' ks' t' u) ∧
      MirrorsAll I W R ψ is' ks' ∧ R s' t') ∨
    (∀ k < W, step? I body is (s k) = none) ∧ ∀ m u, ¬EndsIn I body' m ks t u

include hψ hbody in
/-- All runs jump to labels that belong together. -/
lemma moves_of_jump (hR : R s t) {l l' : Label} (hl : ψ l l')
    (hs : ∀ k < W, step? I body is (s k) = (after? l body).map fun is' => (is', s k))
    (ht : step? I body' ks t = (after? l' body').map fun ks' => (ks', t)) (hne : ks ≠ []) :
    Moves I W R ψ body body' is ks s t := by
  obtain ⟨is', ks', his, hks, hrest⟩ | ⟨his, hks⟩ := hbody.after? hψ hl
  · rw [hks] at ht
    refine .inl ⟨is', ks', s, t, 1, Nat.one_pos, fun k hk => ?_,
      fun m u => endsIn_iff_of_step? ht, hrest, hR⟩
    rw [hs k hk, his]
    rfl
  · rw [hks] at ht
    refine .inr ⟨fun k hk => by rw [hs k hk, his]; rfl, fun m u h => ?_⟩
    cases h with
    | done => exact hne rfl
    | step h _ => cases ht.symm.trans h

include hψ hbody in
/-- **One instruction in lockstep**. -/
lemma Mirrors.moves {i : Instr} {js : List Instr} (h : Mirrors I W R ψ i js)
    (h' : MirrorsAll I W R ψ is ks) (hR : R s t) :
    Moves I W R ψ body body' (i :: is) (js ++ ks) s t := by
  cases h with
  | label | params | results =>
    exact .inl ⟨is, ks, s, t, 1, Nat.one_pos, fun _ _ => rfl,
      fun m u => endsIn_iff_of_step? rfl, h', hR⟩
  | goto hl => exact moves_of_jump hψ hbody hR hl (fun _ _ => rfl) rfl (by simp)
  | @branch c c' yes yes' no no' hc hyes hno =>
    -- All conditions are that of the other run.
    by_cases hzero : t.lane c' 0 = 0
    · refine moves_of_jump hψ hbody hR hno (fun k hk => ?_) ?_ (by simp)
      · simp [step?, hc s t hR k hk, hzero]
      · simp [step?, hzero]
    · refine moves_of_jump hψ hbody hR hyes (fun k hk => ?_) ?_ (by simp)
      · simp [step?, hc s t hR k hk, hzero]
      · simp [step?, hzero]
  | straight hi hjs hne hfollows =>
    obtain ⟨s', t', hs, ht, hR'⟩ := hfollows s t hR
    refine .inl ⟨is, ks, s', t', js.length, List.length_pos_iff.2 hne, fun k hk => ?_,
      fun m u => ?_, h', hR'⟩
    · rw [step?_of_isStraight I body hi, hs k hk]
      rfl
    · rw [endsIn_append_iff hjs]
      constructor
      · rintro ⟨m', t'', rfl, hall, hends⟩
        obtain rfl := Option.some.inj (ht.symm.trans hall)
        exact ⟨m', rfl, hends⟩
      · rintro ⟨m', rfl, hends⟩
        exact ⟨m', t', rfl, ht, hends⟩

include hψ hbody in
/-- Code that mirrors other code makes moves with it. -/
lemma MirrorsAll.moves (h : MirrorsAll I W R ψ is ks) (hne : is ≠ []) (hR : R s t) :
    Moves I W R ψ body body' is ks s t := by
  cases h with
  | nil => exact absurd rfl hne
  | cons hi hrest => exact Mirrors.moves hψ hbody hi hrest hR

include hψ hbody in
/-- All runs come to an end with the one that does the work of all of them.

**Proof sketch.** By induction on the number of instructions that the one run still has to do, which
is smaller after the instructions for one instruction. -/
lemma MirrorsAll.ends_of_endsIn : ∀ {n : Nat} {is ks : List Instr}
    {s : Nat → State} {t t' : State}, MirrorsAll I W R ψ is ks → R s t →
    EndsIn I body' n ks t t' → ∃ s', (∀ k < W, Ends I body is (s k) (s' k)) ∧ R s' t' := by
  intro n
  induction n using Nat.strongRecOn with
  | _ n ih =>
    intro is ks s t t' h hR hends
    obtain rfl | hne := eq_or_ne is []
    · cases h
      cases hends with
      | done => exact ⟨s, fun k _ => ⟨0, .done _⟩, hR⟩
      | step h _ => cases h
    · obtain ⟨is', ks', s₁, t₁, m, hm, hs, ht, hrest, hR₁⟩ | ⟨-, hstuck⟩ :=
        MirrorsAll.moves hψ hbody h hne hR
      · obtain ⟨n', rfl, hends'⟩ := (ht n t').1 hends
        obtain ⟨s', hs', hR'⟩ := ih n' (by omega) hrest hR₁ hends'
        refine ⟨s', fun k hk => ?_, hR'⟩
        obtain ⟨l, hl⟩ := hs' k hk
        exact ⟨l + 1, .step (hs k hk) hl⟩
      · exact (hstuck n t' hends).elim

include hψ hbody in
/-- The run that does the work of all others comes to an end with the first of them.

**Proof sketch.** By induction on the number of instructions that the first run still has to do. -/
lemma MirrorsAll.ends_of_endsIn_zero (hW : 0 < W) : ∀ {n : Nat} {is ks : List Instr}
    {s : Nat → State} {t u : State}, MirrorsAll I W R ψ is ks → R s t →
    EndsIn I body n is (s 0) u → ∃ t', Ends I body' ks t t' := by
  intro n
  induction n with
  | zero =>
    intro is ks s t u h hR hends
    cases hends with
    | done =>
      cases h
      exact ⟨t, 0, .done t⟩
  | succ n ih =>
    intro is ks s t u h hR hends
    cases hends with
    | step hstep hends =>
      have hne : is ≠ [] := by
        rintro rfl
        cases hstep
      obtain ⟨is', ks', s₁, t₁, m, hm, hs, ht, hrest, hR₁⟩ | ⟨hstuck, -⟩ :=
        MirrorsAll.moves hψ hbody h hne hR
      · obtain ⟨rfl, rfl⟩ := Prod.mk.inj (Option.some.inj ((hs 0 hW).symm.trans hstep))
        obtain ⟨t', l, hl⟩ := ih hrest hR₁ hends
        exact ⟨t', l + m, (ht _ _).2 ⟨l, rfl, hl⟩⟩
      · cases (hstuck 0 hW).symm.trans hstep

include hψ hbody in
/-- **Runs in lockstep**: the one run comes to an end if and only if all others do. -/
theorem MirrorsAll.ends_iff (hW : 0 < W) (hR : R s t) :
    (∃ t', Ends I body' body' t t') ↔ ∀ k < W, ∃ s', Ends I body body (s k) s' := by
  constructor
  · rintro ⟨t', n, hends⟩ k hk
    obtain ⟨s', hs', -⟩ := MirrorsAll.ends_of_endsIn hψ hbody hbody hR hends
    exact ⟨s' k, hs' k hk⟩
  · intro h
    obtain ⟨u, n, hends⟩ := h 0 hW
    exact MirrorsAll.ends_of_endsIn_zero hψ hbody hW hbody hR hends

include hψ hbody in
/-- **Runs in lockstep**: the states are related in the end. -/
theorem MirrorsAll.ends (hR : R s t) {s' : Nat → State} {t' : State}
    (ht : Ends I body' body' t t') (hs : ∀ k < W, Ends I body body (s k) (s' k)) :
    ∃ s'', (∀ k < W, s'' k = s' k) ∧ R s'' t' := by
  obtain ⟨n, hends⟩ := ht
  obtain ⟨s'', hs'', hR'⟩ := MirrorsAll.ends_of_endsIn hψ hbody hbody hR hends
  exact ⟨s'', fun k hk => (hs'' k hk).unique (hs k hk), hR'⟩

end Run

/-! ## Registers at the start -/

/-- **States that differ in registers only**, and not in those of `L`. -/
structure State.AgreesOn (L : List Reg) (s s' : State) : Prop where
  regs : ∀ r ∈ L, s.regs r = s'.regs r
  vars : s.vars = s'.vars
  slots : s.slots = s'.slots
  mem : s.mem = s'.mem

section Registers

variable {I : Operators} {L : List Reg} {s s' t : State} {o : Operand} {i : Instr}
  {is is' body : List Instr} {n : Nat}

namespace State.AgreesOn

/-- Agreement is symmetric. -/
lemma symm (h : s.AgreesOn L s') : s'.AgreesOn L s :=
  ⟨fun r hr => (h.regs r hr).symm, h.vars.symm, h.slots.symm, h.mem.symm⟩

/-- States agree on no registers if they agree on some. -/
lemma nil (h : s.AgreesOn L s') : s.AgreesOn [] s' := ⟨nofun, h.vars, h.slots, h.mem⟩

/-- States that agree have the same lanes in what they agree on. -/
lemma lane_eq (h : s.AgreesOn L s') (ho : ∀ r, o = .reg r → r ∈ L) : s.lane o = s'.lane o := by
  refine lane_congr ?_
  cases o with
  | reg r => exact h.regs r (ho r rfl)
  | var v => exact congrFun h.vars v
  | slot x => exact funext fun _ => congrFun h.slots x
  | const | absent => rfl

/-- States that agree have the same addresses. -/
lemma address_eq (h : s.AgreesOn L s') (ho : ∀ r, o = .reg r → r ∈ L) (off : Option Offset) :
    s.address o off = s'.address o off := by
  rw [address, address, h.lane_eq ho]

/-- What is assigned in both states is agreed on afterwards. -/
lemma put? {d : Operand} {v : Value} (h : s.AgreesOn L s') (hi : i.dst? = some d)
    (ht : s.put? d v = some t) :
    ∃ t', s'.put? d v = some t' ∧ t.AgreesOn (i.reg?.toList ++ L) t' := by
  rw [Instr.reg?, hi]
  cases d with
  | reg r =>
    obtain rfl := Option.some.inj ht
    refine ⟨_, rfl, fun r' hr' => ?_, h.vars, h.slots, h.mem⟩
    show Function.update s.regs r v r' = Function.update s'.regs r v r'
    by_cases he : r' = r
    · rw [he, Function.update_self, Function.update_self]
    · rw [Function.update_of_ne he, Function.update_of_ne he]
      exact h.regs r' ((List.mem_cons.1 hr').resolve_left he)
  | var x =>
    obtain rfl := Option.some.inj ht
    exact ⟨_, rfl, h.regs, congrArg (Function.update · x v) h.vars, h.slots, h.mem⟩
  | const | slot | absent => cases ht

/-- Straight-line instructions that use registers of `L` only. -/
lemma exec? (h : s.AgreesOn L s') (hu : ∀ r, .reg r ∈ i.uses → r ∈ L)
    (ht : Wide.exec? I s i = some t) :
    ∃ t', Wide.exec? I s' i = some t' ∧ t.AgreesOn (i.defines ++ L) t' := by
  cases i with
  | assign kind d args =>
    have hargs : args.map (fun a => (a.type, s.lane a)) = args.map fun a => (a.type, s'.lane a) :=
      List.map_congr_left fun a ha => congrArg _ (h.lane_eq fun r hr => hu r (hr ▸ ha))
    rw [Wide.exec?, hargs] at ht
    exact h.put? (i := .assign kind d args) rfl ht
  | load d p off =>
    rw [Wide.exec?, h.mem, h.address_eq fun r hr => hu r (hr ▸ List.mem_singleton_self _)] at ht
    exact h.put? (i := .load d p off) rfl ht
  | lea d p off =>
    rw [Wide.exec?, h.address_eq fun r hr => hu r (hr ▸ List.mem_singleton_self _)] at ht
    exact h.put? (i := .lea d p off) rfl ht
  | store p off a =>
    obtain rfl := Option.some.inj ht
    refine ⟨_, rfl, h.regs, h.vars, h.slots, ?_⟩
    simp only [h.mem, h.address_eq (o := p) fun r hr => hu r (hr ▸ List.mem_cons_self),
      h.lane_eq (o := a) fun r hr => hu r (hr ▸ List.mem_cons_of_mem _ (List.mem_singleton_self _))]
  | _ => cases ht

end State.AgreesOn

/-- A state with nothing in registers. -/
def State.cleared (s : State) : State := { s with regs := fun _ _ => 0 }

/-- A state agrees with the one without registers on all else. -/
lemma State.agreesOn_cleared (s : State) : s.AgreesOn [] s.cleared := ⟨nofun, rfl, rfl, rfl⟩

/-- A register that was cleared is zero. -/
lemma State.lane_cleared (s : State) (r : Reg) (i : Nat) : s.cleared.lane (.reg r) i = 0 := by
  have hcut : ∀ k : Kind, k.cut 0 = 0 := fun k => by simp [Kind.cut]
  unfold lane
  rw [show s.cleared.held (.reg r) i = 0 from rfl, hcut, ite_self]

/-- What comes after a label of confined code is confined. -/
lemma confined_of_after? {l : Label} : ∀ {is is' : List Instr} {L : List Reg}, Confined L is →
    after? l is = some is' → Confined [] is'
  | i :: is, is', L, hc, h => by
    cases i with
    | label m =>
      rw [after?] at h
      split at h
      · exact Option.some.inj h ▸ hc.2
      · exact confined_of_after? hc.2 h
    | _ => exact confined_of_after? hc.2 h

/-- One instruction of confined code. -/
lemma State.AgreesOn.step? (h : s.AgreesOn L s') (hbody : Confined [] body) (hc : Confined L is)
    (ht : Wide.step? I body is s = some (is', t)) :
    ∃ t' M, Wide.step? I body is s' = some (is', t') ∧ Confined M is' ∧ t.AgreesOn M t' := by
  cases is with
  | nil => cases ht
  | cons i is =>
    cases hi : i.isStraight with
    | true =>
      rw [step?_of_isStraight I body hi, Option.map_eq_some_iff] at ht
      obtain ⟨t₁, ht, heq⟩ := ht
      obtain ⟨rfl, rfl⟩ := Prod.mk.inj heq
      obtain ⟨t', ht', hagree⟩ := h.exec? hc.1 ht
      refine ⟨t', _, ?_, Instr.after_of_isStraight L hi ▸ hc.2, hagree⟩
      rw [step?_of_isStraight I body hi, ht']
      rfl
    | false =>
      cases i with
      | label | params | results =>
        obtain ⟨rfl, rfl⟩ := Prod.mk.inj (Option.some.inj ht)
        exact ⟨s', [], rfl, hc.2, h.nil⟩
      | goto l =>
        obtain ⟨js, hjs, heq⟩ := Option.map_eq_some_iff.1 ht
        obtain ⟨rfl, rfl⟩ := Prod.mk.inj heq
        exact ⟨s', [], Option.map_eq_some_iff.2 ⟨_, hjs, rfl⟩, confined_of_after? hbody hjs, h.nil⟩
      | branch c yes no =>
        obtain ⟨js, hjs, heq⟩ := Option.map_eq_some_iff.1 ht
        obtain ⟨rfl, rfl⟩ := Prod.mk.inj heq
        rw [h.lane_eq fun r hr => hc.1 r (hr ▸ List.mem_singleton_self _)] at hjs
        exact ⟨s', [], Option.map_eq_some_iff.2 ⟨_, hjs, rfl⟩, confined_of_after? hbody hjs, h.nil⟩
      | _ => cases hi

/-- **Runs of confined code do not depend on registers**: they end in states that differ in
registers only. -/
theorem Ends.of_agreesOn (h : Ends I body is s t) (hbody : Confined [] body) (hc : Confined L is)
    (hs : s.AgreesOn L s') : ∃ t', Ends I body is s' t' ∧ t.AgreesOn [] t' := by
  obtain ⟨n, h⟩ := h
  induction h generalizing L s' with
  | done s => exact ⟨s', ⟨0, .done s'⟩, hs.nil⟩
  | step hstep _ ih =>
    obtain ⟨t₁, M, ht₁, hM, hagree⟩ := hs.step? hbody hc hstep
    obtain ⟨t', ⟨k, hk⟩, hagree'⟩ := ih hM hagree
    exact ⟨t', ⟨k + 1, .step ht₁ hk⟩, hagree'⟩

end Registers

end Lane.Code.Wide
