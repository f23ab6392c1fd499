import Lane.Packing.Lanes
import Mathlib.Algebra.BigOperators.Group.List.Basic
import Mathlib.Algebra.Order.BigOperators.Group.List
import Mathlib.Algebra.Order.Ring.Nat
import Mathlib.Tactic.Lemma

set_option relaxedAutoImplicit false
set_option autoImplicit false

/-!
# Lanes are settled

The lanes of operands spread along the instructions of a function. No instruction raises an operand
any further in the end: each sweep that changes something uses up some of the height that operands
can still rise, and there are more sweeps than height.

## Main definitions

* `Lane.Packing.Lanes.Settled`: lanes that no instruction raises.
* `Lane.Packing.Lanes.height`: how far operands can still rise.
* `Lane.Packing.Lanes.Le`: lanes in which operands have risen.
* `Lane.Packing.Lanes.IsSolution`: what the instructions ask of the lanes of operands.

## Main results

* `Lane.Packing.Lanes.settle_settled`: lanes are settled in the end.
* `Lane.Packing.Lanes.settle_induction`: what no instruction changes holds in the end.
* `Lane.Packing.Lanes.ofFunction_isSolution`: the lanes of a function, found in finitely many
  sweeps.
-/

namespace Lane.Packing.Lanes

open Lane.Code

variable {env : PackEnv} {m m' : Lanes} {o : Operand} {l : LaneKind} {i : Instr}
  {code : List Instr}

/-- Whether an operand is raised to a lane kind that it has not reached. -/
def Rises (m : Lanes) (p : Operand × LaneKind) : Prop :=
  canRise p.1 ∧ (m.get p.1).rank < p.2.rank

/-- **Settled lanes**: no instruction raises an operand. -/
def Settled (env : PackEnv) (m : Lanes) (code : List Instr) : Prop :=
  ∀ i ∈ code, ∀ p ∈ m.raised env i, ¬m.Rises p

/-! ## Raising -/

/-- Lanes after one operand's were set. -/
lemma get_set (m : Lanes) (o o' : Operand) (l : LaneKind) :
    (m.set o l).get o' = if o' = o then l else m.get o' := by
  unfold get set
  rw [List.lookup_cons]
  by_cases h : o' = o <;> simp [h, beq_eq_false_iff_ne.2]

/-- Raising an operand that rises sets its lanes. -/
lemma raise_of_rises {p : Operand × LaneKind} (h : m.Rises p) :
    m.raise p.1 p.2 = m.set p.1 p.2 := by
  simp [raise, h.1, h.2]

/-- Raising an operand that does not rise changes nothing. -/
lemma raise_of_not_rises {p : Operand × LaneKind} (h : ¬m.Rises p) : m.raise p.1 p.2 = m := by
  unfold raise
  refine if_neg fun hr => h ?_
  simpa [Rises] using hr

/-- How far operands can still rise. -/
def height (os : List Operand) (m : Lanes) : Nat := (os.map fun o => 2 - (m.get o).rank).sum

/-- There are three ranks. -/
lemma rank_le (l : LaneKind) : l.rank ≤ 2 := by cases l <;> decide

/-- Each operand rises twice at most. -/
lemma height_le (os : List Operand) (m : Lanes) : height os m ≤ 2 * os.length := by
  induction os with
  | nil => simp [height]
  | cons o os ih =>
    simp only [height, List.map_cons, List.sum_cons, List.length_cons] at ih ⊢
    omega

/-- An operand that rises uses up height. -/
lemma height_set_lt {os : List Operand} (ho : o ∈ os) (h : (m.get o).rank < l.rank) :
    height os (m.set o l) < height os m := by
  have hl := rank_le l
  refine List.sum_lt_sum _ _ (fun o' _ => ?_) ⟨o, ho, ?_⟩
  · rw [get_set]
    split
    · rename_i he
      subst he
      omega
    · exact Nat.le_refl _
  · rw [get_set, if_pos rfl]
    omega

/-- What is raised uses up height for each new entry, and nothing rises without a new entry. -/
lemma raiseAll_spec {os : List Operand} : ∀ {ps : List (Operand × LaneKind)} {m : Lanes},
    (∀ p ∈ ps, p.1 ∈ os) → m.entries.length ≤ (m.raiseAll ps).entries.length ∧
      height os (m.raiseAll ps) + (m.raiseAll ps).entries.length ≤
        height os m + m.entries.length ∧
      ((m.raiseAll ps).entries.length = m.entries.length →
        m.raiseAll ps = m ∧ ∀ p ∈ ps, ¬m.Rises p)
  | [], m, _ => ⟨Nat.le_refl _, Nat.le_refl _, fun _ => ⟨rfl, by simp⟩⟩
  | p :: ps, m, hps => by
    obtain ⟨hp, hps⟩ := List.forall_mem_cons.1 hps
    have hcons : m.raiseAll (p :: ps) = (m.raise p.1 p.2).raiseAll ps := rfl
    obtain ⟨hle, hheight, hsame⟩ := raiseAll_spec (m := m.raise p.1 p.2) hps
    rw [hcons]
    by_cases h : m.Rises p
    · rw [raise_of_rises h] at hle hheight ⊢
      have hlt := height_set_lt hp h.2
      have hlen : (m.set p.1 p.2).entries.length = m.entries.length + 1 := rfl
      exact ⟨by omega, by omega, fun he => by omega⟩
    · rw [raise_of_not_rises h] at hle hheight hsame ⊢
      refine ⟨hle, hheight, fun he => ?_⟩
      exact ⟨(hsame he).1, List.forall_mem_cons.2 ⟨h, (hsame he).2⟩⟩

/-! ## Sweeps -/

/-- The operands that an instruction may raise. -/
def risers : Instr → List Operand
  | .assign _ d _ | .load d _ _ | .lea d _ _ => [d]
  | .store p _ _ => [p]
  | .call _ _ outs => outs
  | _ => []

/-- An instruction raises operands that it may raise. -/
lemma mem_risers {p : Operand × LaneKind} (h : p ∈ m.raised env i) : p.1 ∈ risers i := by
  unfold raised at h
  split at h
  · rw [List.mem_singleton.1 h]
    exact List.mem_singleton_self _
  · rw [List.mem_singleton.1 h]
    exact List.mem_singleton_self _
  · split at h
    · rw [List.mem_singleton.1 h]
      exact List.mem_singleton_self _
    · cases h
  · split at h
    · rw [List.mem_singleton.1 h]
      exact List.mem_singleton_self _
    · cases h
  · split at h
    · exact (List.of_mem_zip h).1
    · cases h
  · cases h

/-- An instruction raises at most as many operands as are counted for it. -/
lemma length_risers_le (i : Instr) : (risers i).length ≤ raisable i := by
  cases i <;> simp [risers, raisable]

/-- Code raises at most as many operands as are counted for it. -/
lemma length_flatMap_risers_le (code : List Instr) :
    (code.flatMap risers).length ≤ code.foldr (fun i n => raisable i + n) 0 := by
  induction code with
  | nil => simp
  | cons i code ih =>
    have := length_risers_le i
    simp only [List.flatMap_cons, List.length_append, List.foldr_cons]
    omega

/-- A sweep uses up height for each new entry, and nothing rises without a new entry. -/
lemma sweep_spec (env : PackEnv) {os : List Operand} : ∀ {code : List Instr} {m : Lanes},
    (∀ i ∈ code, ∀ o ∈ risers i, o ∈ os) → m.entries.length ≤ (m.sweep env code).entries.length ∧
      height os (m.sweep env code) + (m.sweep env code).entries.length ≤
        height os m + m.entries.length ∧
      ((m.sweep env code).entries.length = m.entries.length → Settled env m code)
  | [], m, _ => ⟨Nat.le_refl _, Nat.le_refl _, fun _ => by simp [Settled]⟩
  | i :: code, m, hos => by
    obtain ⟨hi, hos⟩ := List.forall_mem_cons.1 hos
    have hcons : m.sweep env (i :: code) = (m.step env i).sweep env code := rfl
    have hraised : ∀ p ∈ m.raised env i, p.1 ∈ os := fun p hp => hi _ (mem_risers hp)
    obtain ⟨hle, hheight, hsame⟩ := raiseAll_spec (m := m) hraised
    obtain ⟨hle', hheight', hsettled⟩ := sweep_spec env (m := m.step env i) hos
    have hstep : m.step env i = m.raiseAll (m.raised env i) := rfl
    rw [hcons]
    rw [← hstep] at hle hheight hsame
    refine ⟨by omega, by omega, fun he => ?_⟩
    obtain ⟨hm, hrises⟩ := hsame (by omega)
    rw [hm] at hsettled he
    exact List.forall_mem_cons.2 ⟨hrises, hsettled he⟩

/-- There are enough sweeps if there are more than operands can rise. -/
lemma settleIn_settled {os : List Operand} (hos : ∀ i ∈ code, ∀ o ∈ risers i, o ∈ os) :
    ∀ {fuel : Nat} {m : Lanes}, height os m < fuel → Settled env (settleIn env code fuel m) code
  | 0, _, h => by omega
  | fuel + 1, m, h => by
    obtain ⟨hle, hheight, hsettled⟩ := sweep_spec env (m := m) hos
    unfold settleIn
    simp only
    split
    · rename_i he
      exact hsettled he
    · exact settleIn_settled hos (by omega)

/-- **Lanes are settled in the end**. -/
theorem settle_settled (env : PackEnv) (code : List Instr) (m : Lanes) :
    Settled env (m.settle env code) code := by
  have hos : ∀ i ∈ code, ∀ o ∈ risers i, o ∈ code.flatMap risers :=
    fun i hi o ho => List.mem_flatMap.2 ⟨i, hi, ho⟩
  refine settleIn_settled hos ?_
  have := height_le (code.flatMap risers) m
  have := length_flatMap_risers_le code
  omega

/-! ## Invariants -/

/-- Operands only ever rise. -/
def Le (m m' : Lanes) : Prop := ∀ o, (m.get o).rank ≤ (m'.get o).rank

/-- Lanes are not below themselves. -/
lemma Le.refl (m : Lanes) : m.Le m := fun _ => Nat.le_refl _

/-- The order of lanes is transitive. -/
lemma Le.trans {m'' : Lanes} (h : m.Le m') (h' : m'.Le m'') : m.Le m'' :=
  fun o => Nat.le_trans (h o) (h' o)

/-- What rises is raised. -/
lemma Rises.le_set {p : Operand × LaneKind} (h : m.Rises p) : m.Le (m.set p.1 p.2) := by
  intro o
  rw [get_set]
  split
  · rename_i he
    exact he ▸ Nat.le_of_lt h.2
  · exact Nat.le_refl _

/-- What single raises preserve is preserved by all. -/
lemma raiseAll_induction {P : Lanes → Prop} : ∀ {ps : List (Operand × LaneKind)} {m m' : Lanes},
    (∀ p ∈ ps, ∀ m', m.Le m' → P m' → m'.Rises p → P (m'.set p.1 p.2)) → m.Le m' → P m' →
      m.Le (m'.raiseAll ps) ∧ P (m'.raiseAll ps)
  | [], _, _, _, hle, hm => ⟨hle, hm⟩
  | p :: ps, m, m', hset, hle, hm => by
    obtain ⟨hp, hps⟩ := List.forall_mem_cons.1 hset
    have hcons : m'.raiseAll (p :: ps) = (m'.raise p.1 p.2).raiseAll ps := rfl
    rw [hcons]
    by_cases h : m'.Rises p
    · rw [raise_of_rises h]
      exact raiseAll_induction hps (hle.trans h.le_set) (hp m' hle hm h)
    · rw [raise_of_not_rises h]
      exact raiseAll_induction hps hle hm

/-- **What no instruction changes** holds in the end. An instruction raises operands above the lanes
from which it says how far. -/
theorem settle_induction {P : Lanes → Prop} (hset : ∀ i ∈ code, ∀ m, P m →
    ∀ p ∈ m.raised env i, ∀ m', m.Le m' → P m' → m'.Rises p → P (m'.set p.1 p.2)) (hm : P m) :
    m.Le (m.settle env code) ∧ P (m.settle env code) := by
  have sweep : ∀ (is : List Instr) (m : Lanes), (∀ i ∈ is, i ∈ code) → P m →
      m.Le (m.sweep env is) ∧ P (m.sweep env is) := by
    intro is
    induction is with
    | nil => exact fun m _ hm => ⟨.refl m, hm⟩
    | cons i is ih =>
      intro m his hm
      obtain ⟨hi, his⟩ := List.forall_mem_cons.1 his
      obtain ⟨hle, hstep⟩ := raiseAll_induction (hset i hi m hm) (.refl m) hm
      exact (ih (m.step env i) his hstep).imp_left hle.trans
  have settleIn : ∀ (fuel : Nat) (m : Lanes), P m →
      m.Le (settleIn env code fuel m) ∧ P (settleIn env code fuel m) := by
    intro fuel
    induction fuel with
    | zero => exact fun m hm => ⟨.refl m, hm⟩
    | succ fuel ih =>
      intro m hm
      unfold Lanes.settleIn
      simp only
      split
      · exact ⟨.refl m, hm⟩
      · obtain ⟨hle, hsweep⟩ := sweep code m (fun _ => id) hm
        exact (ih _ hsweep).imp_left hle.trans
  exact settleIn _ _ hm

/-! ## Rounds -/

/-- Where nothing rises, nothing is changed. -/
lemma raiseAll_eq_self : ∀ {ps : List (Operand × LaneKind)}, (∀ p ∈ ps, ¬m.Rises p) →
    m.raiseAll ps = m
  | [], _ => rfl
  | p :: ps, h => by
    obtain ⟨hp, hps⟩ := List.forall_mem_cons.1 h
    calc m.raiseAll (p :: ps) = (m.raise p.1 p.2).raiseAll ps := rfl
      _ = m.raiseAll ps := by rw [raise_of_not_rises hp]
      _ = m := raiseAll_eq_self hps

/-- Settled lanes are not changed by another sweep. -/
lemma Settled.sweep_eq (h : Settled env m code) : m.sweep env code = m := by
  induction code with
  | nil => rfl
  | cons i code ih =>
    obtain ⟨hi, hcode⟩ := List.forall_mem_cons.1 h
    calc m.sweep env (i :: code) = (m.step env i).sweep env code := rfl
      _ = m.sweep env code := by rw [step, raiseAll_eq_self hi]
      _ = m := ih hcode

/-- The sweeps come to an end before the height is used up. -/
lemma exists_iterate_settleIn {os : List Operand} (hos : ∀ i ∈ code, ∀ o ∈ risers i, o ∈ os) :
    ∀ {fuel : Nat} {m : Lanes}, height os m < fuel →
      ∃ n ≤ height os m, (sweep env code)^[n] m = settleIn env code fuel m
  | 0, _, h => by omega
  | fuel + 1, m, h => by
    obtain ⟨hle, hheight, -⟩ := sweep_spec env (m := m) hos
    unfold settleIn
    simp only
    split
    · exact ⟨0, Nat.zero_le _, rfl⟩
    · obtain ⟨n, hn, he⟩ : ∃ n ≤ height os (m.sweep env code),
          (sweep env code)^[n] (m.sweep env code) = settleIn env code fuel (m.sweep env code) :=
        exists_iterate_settleIn hos (by omega)
      exact ⟨n + 1, by omega, he⟩

/-- **There are at most two rounds for each operand that an instruction raises**. -/
theorem exists_iterate_settle (env : PackEnv) (code : List Instr) (m : Lanes) :
    ∃ n ≤ 2 * (code.flatMap risers).length, (sweep env code)^[n] m = m.settle env code := by
  have hos : ∀ i ∈ code, ∀ o ∈ risers i, o ∈ code.flatMap risers :=
    fun i hi o ho => List.mem_flatMap.2 ⟨i, hi, ho⟩
  have hheight := height_le (code.flatMap risers) m
  have hlength := length_flatMap_risers_le code
  obtain ⟨n, hn, he⟩ : ∃ n ≤ height (code.flatMap risers) m,
      (sweep env code)^[n] m = m.settle env code :=
    exists_iterate_settleIn hos (by omega)
  exact ⟨n, by omega, he⟩

/-! ## What is known at the start -/

/-- The entries after lanes were set in turn. -/
lemma entries_foldl_set : ∀ (ps : List (Operand × LaneKind)) (m : Lanes),
    (ps.foldl (fun m (o, l) => m.set o l) m).entries = ps.reverse ++ m.entries
  | [], m => rfl
  | (o, l) :: ps, m => by
    rw [List.foldl_cons, entries_foldl_set ps]
    simp [set]

/-- Slots are packed or uniform at first, and what is set for parameters and results is set for no
slot. -/
lemma get_foldl_packed : ∀ (slots : List Slot) (m : Lanes) (o : Operand),
    (slots.foldl (fun m s => m.set (.slot s) .packed) m).get o = m.get o ∨
      (∃ s, o = .slot s) ∧ (slots.foldl (fun m s => m.set (.slot s) .packed) m).get o = .packed
  | [], _, _ => .inl rfl
  | s :: slots, m, o => by
    rw [List.foldl_cons]
    obtain hget | hpacked := get_foldl_packed slots (m.set (.slot s) .packed) o
    · rw [get_set] at hget
      by_cases h : o = .slot s
      · exact .inr ⟨⟨s, h⟩, hget.trans (if_pos h)⟩
      · exact .inl (hget.trans (if_neg h))
    · exact .inr hpacked

/-- An operand that is no slot starts with the lane kind that it has as a parameter or result. -/
lemma get_start_eq (env : PackEnv) (d : DeclLanes) (f : Function) (ho : ∀ s, o ≠ .slot s) :
    (start env d f).get o =
      ((f.params.zip d.params ++ f.results.zip d.results).reverse.lookup o).getD .uniform := by
  unfold start
  extract_lets bound packed
  obtain hget | ⟨⟨s, hs⟩, -⟩ := get_foldl_packed (f.slots.filter packed) bound o
  · rw [hget, get, entries_foldl_set]
    simp
  · exact absurd hs (ho s)

/-- What is neither slot, parameter nor result starts out uniform. -/
lemma get_start_of_notMem (env : PackEnv) (d : DeclLanes) (f : Function) (ho : ∀ s, o ≠ .slot s)
    (hf : o ∉ f.params ++ f.results) : (start env d f).get o = .uniform := by
  rw [get_start_eq env d f ho, List.lookup_eq_none_iff.2, Option.getD_none]
  intro p hp
  have hmem : p.1 ∈ f.params ++ f.results := by
    rcases List.mem_append.1 (List.mem_reverse.1 hp) with h | h
    · exact List.mem_append_left _ (List.of_mem_zip h).1
    · exact List.mem_append_right _ (List.of_mem_zip h).1
  exact bne_iff_ne.2 fun he => hf (he ▸ hmem)

/-- Nothing falls below the lanes that are known at first. -/
lemma start_le (env : PackEnv) (d : DeclLanes) (f : Function) :
    (start env d f).Le (ofFunction env d f) :=
  (settle_induction (P := fun _ => True) (fun _ _ _ _ _ _ _ _ _ _ => trivial) trivial).1

/-- A constant keeps its lane kind. -/
lemma get_settle_const (env : PackEnv) (code : List Instr) (m : Lanes) (c : Const) :
    (m.settle env code).get (.const c) = m.get (.const c) := by
  refine (settle_induction (P := fun m' => m'.get (.const c) = m.get (.const c)) ?_ rfl).2
  intro i _ _ _ p _ m' _ hm' hrises
  have hp : Operand.const c ≠ p.1 := fun he => by
    have hcan := hrises.1
    rw [← he] at hcan
    cases hcan
  rw [get_set, if_neg hp]
  exact hm'

/-! ## Solutions -/

/-- Whether an operand has reached a lane kind, if it can rise. -/
def Reaches (m : Lanes) (o : Operand) (l : LaneKind) : Prop :=
  canRise o → l.rank ≤ (m.get o).rank

/-- **Solutions**: what the instructions of a function ask of the lanes of its operands. -/
structure IsSolution (env : PackEnv) (m : Lanes) (code : List Instr) : Prop where
  /-- What is computed from lanes that differ has lanes that differ. -/
  computed : ∀ kind dst args, .assign kind dst args ∈ code → kind ≠ .move → kind ≠ .ptrAdd →
    ∀ a ∈ args, m.get a = .varying → canRise dst → m.get dst = .varying
  moved : ∀ dst src rest, .assign .move dst (src :: rest) ∈ code → m.Reaches dst (m.get src)
  loaded : ∀ dst ptr o, .load dst ptr o ∈ code → m.Reaches dst (loaded env m ptr o)
  addressed : ∀ dst ptr o, .lea dst ptr o ∈ code → m.get ptr = .packed → m.Reaches dst .packed
  /-- A slot that holds lanes that differ is packed. -/
  spilled : ∀ s src, .store (.slot s) none src ∈ code → m.get src = .varying →
    m.Reaches (.slot s) .packed
  called : ∀ callee ins outs d, .call callee ins outs ∈ code → env.packed? callee = some d →
    ∀ p ∈ outs.zip d.results, m.Reaches p.1 p.2

/-- What does not rise has reached its lanes. -/
lemma reaches_of_not_rises (h : ¬m.Rises (o, l)) : m.Reaches o l :=
  fun ho => Nat.le_of_not_lt fun hl => h ⟨ho, hl⟩

/-- What has to vary and can rise varies. -/
lemma Reaches.eq_varying (h : m.Reaches o .varying) (ho : canRise o) : m.get o = .varying := by
  have hle := h ho
  cases hg : m.get o with
  | uniform => simp [hg, LaneKind.rank] at hle
  | packed => simp [hg, LaneKind.rank] at hle
  | varying => rfl

/-- Lanes that no instruction raises are a solution. -/
theorem Settled.isSolution (h : Settled env m code) : IsSolution env m code := by
  have reaches {i : Instr} (hi : i ∈ code) {o : Operand} {l : LaneKind}
      (hp : (o, l) ∈ m.raised env i) : m.Reaches o l := reaches_of_not_rises (h i hi _ hp)
  constructor
  case computed =>
    intro kind dst args hi hmove hadd a ha hv hdst
    refine Reaches.eq_varying (reaches hi ?_) hdst
    have hany : (args.any fun a => m.get a == .varying) = true :=
      List.any_eq_true.2 ⟨a, ha, by simp [hv]⟩
    have hkind : m.computed kind args = .varying := by
      unfold Lanes.computed
      split
      · exact absurd rfl hmove
      · exact absurd rfl hadd
      · rw [if_pos hany]
    simp [raised, hkind]
  case moved => exact fun dst src rest hi => reaches hi (by simp [raised, Lanes.computed])
  case loaded => exact fun dst ptr o hi => reaches hi (by simp [raised])
  case addressed => exact fun dst ptr o hi hp => reaches hi (by simp [raised, hp])
  case spilled => exact fun s src hi hv => reaches hi (by simp [raised, hv])
  case called =>
    exact fun callee ins outs d hi hd p hp => reaches hi (by simpa [raised, hd] using hp)

/-- **The lanes of a function**: the sweeps over its instructions come to an end, where another one
changes nothing. Operands have only risen from where they started, constants are shared by all
instances, and what the instructions ask for is fulfilled. -/
theorem ofFunction_isSolution (env : PackEnv) (d : DeclLanes) (f : Function) :
    (∃ n ≤ 2 * (f.instrs.flatMap risers).length,
        (sweep env f.instrs)^[n] (start env d f) = ofFunction env d f) ∧
      (ofFunction env d f).sweep env f.instrs = ofFunction env d f ∧
      Settled env (ofFunction env d f) f.instrs ∧
      (start env d f).Le (ofFunction env d f) ∧
      (∀ o l, (∀ s, o ≠ .slot s) →
        (f.params.zip d.params ++ f.results.zip d.results).reverse.lookup o = some l →
          l.rank ≤ ((ofFunction env d f).get o).rank) ∧
      (∀ c, .const c ∉ f.params ++ f.results →
        (ofFunction env d f).get (.const c) = .uniform) ∧
      IsSolution env (ofFunction env d f) f.instrs := by
  have hsettled : Settled env (ofFunction env d f) f.instrs := settle_settled env f.instrs _
  refine ⟨exists_iterate_settle env f.instrs _, hsettled.sweep_eq, hsettled, start_le env d f, ?_,
    ?_, hsettled.isSolution⟩
  · intro o l ho hl
    have hstart := get_start_eq env d f ho
    rw [hl, Option.getD_some] at hstart
    exact hstart ▸ start_le env d f o
  · intro c hc
    calc (ofFunction env d f).get (.const c) = (start env d f).get (.const c) :=
          get_settle_const env f.instrs _ c
      _ = .uniform := get_start_of_notMem env d f nofun hc

/-- Lanes also spread against the order of the instructions, in a later round. -/
example :
    let v (id : Nat) : Operand := .var ⟨id, "v", .scalar .f64⟩
    let f : Function :=
      { decl := ⟨"f", [.scalar .f64], [], false, false⟩
        params := [v 1]
        body := Function.frame [.assign .move (v 3) [v 2], .assign .move (v 2) [v 1]] }
    (ofFunction default ⟨f.decl, [.varying], []⟩ f).get (v 3) = .varying := by
  decide

end Lane.Packing.Lanes
