import Lane.Proofs.Packing.Lanes
import Lane.Proofs.Regular.Program

set_option relaxedAutoImplicit false
set_option autoImplicit false

/-!
# How far operands rise

Parameters and results have risen at least as far as their declaration says. A register of regular
code rises only as far as the one instruction that assigns it says, so its lanes are known from that
instruction, unless it is loaded from an address that differs between the instances.

## Main definitions

* `Lane.Packing.Lanes.Due`: lanes in which registers rise by their own instruction only.

## Main results

* `Lane.Packing.Lanes.due_ofFunction`: in the lanes of a function registers rise by their own
  instruction only.
* `Lane.Packing.Lanes.get_eq_loaded`, `Lane.Packing.Lanes.lea_ne_varying`,
  `Lane.Packing.Lanes.get_eq_uniform_of_ptrAdd`, `Lane.Packing.Lanes.forall₂_results`: the lanes of
  registers.
-/

namespace Lane.Packing.Lanes

open Lane.Code Lane.Lowering

variable {env : PackEnv} {m m' : Lanes} {o : Operand} {lane : LaneKind} {i : Instr}
  {code : List Instr} {d : DeclLanes} {f : Function} {l : Layouts} {r : Reg}

/-! ## The lanes that are known at first -/

/-- Of the entries that are set, one for each operand is found. -/
lemma get_foldl_set : ∀ (ps : List (Operand × LaneKind)) (m : Lanes) (o : Operand),
    (∃ lane, (o, lane) ∈ ps ∧ (ps.foldl (fun m (o, lane) => m.set o lane) m).get o = lane) ∨
      (∀ lane, (o, lane) ∉ ps) ∧ (ps.foldl (fun m (o, lane) => m.set o lane) m).get o = m.get o
  | [], _, _ => .inr ⟨nofun, rfl⟩
  | (o', lane') :: ps, m, o => by
    rw [List.foldl_cons]
    obtain ⟨lane, hmem, hget⟩ | ⟨hnot, hget⟩ := get_foldl_set ps (m.set o' lane') o
    · exact .inl ⟨lane, List.mem_cons_of_mem _ hmem, hget⟩
    · rw [get_set] at hget
      by_cases h : o = o'
      · rw [if_pos h] at hget
        exact .inl ⟨lane', h ▸ List.mem_cons_self, hget⟩
      · rw [if_neg h] at hget
        refine .inr ⟨fun lane hmem => ?_, hget⟩
        obtain hmem | hmem := List.mem_cons.1 hmem
        · exact h (Prod.mk.inj hmem).1
        · exact hnot lane hmem

/-- The lanes of a declaration are those of the operands that are bound. -/
def IsBound (d : DeclLanes) (f : Function) (o : Operand) (lane : LaneKind) : Prop :=
  (o, lane) ∈ f.params.zip d.params ++ f.results.zip d.results

/-- What is known at first: variables that are bound have a lane of the declaration, slots may be
packed, and all else is uniform. -/
lemma get_start (env : PackEnv) (d : DeclLanes) (f : Function) (o : Operand) :
    IsBound d f o ((start env d f).get o) ∨
      (∀ lane, ¬IsBound d f o lane) ∧ (start env d f).get o = .uniform ∨
      (∃ s, o = .slot s) ∧ (start env d f).get o = .packed := by
  unfold start
  extract_lets bound packed
  obtain hget | hpacked := get_foldl_packed (f.slots.filter packed) bound o
  · rw [hget]
    obtain ⟨lane, hmem, hlane⟩ | ⟨hnot, hget⟩ :=
      get_foldl_set (f.params.zip d.params ++ f.results.zip d.results) {} o
    · exact .inl (hlane ▸ hmem)
    · exact .inr (.inl ⟨hnot, hget⟩)
  · exact .inr (.inr hpacked)

/-- What is bound is a variable. -/
lemma IsBound.isVar (h : IsBound d f o lane) (hf : f.Regular l) : ∃ v, o = .var v := by
  obtain h | h := List.mem_append.1 h
  · exact (hf.params_vars o (List.of_mem_zip h).1).2
  · exact (hf.results_vars o (List.of_mem_zip h).1).2

/-- Registers start out uniform. -/
lemma get_start_reg (hf : f.Regular l) (r : Reg) : (start env d f).get (.reg r) = .uniform := by
  obtain h | h | ⟨⟨s, h⟩, -⟩ := get_start env d f (.reg r)
  · obtain ⟨v, hv⟩ := h.isVar hf
    cases hv
  · exact h.2
  · cases h

/-! ## Registers rise by their own instruction -/

/-- A register is raised by the instruction that assigns it. -/
lemma mem_defines_of_mem_raised (h : (.reg r, lane) ∈ m.raised env i) : r ∈ i.defines := by
  unfold raised at h
  split at h
  · obtain ⟨rfl, -⟩ := Prod.mk.inj (List.mem_singleton.1 h)
    simp [Instr.defines, Instr.reg?, Instr.dst?]
  · obtain ⟨rfl, -⟩ := Prod.mk.inj (List.mem_singleton.1 h)
    simp [Instr.defines, Instr.reg?, Instr.dst?]
  · split at h
    · obtain ⟨rfl, -⟩ := Prod.mk.inj (List.mem_singleton.1 h)
      simp [Instr.defines, Instr.reg?, Instr.dst?]
    · cases h
  · split at h
    · cases (Prod.mk.inj (List.mem_singleton.1 h)).1
    · cases h
  · split at h
    · exact List.mem_filterMap.2 ⟨_, (List.of_mem_zip h).1, rfl⟩
    · cases h
  · cases h

/-- **Lanes that are due**: a register has risen only as far as the instruction that assigns it said
when no operand had risen further than now. -/
def Due (env : PackEnv) (code : List Instr) (m : Lanes) : Prop :=
  ∀ i ∈ code, ∀ r ∈ i.defines, m.get (.reg r) = .uniform ∨
    ∃ m' : Lanes, m'.Le m ∧ (.reg r, m.get (.reg r)) ∈ m'.raised env i

/-- **Registers rise by their own instruction only**. -/
theorem due_ofFunction (env : PackEnv) (d : DeclLanes) (hf : f.Regular l) :
    Due env f.instrs (ofFunction env d f) := by
  refine (settle_induction (P := Due env f.instrs) (fun j hj m _ p hp m' hle hm' hrises => ?_)
    fun i _ r _ => .inl (get_start_reg hf r)).2
  intro i hi r hr
  rw [get_set]
  split
  · rename_i he
    obtain ⟨o, lane⟩ := p
    obtain rfl : .reg r = o := he
    obtain rfl := hf.eq_of_defines hi hj hr (mem_defines_of_mem_raised hp)
    exact .inr ⟨m, hle.trans hrises.le_set, hp⟩
  · obtain h | ⟨m₀, h₀, hmem⟩ := hm' i hi r hr
    · exact .inl h
    · exact .inr ⟨m₀, h₀.trans hrises.le_set, hmem⟩

/-- Constants are the same in all lanes. -/
lemma get_const (hf : f.Regular l) (c : Const) :
    (ofFunction env d f).get (.const c) = .uniform := by
  refine (get_settle_const env f.instrs _ c).trans ?_
  obtain h | h | ⟨⟨s, h⟩, -⟩ := get_start env d f (.const c)
  · obtain ⟨v, hv⟩ := h.isVar hf
    cases hv
  · exact h.2
  · cases h

/-- The address of a slot does not differ between the instances. -/
lemma slot_ne_varying {D : FuncDecl → Prop} (hf : f.Regular l)
    (ht : ∀ i ∈ f.instrs, i.WellTyped D) (s : Slot) :
    (ofFunction env d f).get (.slot s) ≠ .varying := by
  refine (settle_induction (P := fun m => m.get (.slot s) ≠ .varying)
    (fun i hi m _ p hp m' _ hm' _ => ?_) ?_).2
  · rw [get_set]
    split
    · rename_i he
      have hi := ht i hi
      unfold raised at hp
      split at hp
      · obtain rfl := List.mem_singleton.1 hp
        exact (he ▸ hi.1 : (Operand.slot s).IsTarget).elim
      · obtain rfl := List.mem_singleton.1 hp
        exact (he ▸ hi.1 : (Operand.slot s).IsTarget).elim
      · split at hp
        · obtain rfl := List.mem_singleton.1 hp
          exact (he ▸ hi.1 : (Operand.slot s).IsTarget).elim
        · cases hp
      · split at hp
        · obtain rfl := List.mem_singleton.1 hp
          exact nofun
        · cases hp
      · split at hp
        · exact (he ▸ hi.2.2.2 p.1 (List.of_mem_zip hp).1 : (Operand.slot s).IsTarget).elim
        · cases hp
      · cases hp
    · exact hm'
  · obtain h | h | ⟨-, h⟩ := get_start env d f (.slot s)
    · obtain ⟨v, hv⟩ := h.isVar hf
      cases hv
    · rw [h.2]
      exact nofun
    · rw [h]
      exact nofun

/-! ## The lanes of registers -/

/-- What is packed and never varies stays packed. -/
lemma Le.eq_packed (h : m.Le m') (ho : m.get o = .packed) (hv : m'.get o ≠ .varying) :
    m'.get o = .packed := by
  have := h o
  rw [ho] at this
  revert this hv
  cases m'.get o <;> decide

/-- What is loaded through packed operands is alike. -/
lemma loaded_eq_of_packed {ptr : Operand} {off : Option Offset} (h : m.get ptr = .packed)
    (h' : m'.get ptr = .packed) : loaded env m ptr off = loaded env m' ptr off := by
  simp [loaded, h, h']

/-- What is loaded through no packed operand is uniform. -/
lemma loaded_of_ne_packed {ptr : Operand} {off : Option Offset} (h : m.get ptr ≠ .packed) :
    loaded env m ptr off = .uniform :=
  if_pos h

/-- What is settled has risen as far as any instruction says. -/
lemma Settled.rank_le (h : Settled env m code) (hi : i ∈ code) (ho : (o, lane) ∈ m.raised env i)
    (hc : canRise o) : lane.rank ≤ (m.get o).rank := by
  by_contra hlt
  exact h i hi _ ho ⟨hc, Nat.lt_of_not_le hlt⟩

/-- Nothing is below uniform lanes. -/
lemma eq_uniform_of_rank_le (h : lane.rank ≤ LaneKind.uniform.rank) : lane = .uniform := by
  cases lane <;> first | rfl | exact absurd h (by decide)

/-- What has not risen was not to rise. -/
lemma Settled.eq_uniform (h : Settled env m code) (hi : i ∈ code)
    (ho : (o, lane) ∈ m.raised env i) (hc : canRise o) (hu : m.get o = .uniform) :
    lane = .uniform :=
  eq_uniform_of_rank_le (hu ▸ h.rank_le hi ho hc)

/-- **A loaded value** has the lanes of what is loaded, unless the address differs between the
instances. -/
lemma get_eq_loaded (hf : f.Regular l) {ptr : Operand} {off : Option Offset}
    (hi : .load (.reg r) ptr off ∈ f.instrs)
    (hv : (ofFunction env d f).get ptr ≠ .varying) :
    (ofFunction env d f).get (.reg r) = loaded env (ofFunction env d f) ptr off := by
  have hsettled := settle_settled env f.instrs (start env d f)
  -- If the value is uniform, nothing else was to be loaded.
  have huniform : (ofFunction env d f).get (.reg r) = .uniform →
      (ofFunction env d f).get (.reg r) = loaded env (ofFunction env d f) ptr off := fun h =>
    h.trans (hsettled.eq_uniform hi (List.mem_singleton_self _) rfl h).symm
  obtain h | ⟨m', hle, hmem⟩ := due_ofFunction env d hf _ hi r (by
    simp [Instr.defines, Instr.reg?, Instr.dst?])
  · exact huniform h
  · have hget := (Prod.mk.inj (List.mem_singleton.1 hmem)).2
    by_cases hp : m'.get ptr = .packed
    · rw [hget]
      exact loaded_eq_of_packed hp (hle.eq_packed hp hv)
    · exact huniform (hget.trans (loaded_of_ne_packed hp))

/-- **An address of a member** does not differ between the instances. -/
lemma lea_ne_varying (hf : f.Regular l) {ptr : Operand} {off : Option Offset}
    (hi : .lea (.reg r) ptr off ∈ f.instrs) :
    (ofFunction env d f).get (.reg r) ≠ .varying := by
  obtain h | ⟨m', -, hmem⟩ := due_ofFunction env d hf _ hi r (by
    simp [Instr.defines, Instr.reg?, Instr.dst?])
  · rw [h]
    decide
  · simp only [raised] at hmem
    split at hmem
    · rw [(Prod.mk.inj (List.mem_singleton.1 hmem)).2]
      decide
    · cases hmem

/-- **An address of an element** is shared by all instances. -/
lemma get_eq_uniform_of_ptrAdd (hf : f.Regular l) {args : List Operand}
    (hi : .assign .ptrAdd (.reg r) args ∈ f.instrs) :
    (ofFunction env d f).get (.reg r) = .uniform := by
  obtain h | ⟨m', -, hmem⟩ := due_ofFunction env d hf _ hi r (by
    simp [Instr.defines, Instr.reg?, Instr.dst?])
  · exact h
  · exact (Prod.mk.inj (List.mem_singleton.1 hmem)).2

/-- The values that a function without packed version returns are shared by all instances. -/
lemma get_eq_uniform_of_call (hf : f.Regular l) {callee : FuncDecl} {ins outs : List Operand}
    (hi : .call callee ins outs ∈ f.instrs) (hc : env.packed? callee = none) (ho : o ∈ outs) :
    (ofFunction env d f).get o = .uniform := by
  obtain ⟨r, rfl⟩ := (hf.instrs _ hi).fresh o ho
  obtain h | ⟨m', -, hmem⟩ := due_ofFunction env d hf _ hi r
    (List.mem_filterMap.2 ⟨_, ho, rfl⟩)
  · exact h
  · simp [raised, hc] at hmem

/-- An entry of a list without repetitions is next to one entry of another. -/
lemma eq_of_mem_zip {α β : Type} {as : List α} {bs : List β} (h : as.Nodup) {a : α} {b b' : β}
    (hb : (a, b) ∈ as.zip bs) (hb' : (a, b') ∈ as.zip bs) : b = b' := by
  obtain ⟨i, hi, he⟩ := List.mem_iff_getElem.1 hb
  obtain ⟨j, hj, he'⟩ := List.mem_iff_getElem.1 hb'
  rw [List.getElem_zip, Prod.mk.injEq] at he he'
  obtain rfl : i = j := (h.getElem_inj_iff).1 (he.1.trans he'.1.symm)
  exact he.2.symm.trans he'.2

/-- The values that a call returns are in different registers. -/
lemma nodup_outs (hf : f.Regular l) {callee : FuncDecl} {ins outs : List Operand}
    (hi : .call callee ins outs ∈ f.instrs) : outs.Nodup := by
  have hregs := List.Nodup.of_map _ hf.regs_nodup
  rw [List.nodup_flatMap] at hregs
  have houts : (outs.filterMap Operand.reg?).map Operand.reg = outs := by
    have hfresh : ∀ o ∈ outs, ∃ r, o = .reg r := (hf.instrs _ hi).fresh
    clear hi hregs
    induction outs with
    | nil => rfl
    | cons o outs ih =>
      obtain ⟨⟨r, rfl⟩, hrest⟩ := List.forall_mem_cons.1 hfresh
      simp [Operand.reg?, ih hrest]
  rw [← houts]
  exact (hregs.1 _ hi).map fun _ _ => Operand.reg.inj

/-- **The values that a call returns** have the lanes that the packed function promises. -/
lemma forall₂_results (hf : f.Regular l) {callee : FuncDecl} {ins outs : List Operand}
    (hi : .call callee ins outs ∈ f.instrs) {g : DeclLanes} (hc : env.packed? callee = some g)
    (hlen : outs.length = g.results.length) :
    List.Forall₂ (fun o lane => (ofFunction env d f).get o = lane) outs g.results := by
  rw [List.forall₂_iff_zip]
  refine ⟨hlen, fun {o lane} hmem => ?_⟩
  obtain ⟨r, rfl⟩ := (hf.instrs _ hi).fresh o (List.of_mem_zip hmem).1
  have hraised : ∀ m : Lanes, m.raised env (.call callee ins outs) = outs.zip g.results := by
    intro m
    simp [raised, hc]
  obtain h | ⟨m', -, hmem'⟩ := due_ofFunction env d hf _ hi r
    (List.mem_filterMap.2 ⟨_, (List.of_mem_zip hmem).1, rfl⟩)
  · have hsettled := settle_settled env f.instrs (start env d f)
    exact h.trans (hsettled.eq_uniform hi (hraised _ ▸ hmem) rfl h).symm
  · rw [hraised] at hmem'
    exact eq_of_mem_zip (nodup_outs hf hi) hmem' hmem

end Lane.Packing.Lanes
