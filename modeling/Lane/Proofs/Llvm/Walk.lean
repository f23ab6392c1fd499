import Lane.Proofs.Llvm.Steps

set_option relaxedAutoImplicit false
set_option autoImplicit false

/-!
# Blocks for whole code

Code fills blocks: one for each label, and one behind each jump if there is any code before the next
label. None of them is touched again once it has an end.

## Main definitions

* `Lane.Llvm.Fills`: the stretches of code are in blocks.
* `Lane.Llvm.Walk`: what code does to a builder.

## Main results

* `Lane.Llvm.exists_walk`: code fills blocks.
* `Lane.Llvm.Walk.isEnded_kept`: blocks that have an end are left alone.
* `Lane.Llvm.emitBody_iff`: labels and jumps are no reason to stop.
-/

namespace Lane.Llvm

open Lane.Code (Operand Label Ending Stretch cut)

/-- **Filled blocks**: the stretches are in the blocks with these numbers, each with what it adds
when the stretches before it were added, and labels have the numbers of their stretches. -/
inductive Fills (env : EmitEnv) (place : Label → Nat) (blocks : Array Block) :
    View → List (Option Label × Stretch) → List Nat → Prop
  | nil {σ : View} : Fills env place blocks σ [] []
  | cons {σ : View} {l : Option Label} {s : Stretch} {p : Piece (Option Terminator)} {n : Nat}
      {parts : List (Option Label × Stretch)} {ns : List Nat} :
      Emits env σ (emitStretch env.code.results place s) p →
      blocks[n]? = some ⟨(l.map Label.ref).getD "", (numbered σ.made p.ops).toArray, p.value⟩ →
      (∀ m, l = some m → place m = n) → Fills env place blocks (σ.after p) parts ns →
      Fills env place blocks σ ((l, s) :: parts) (n :: ns)

/-- **What code does to a builder** that is ready for it: it fills the blocks with these numbers,
and the current block if that has no end yet. -/
structure Walk (env : EmitEnv) (is : List Code.Instr) (b b' : Builder) (ns : List Nat) : Prop where
  lookup : ∀ id n, b.labels.lookup id = some n → b'.labels.lookup id = some n
  count_le : b.count ≤ b'.count
  numbers : ns.Perm (b.supply (Builder.idsOf is) b'.count)
  frame : ∀ n < b.count, n ∉ ns → (n = b.current → b.isEnded) → b'.at? n = b.at? n
  ended : b.isEnded → Fills env b'.place b'.function.blocks b.view
    ((cut is).1.unlabelled ++ (cut is).2) ns
  opened : b.isEnded = false → ∀ k, b.block? = some k → ∃ p,
    Emits env b.view (emitStretch env.code.results b'.place (cut is).1) p ∧
      b'.at? b.current =
        some ⟨k.name, k.instrs ++ (numbered b.function.made p.ops).toArray, p.value⟩ ∧
      Fills env b'.place b'.function.blocks (b.view.after p) (cut is).2 ns

section Walks

variable {env : EmitEnv} {b b' : Builder} {i : Code.Instr} {is : List Code.Instr} {e : Ending}
  {σ : View} {place : Label → Nat} {results : List Operand}

/-- What is seen after two pieces is seen after both. -/
lemma View.after_after {α β : Type} (σ : View) (p : Piece α) (q : Piece β) :
    (σ.after p).after q = σ.after ⟨q.value, p.ops ++ q.ops, q.regs⟩ := by
  simp [View.after, Nat.add_assoc]

/-- An empty stretch emits nothing. -/
lemma emits_stretch_nil : Emits env σ (emitStretch results place ⟨[], none⟩) ⟨none, [], σ.regs⟩ :=
  .pure

/-- A stretch begins with an instruction. -/
lemma emits_stretch_cons {s : Stretch} {p : Piece Unit} {q : Piece (Option Terminator)}
    (hp : Emits env σ (emitInstr i) p)
    (hq : Emits env (σ.after p) (emitStretch results place s) q) :
    Emits env σ (emitStretch results place ⟨i :: s.code, s.ending⟩)
      ⟨q.value, p.ops ++ q.ops, q.regs⟩ := by
  have hstep : emitStretch results place ⟨i :: s.code, s.ending⟩ =
      emitInstr i >>= fun _ => emitStretch results place s := by
    simp [emitStretch, List.forM_cons]
  rw [hstep]
  exact hp.bind hq

/-- A stretch ends. -/
lemma emits_stretch_ending {p : Piece Terminator}
    (hp : Emits env σ (emitEnding results place e) p) :
    Emits env σ (emitStretch results place ⟨[], some e⟩) ⟨some p.value, p.ops, p.regs⟩ := by
  have := hp.bind (f := fun t => Pure.pure (some t)) .pure
  rwa [List.append_nil] at this

/-- Nothing is added when the code is over. -/
lemma walk_nil : Walk env [] b b [] where
  lookup _ _ := id
  count_le := Nat.le_refl _
  numbers := by simp [Builder.supply, Builder.idsOf]
  frame _ _ _ _ := rfl
  ended _ := .nil
  opened ho k hk := by
    refine ⟨_, emits_stretch_nil, ?_, .nil⟩
    have hend : k.terminator = none := by
      simpa [Builder.isEnded, hk] using ho
    rw [show b.at? b.current = some k from hk, ← hend]
    simp [numbered]

/-- An instruction is added to the current block. -/
lemma Walk.straight {ns : List Nat} {p : Piece Unit} (hi : i.ending? = none)
    (ho : b.isEnded = false) (hp : Emits env b.view (emitInstr i) p)
    (hw : Walk env is (b.add p.ops p.regs) b' ns) : Walk env (i :: is) b b' ns := by
  have hids : Builder.idsOf (i :: is) = Builder.idsOf is := by
    have hlabel : i.label? = none := by cases i <;> first | rfl | cases hi
    rw [Builder.idsOf, List.filterMap_cons_none hlabel]
  have hcount := b.count_add p.ops p.regs
  refine ⟨hw.lookup, hcount ▸ hw.count_le, ?_, fun n hn hns hc => ?_, fun he => ?_,
    fun _ k hk => ?_⟩
  · rw [hids, ← Builder.supply_congr hcount rfl]
    exact hw.numbers
  · have hne : n ≠ b.current := fun heq => by
      have := hc heq
      rw [ho] at this
      cases this
    rw [hw.frame n (hcount.symm ▸ hn) hns fun heq => absurd heq hne, Builder.at?_add,
      if_neg hne.symm]
  · rw [ho] at he
    cases he
  · obtain ⟨q, hq, hat, hfills⟩ :=
      hw.opened (by rw [Builder.isEnded_add, ho]) _ (Builder.block?_add hk _ _)
    rw [Code.cut_of_ending_none hi]
    refine ⟨_, emits_stretch_cons hp hq, hat.trans ?_, ?_⟩
    · rw [numbered_append, List.append_toArray]
      simp [Builder.add]
    · rw [← View.after_after]
      exact hfills

/-- A jump ends the current block. -/
lemma Walk.jump {ns : List Nat} {p : Piece ((Label → Nat) → Terminator)} (h : b.Awaits (i :: is))
    (he : i.ending? = some e) (hi : i.isLabel = false) (ho : b.isEnded = false)
    (hp : ∀ place, Emits env b.view (emitEnding env.code.results place e)
      ⟨p.value place, p.ops, p.regs⟩)
    (hplaces : ∀ place place', (∀ l ∈ i.targets, place l = place' l) →
      p.value place = p.value place')
    (hw : Walk env is (((b.add p.ops p.regs).needs i.targets).ended
      (p.value ((b.add p.ops p.regs).needs i.targets).place)) b' ns) :
    Walk env (i :: is) b b' ns := by
  have hadd := h.add ho p.ops p.regs
  obtain ⟨hready, hgrows, hcurrent, hview, hat, hlookup⟩ :=
    hadd.needs (hadd.targets i List.mem_cons_self)
  -- After the needs of the jump only the current block differs from before, and it gets an end.
  generalize (b.add p.ops p.regs).needs i.targets = c at *
  have hids : Builder.idsOf (i :: is) = Builder.idsOf is := by
    rw [Builder.idsOf, List.filterMap_cons_none (Code.label?_of_isLabel hi)]
  have hcount : b.count ≤ c.count := (b.count_add p.ops p.regs) ▸ hgrows.count_le
  have hended : (c.ended (p.value c.place)).isEnded := Builder.isEnded_ended hready.current _
  -- The numbers of later blocks come from the supply, so the current block is none of them.
  have hnotMem : b.current ∉ ns := fun hmem => by
    have := ((hready.tail hi).ended (p.value c.place) (hready.isResults_eq_false hi))
    refine this.current_notMem_supply b'.count (hw.numbers.subset ?_)
    rwa [show (c.ended (p.value c.place)).current = b.current from hcurrent]
  refine ⟨fun id n hn => hw.lookup id n (hgrows.lookup id n hn), ?_, ?_, fun n hn hns hc => ?_,
    fun he => ?_, fun _ k hk => ?_⟩
  · exact Nat.le_trans hcount ((c.count_ended _) ▸ hw.count_le)
  · have hsupply := Builder.supply_congr (c.count_ended (p.value c.place)) rfl
    rw [← Builder.supply_congr (b.count_add p.ops p.regs) rfl]
    refine hw.numbers.trans (hids ▸ hsupply _ _ ▸ hgrows.supply _ ?_)
    exact (c.count_ended _) ▸ hw.count_le
  · have hne : b.current ≠ n := fun heq => by
      have := hc heq.symm
      rw [ho] at this
      cases this
    rw [hw.frame n (by rw [Builder.count_ended]; omega) hns fun _ => hended, Builder.at?_ended,
      if_neg (by rw [hcurrent]; exact hne), hat n (by rwa [Builder.count_add]), Builder.at?_add,
      if_neg hne]
  · rw [ho] at he
    cases he
  · -- Labels that have a block keep it, so the end may name the blocks of the final function.
    have hvalue : p.value c.place = p.value b'.place := hplaces _ _ fun l hl =>
      (Builder.place_eq_of_lookup (hw.lookup _ _ (hlookup l hl))).symm
    have hck : c.block? = some { k with
        instrs := k.instrs ++ (numbered b.function.made p.ops).toArray } := by
      rw [Builder.block?, hcurrent]
      exact (hat _ hadd.current).trans (Builder.block?_add hk _ _)
    have hcat : b'.at? b.current = (c.ended (p.value c.place)).at? b.current :=
      hw.frame _ (by rw [Builder.count_ended]; exact Nat.lt_of_lt_of_le h.current hcount) hnotMem
        fun _ => hended
    rw [Code.cut_of_jump he hi]
    refine ⟨_, emits_stretch_ending (hp b'.place), hcat.trans ?_, ?_⟩
    · rw [← hvalue]
      have := Builder.block?_ended hck (p.value c.place)
      rwa [Builder.block?,
        show (c.ended (p.value c.place)).current = b.current from hcurrent] at this
    · have := hw.ended hended
      rwa [show (c.ended (p.value c.place)).view = b.view.after ⟨some (p.value b'.place),
        p.ops, p.regs⟩ from hview] at this

/-- Behind a jump, code goes to a block without a name. -/
lemma Walk.of_opened {ns : List Nat} (h : b.Awaits (i :: is)) (hb : b.isEnded = true)
    (hblank : (cut (i :: is)).1.isBlank = false) (hw : Walk env (i :: is) b.opened b' ns) :
    Walk env (i :: is) b b' (b.count :: ns) := by
  have hopened : b.opened = { b.pushBlock "" with current := b.count } := by
    simp [Builder.opened, hb]
  have hopen := h.opened.2
  have hview := b.view_opened
  have hcount : b.opened.count = b.count + 1 := by
    simp [Builder.count, hopened, Builder.pushBlock]
  have hat : ∀ n, b.opened.at? n = if n = b.count then some { name := "" } else b.at? n := by
    rw [hopened]
    exact b.at?_pushBlock ""
  have hcurrent : b.opened.current = b.count := by rw [hopened]
  have hlabels : b.opened.labels = b.labels := by rw [hopened]; rfl
  have hle := hw.count_le
  refine ⟨hlabels ▸ hw.lookup, by omega, ?_, fun n hn hns _ => ?_, fun _ => ?_, fun ho => ?_⟩
  · have hlen : b'.count - b.count = b'.count - (b.count + 1) + 1 := by omega
    have hnumbers := hw.numbers
    rw [Builder.supply, hlabels, hcount] at hnumbers
    rw [Builder.supply, hlen, List.range'_succ]
    exact (hnumbers.cons _).trans List.perm_middle.symm
  · obtain ⟨hne, hns⟩ := not_or.1 (mt List.mem_cons.2 hns)
    rw [hw.frame n (by omega) hns fun heq => absurd (heq.trans hcurrent) hne, hat, if_neg hne]
  · obtain ⟨p, hp, hfilled, hfills⟩ := hw.opened hopen { name := "" } (by
      rw [Builder.block?, hcurrent]
      exact (hat _).trans (if_pos rfl))
    rw [hview] at hp hfills
    rw [hcurrent,
      show b.opened.function.made = b.view.made from congrArg View.made hview] at hfilled
    rw [Code.Stretch.unlabelled, hblank]
    exact .cons hp (by simpa using hfilled) (fun l hl => by cases hl) hfills
  · rw [hb] at ho
    cases ho

/-- A label ends the current block, unless it has an end, and begins with its own block. -/
lemma Walk.label {l : Label} {ns : List Nat} (h : b.Awaits (.label l :: is))
    (hw : Walk env is (b.entered l) b' ns) :
    Walk env (.label l :: is) b b' ((b.entered l).current :: ns) := by
  have hneed := h.need (.inl List.mem_cons_self)
  have hgrows : b.Grows (b.need l) (Builder.idsOf (.label l :: is)) :=
    Builder.grows_need (.inl List.mem_cons_self)
  have hplace := Builder.lookup_need (b := b) (l := l)
  obtain ⟨-, hblock, hopen⟩ := h.entered
  -- Entering a label only ends the block before it: there are no new labels and no new blocks.
  have hlabels : (b.entered l).labels = (b.need l).labels := by
    unfold Builder.entered
    dsimp only
    split <;> rfl
  have hcount : (b.entered l).count = (b.need l).count := by
    unfold Builder.entered
    dsimp only
    split
    · rfl
    · exact Builder.count_ended _
  have hview := b.view_entered l
  have hat : ∀ n < b.count, (b.entered l).at? n = if b.current = n ∧ b.isEnded = false then
      (b.at? n).map fun k => { k with terminator := some (.jump (b.entered l).current) }
      else b.at? n := by
    intro n hn
    rw [← Builder.at?_need (l := l) hn, ← h.isEnded_need (l := l), ← Builder.current_need (l := l)]
    unfold Builder.entered
    dsimp only
    cases he : (b.need l).isEnded with
    | true => simp
    | false =>
      refine Eq.trans ((b.need l).at?_ended (.jump ((b.need l).place l)) n) ?_
      simp
  have hnumbers : ((b.entered l).current :: ns).Perm
      (b.supply (Builder.idsOf (.label l :: is)) b'.count) := by
    refine .trans ?_ (hgrows.supply _ (hcount ▸ hw.count_le))
    refine .trans ?_ (hneed.supply_label hplace _).symm
    exact (Builder.supply_congr hcount hlabels _ _ ▸ hw.numbers).cons _
  have hnotMem : b.current ∉ (b.entered l).current :: ns := fun hmem =>
    h.current_notMem_supply _ (hnumbers.subset hmem)
  have hle : b.count ≤ (b.entered l).count := hcount ▸ hgrows.count_le
  have hplaced : b'.place l = (b.entered l).current :=
    Builder.place_eq_of_lookup (hw.lookup _ _ (hlabels ▸ hplace))
  -- The rest of the code fills the block of the label, as far as its first stretch.
  obtain ⟨p, hp, hfilled, hfills⟩ := hw.opened hopen _ hblock
  rw [hview] at hp hfills
  have hmade : (b.entered l).function.made = b.view.made := congrArg View.made hview
  have hfills : Fills env b'.place b'.function.blocks b.view ((some l, (cut is).1) :: (cut is).2)
      ((b.entered l).current :: ns) := by
    refine .cons hp (by simpa [← hmade] using hfilled) (fun m hm => ?_) hfills
    rw [← Option.some.inj hm, hplaced]
  have hframe : ∀ n < b.count, n ∉ (b.entered l).current :: ns →
      b'.at? n = (b.entered l).at? n := by
    intro n hn hns
    obtain ⟨hne, hns⟩ := not_or.1 (mt List.mem_cons.2 hns)
    exact hw.frame n (Nat.lt_of_lt_of_le hn hle) hns fun heq => absurd heq hne
  refine ⟨fun id n hn => hw.lookup id n (hlabels ▸ hgrows.lookup id n hn),
    Nat.le_trans hle hw.count_le, hnumbers, fun n hn hns hc => ?_, fun _ => hfills,
    fun ho k hk => ?_⟩
  · rw [hframe n hn hns, hat n hn, if_neg]
    rintro ⟨rfl, ho⟩
    rw [hc rfl] at ho
    cases ho
  · refine ⟨_, emits_stretch_ending (e := .fall l) .pure, ?_, hfills⟩
    rw [hframe _ h.current hnotMem, hat _ h.current, if_pos ⟨rfl, ho⟩,
      show b.at? b.current = some k from hk, hplaced]
    simp [numbered]

/-- **Code fills blocks**: one for each label, and one behind each jump if there is any code before
the next label. A label is fallen through to by a jump.

**Proof sketch.** Induction on the code. An instruction adds to the current block, a label begins
with its own block, and a jump ends the current one; what comes behind fills blocks that are still
empty, or new ones, and so none that has an end. -/
theorem exists_walk : ∀ {is : List Code.Instr} {b b' : Builder}, b.Awaits is →
    ((emitBody is).run env).run b = .ok ((), b') → ∃ ns, Walk env is b b' ns
  | [], b, b', _, hrun => by
    obtain rfl := (Prod.mk.inj (Except.ok.inj hrun)).2
    exact ⟨[], walk_nil⟩
  | i :: is, b, b', h, hrun => by
    rw [emitBody_cons] at hrun
    obtain ⟨⟨⟩, c, hstep, hrest⟩ := of_run_bind hrun
    obtain ⟨ns, hw⟩ := exists_walk (h.step hstep) hrest
    -- a new block is opened behind a jump, which is then like any block without an end
    have hopen : i.isLabel = false → (cut (i :: is)).1.isBlank = false →
        (∃ ns, Walk env (i :: is) b.opened b' ns) → ∃ ns, Walk env (i :: is) b b' ns := by
      rintro hi hblank ⟨ns, hw⟩
      cases hb : b.isEnded with
      | true => exact ⟨_, hw.of_opened h hb hblank⟩
      | false => exact ⟨ns, by simpa [Builder.opened, hb] using hw⟩
    obtain ⟨hnone, p, hp, rfl⟩ | ⟨l, rfl, rfl⟩ | ⟨e, he, hi, p, hp, hplaces, rfl⟩ :=
      step_cases h hstep
    · refine hopen (by cases i <;> first | rfl | cases hnone) ?_ ⟨ns, hw.straight hnone
        h.opened.2 (b.view_opened.symm ▸ hp)⟩
      rw [Code.cut_of_ending_none hnone]
      rfl
    · exact ⟨_, hw.label h⟩
    · refine hopen hi ?_ ⟨ns, hw.jump h.opened.1 he hi h.opened.2
        (fun place => b.view_opened.symm ▸ hp place) hplaces⟩
      rw [Code.cut_of_jump he hi]
      cases i <;> cases he <;> first | rfl | cases hi

/-- **Blocks that have an end** are left alone: no instruction is added, and the end stays. -/
lemma Walk.isEnded_kept {ns : List Nat} (h : b.Awaits is) (hw : Walk env is b b' ns) {n : Nat}
    {k : Block} (hk : b.at? n = some k) (hend : k.terminator.isSome) : b'.at? n = some k := by
  have hlt : n < b.count := (Array.getElem?_eq_some_iff.1 hk).1
  refine (hw.frame n hlt (fun hmem => ?_) fun hc => ?_).trans hk
  · exact h.ended_notMem_supply hk hend _ (hw.numbers.subset hmem)
  · rw [Builder.isEnded, Builder.block?, ← hc, show b.function.blocks[n]? = some k from hk]
    exact hend

/-- **Code after code**: the builder in between is ready for what comes next. -/
lemma exists_between : ∀ {before after : List Code.Instr} {b b' : Builder},
    b.Awaits (before ++ after) → ((emitBody (before ++ after)).run env).run b = .ok ((), b') →
    ∃ c, ((emitBody before).run env).run b = .ok ((), c) ∧ c.Awaits after ∧
      ((emitBody after).run env).run c = .ok ((), b')
  | [], _, b, _, h, hrun => ⟨b, rfl, h, hrun⟩
  | i :: before, after, b, b', h, hrun => by
    rw [List.cons_append, emitBody_cons] at hrun
    obtain ⟨⟨⟩, c, hstep, hrest⟩ := of_run_bind hrun
    obtain ⟨d, hd, hready, hafter⟩ := exists_between (h.step hstep) hrest
    refine ⟨d, ?_, hready, hafter⟩
    rw [emitBody_cons, run_bind_of_ok hstep, hd]

end Walks

/-! ## Emission without blocks -/

section Flat

variable {env : EmitEnv} {i : Code.Instr} {is : List Code.Instr}

/-- What an instruction adds, wherever its labels are. -/
def emitFlat (results : List Operand) (i : Code.Instr) : Emit Unit :=
  match i.ending? with
  | none => emitInstr i
  | some e => do let _ ← emitEnding results (fun _ => 0) e

/-- Flat emission is straight. -/
lemma isStraight_emitFlat (results : List Operand) (i : Code.Instr) :
    IsStraight env (emitFlat results i) := by
  unfold emitFlat
  split
  · rename_i h
    exact isStraight_emitInstr (targets_of_ending?_eq_none h)
  · exact .bind (isStraight_emitEnding _ _ _) fun _ => .pure

/-- One instruction stops, or adds something, whatever the blocks are. -/
lemma step_total (env : EmitEnv) {b : Builder} (h : b.Awaits (i :: is)) :
    (∃ p, Emits env b.view (emitFlat env.code.results i) p ∧
      ∃ b', ((emitStep i).run env).run b = .ok ((), b') ∧ b'.view = b.view.after p) ∨
    ∃ x, Stops env b.view (emitFlat env.code.results i) x ∧
      ((emitStep i).run env).run b = .error x := by
  have hview : ∀ {α : Type} (p : Piece α), (b.opened.add p.ops p.regs).view = b.view.after p :=
    fun p => by rw [Builder.view_add, Builder.view_opened]
  obtain hnone | ⟨l, rfl⟩ | ⟨e, he, hi⟩ := i.ending_cases
  · rw [emitFlat, hnone]
    exact (run_straight env b hnone).imp (fun ⟨p, hp, hok⟩ => ⟨p, hp, _, hok, hview p⟩) id
  · refine .inl ⟨⟨(), [], b.view.regs⟩, Emits.pure.bind .pure, _, run_enter l, ?_⟩
    rw [Builder.view_entered]
    rfl
  · rw [emitFlat, he]
    obtain ⟨p, hp, -, hok⟩ | ⟨x, hx, herr⟩ :=
      run_jump env he hi fun hb => h.head hb i rfl
    · have hadd := h.opened.1.add h.opened.2 p.ops p.regs
      have hneeds := (hadd.needs (hadd.targets i List.mem_cons_self)).2.2.2.1
      refine .inl ⟨⟨(), p.ops, p.regs⟩, ?_, _, hok, hneeds.trans (hview p)⟩
      have := (hp fun _ => 0).bind (f := fun _ => Pure.pure ()) .pure
      rwa [List.append_nil] at this
    · exact .inr ⟨x, fun b' hb' => run_bind_of_error (hx _ b' hb'), herr⟩

/-- **Labels and jumps are no reason to stop**: code is emitted exactly if its instructions can be
added one after the other to a single block. -/
theorem emitBody_iff : ∀ {is : List Code.Instr} {b : Builder}, b.Awaits is →
    ((∃ b', ((emitBody is).run env).run b = .ok ((), b')) ↔
      ∃ p, Emits env b.view (is.forM (emitFlat env.code.results)) p)
  | [], b, _ => ⟨fun _ => ⟨_, .pure⟩, fun _ => ⟨b, rfl⟩⟩
  | i :: is, b, h => by
    have hcons : (i :: is).forM (emitFlat env.code.results) =
        emitFlat env.code.results i >>= fun _ => is.forM (emitFlat env.code.results) := rfl
    rw [emitBody_cons, hcons]
    obtain ⟨p, hp, c, hok, hview⟩ | ⟨x, hx, herr⟩ := step_total env h
    · rw [run_bind_of_ok hok, emitBody_iff (h.step hok), hview]
      refine ⟨fun ⟨q, hq⟩ => ⟨_, hp.bind hq⟩, fun ⟨q, hq⟩ => ?_⟩
      exact hq.of_bind (.forM fun j _ => isStraight_emitFlat _ j) hp
    · rw [run_bind_of_error herr]
      refine ⟨fun ⟨_, hok⟩ => (by cases hok), fun ⟨q, hq⟩ => ?_⟩
      exact absurd (fun b' hb' => run_bind_of_error (hx b' hb')) hq.not_stops

end Flat

end Lane.Llvm
