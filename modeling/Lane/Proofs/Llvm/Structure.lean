import Lane.Proofs.Llvm.Walk

set_option relaxedAutoImplicit false
set_option autoImplicit false

/-!
# Functions of LLVM blocks

The blocks of a function are the stretches of its code: one for every label, and one behind a jump
where code follows that has no label. Each of them has one end, and names are used once.

## Main definitions

* `Lane.Code.Function.IsRegular`: functions that pass verification, with labels of their own.
* `Lane.Llvm.emitOpening`: allocations, and the binding of parameters.
* `Lane.Llvm.Function.names`: the names in a function.
* `Lane.Llvm.Function.IsMadeOf`: functions whose blocks are stretches of code.

## Main results

* `Lane.Code.Function.IsRegular.emits_blocks`: emitted functions are made of stretches of code, and
  a function is emitted exactly if its instructions can be added to a single block.
-/

namespace Lane.Code.Function

/-! ## Regular functions -/

/-- **Regular functions**: verification finds no flaw, labels, variables and slots have numbers of
their own, and the results are handed back in one place. -/
structure IsRegular (f : Function) : Prop where
  verify : f.verify.isNone
  labels_nodup : (f.labels.map Label.id).Nodup
  entry_mem : .entry ∈ f.labels
  targets : ∀ i ∈ f.body, ∀ t ∈ i.targets, ∀ l ∈ f.labels, l.id = t.id → l = t
  results_once : f.body.countP Instr.isResults = 1
  vars_nodup : (f.vars.map Var.id).Nodup
  vars_pos : ∀ v ∈ f.vars, 0 < v.id
  slots_nodup : (f.slots.map Slot.id).Nodup
  slots_pos : ∀ s ∈ f.slots, 0 < s.id

variable {f : Function}

namespace IsRegular

/-- Verification looks at the ends of the body, and at its jumps. -/
lemma of_verify (h : f.IsRegular) : opens f.body ∧ closes f.body ∧
    firstFlaw f.body f.body [] = none :=
  verify_eq_none_iff.1 (Option.isNone_iff_eq_none.1 h.verify)

/-- **The body** opens with the entry and the parameters. -/
lemma body_eq (h : f.IsRegular) : f.body = .label .entry :: .params :: f.code := by
  have hopens := h.of_verify.1
  unfold opens at hopens
  split at hopens
  · rename_i l tail hbody
    have hl : l ∈ f.labels := by simp [labels, hbody, Instr.label?]
    obtain rfl : l = .entry :=
      List.inj_on_of_nodup_map h.labels_nodup hl h.entry_mem (beq_iff_eq.1 hopens)
    rw [hbody, code, hbody]
    rfl
  · cases hopens

/-- **The results** are handed back behind the last label, and nowhere else. -/
lemma code_eq (h : f.IsRegular) : ∃ before l, f.code = before ++ [.label l, .results] ∧
    ∀ i ∈ before, i.isResults = false := by
  have hcloses := h.of_verify.2.1
  have hbody := h.body_eq
  unfold closes at hcloses
  split at hcloses
  · rename_i l more hreverse
    have hends : f.body = more.reverse ++ [.label l, .results] := by
      rw [← f.body.reverse_reverse, hreverse]
      simp
    rw [hbody] at hends
    match hmore : more.reverse with
    | [] => simp [hmore] at hends
    | [_] => simp [hmore] at hends
    | x :: y :: before =>
      rw [hmore] at hends
      have hcode : f.code = before ++ [.label l, .results] :=
        (List.cons.inj (List.cons.inj hends).2).2
      refine ⟨before, l, hcode, fun i hi => ?_⟩
      have honce := h.results_once
      rw [hbody, hcode] at honce
      have hzero : before.countP Instr.isResults = 0 := by
        simpa [List.countP_cons, List.countP_append, Instr.isResults] using honce
      exact Bool.eq_false_iff.2 (List.countP_eq_zero.1 hzero i hi)
  · cases hcloses

/-- The labels are those of the entry and of the code behind the parameters. -/
lemma labels_eq (h : f.IsRegular) : f.labels = .entry :: f.code.filterMap Instr.label? := by
  rw [labels, h.body_eq]
  rfl

/-- **There is a stretch for every label**. -/
lemma labels_stretches (h : f.IsRegular) : f.stretches.filterMap Prod.fst = f.labels := by
  rw [h.labels_eq, ← labels_cut]
  rfl

/-- Jumps of regular functions go to their labels. -/
lemma targets_mem (h : f.IsRegular) : ∀ i ∈ f.body, ∀ t ∈ i.targets, t ∈ f.labels := by
  intro i hi t ht
  obtain ⟨j, hj, hlabel⟩ := List.any_eq_true.1
    ((firstFlaw_eq_none_iff.1 h.of_verify.2.2).1 i hi t ht)
  cases j with
  | label l =>
    have hl : l ∈ f.labels := List.mem_filterMap.2 ⟨_, hj, rfl⟩
    exact h.targets i hi t ht l hl (beq_iff_eq.1 hlabel) ▸ hl
  | _ => cases hlabel

/-- Behind what is no label, the results are not handed back. -/
lemma isChain_code (h : f.IsRegular) :
    f.code.IsChain fun i j : Instr => j.isResults → i.isLabel := by
  obtain ⟨before, l, hcode, hbefore⟩ := h.code_eq
  have hchain : ∀ {is : List Instr}, (∀ i ∈ is, i.isResults = false) →
      (is ++ [Instr.label l, .results]).IsChain fun i j : Instr => j.isResults → i.isLabel := by
    intro is his
    induction is with
    | nil => exact .cons_cons (fun _ => rfl) (.singleton _)
    | cons i is ih =>
      obtain ⟨-, his⟩ := List.forall_mem_cons.1 his
      refine List.isChain_cons.2 ⟨fun j hj hres => ?_, ih his⟩
      cases is with
      | nil =>
        rw [← Option.some.inj hj] at hres
        cases hres
      | cons k is =>
        rw [← Option.some.inj hj, his k List.mem_cons_self] at hres
        cases hres
  exact hcode ▸ hchain hbefore

/-- Every stretch of the code has an end. -/
lemma ending_isSome (h : f.IsRegular) : ∀ p ∈ f.stretches, p.2.ending.isSome := by
  obtain ⟨before, l, hcode, -⟩ := h.code_eq
  have hlast : f.code.getLast? = some .results := by simp [hcode]
  exact List.forall_mem_cons.2 (ending_isSome_of_mem_cut hlast)

end IsRegular

end Lane.Code.Function

namespace Lane.Llvm

open Lane.Code (Label Stretch cut)

/-! ## Names -/

/-- The names in a function: of its blocks, except those that are numbered, and of its
allocations. -/
def Function.names (g : Function) : List String :=
  (g.blocks.toList.map Block.name).filter (· ≠ "") ++
    g.blocks.toList.flatMap fun k => k.instrs.toList.filterMap fun i => i.op.name?

/-- The name of a variable. -/
def varName (v : Code.Var) : String := v.name ++ ".v" ++ toString (v.id - 1)

/-- The name of a stack slot. -/
def slotName (s : Code.Slot) : String := s.name ++ ".s" ++ toString (s.id - 1)

section Names

open Lane.Lowering (eq_of_append_dot dot_notMem_toDigits toDigits_injective)

/-- What comes after the last dot. -/
def EndsWith (s : String) (cs : List Char) : Prop :=
  '.' ∉ cs ∧ ∃ ds, s.toList = ds ++ '.' :: cs

/-- The number at the end of a name is the only one. -/
lemma EndsWith.eq {s : String} {cs cs' : List Char} (h : EndsWith s cs) (h' : EndsWith s cs') :
    cs = cs' := by
  obtain ⟨hcs, ds, hs⟩ := h
  obtain ⟨hcs', ds', hs'⟩ := h'
  exact (eq_of_append_dot (hs.symm.trans hs') hcs hcs').2

/-- The name of a label ends with its number. -/
lemma endsWith_ref (l : Label) : EndsWith l.ref (Nat.toDigits 10 l.id) :=
  ⟨dot_notMem_toDigits _, l.hint.toList, by simp [Label.ref]⟩

/-- The name of a variable ends with its number. -/
lemma endsWith_varName (v : Code.Var) : EndsWith (varName v) ('v' :: Nat.toDigits 10 (v.id - 1)) :=
  ⟨by simp [dot_notMem_toDigits], v.name.toList, by simp [varName]⟩

/-- The name of a slot ends with its number. -/
lemma endsWith_slotName (s : Code.Slot) :
    EndsWith (slotName s) ('s' :: Nat.toDigits 10 (s.id - 1)) :=
  ⟨by simp [dot_notMem_toDigits], s.name.toList, by simp [slotName]⟩

/-- The name of the entry ends with no number. -/
lemma not_endsWith_entry (cs : List Char) : ¬ EndsWith "entry" cs := by
  rintro ⟨-, ds, h⟩
  have hdot : '.' ∈ "entry".toList := h ▸ List.mem_append_right _ List.mem_cons_self
  exact absurd hdot (by decide)

/-- **The names of a regular function** are different: of the entry, of the other labels, of
variables and of stack slots. -/
lemma names_nodup {f : Code.Function} (h : f.IsRegular) :
    (("entry" :: (f.code.filterMap Code.Instr.label?).map Label.ref) ++
      (f.vars.map varName ++ f.slots.map slotName)).Nodup := by
  have hids : ((f.code.filterMap Code.Instr.label?).map Label.id).Nodup := by
    have := h.labels_nodup
    rw [h.labels_eq] at this
    exact (List.nodup_cons.1 this).2
  have hrefs : ((f.code.filterMap Code.Instr.label?).map Label.ref).Nodup := by
    refine hids.of_map.map_on fun l hl m hm he => List.inj_on_of_nodup_map hids hl hm ?_
    exact toDigits_injective ((endsWith_ref l).eq (he ▸ endsWith_ref m))
  have hvars : (f.vars.map varName).Nodup := by
    refine h.vars_nodup.of_map.map_on fun v hv w hw he =>
      List.inj_on_of_nodup_map h.vars_nodup hv hw ?_
    have hdigits := (endsWith_varName v).eq (he ▸ endsWith_varName w)
    have := toDigits_injective (List.cons.inj hdigits).2
    have := h.vars_pos v hv
    have := h.vars_pos w hw
    omega
  have hslots : (f.slots.map slotName).Nodup := by
    refine h.slots_nodup.of_map.map_on fun v hv w hw he =>
      List.inj_on_of_nodup_map h.slots_nodup hv hw ?_
    have hdigits := (endsWith_slotName v).eq (he ▸ endsWith_slotName w)
    have := toDigits_injective (List.cons.inj hdigits).2
    have := h.slots_pos v hv
    have := h.slots_pos w hw
    omega
  -- numbers of labels begin with a digit, and those of variables and slots with a letter
  have hdigit : ∀ {n m : Nat} {c : Char}, c.isDigit = false →
      Nat.toDigits 10 n ≠ c :: Nat.toDigits 10 m := by
    intro n m c hc he
    have := Nat.isDigit_of_mem_toDigits (by decide) (by decide) (he ▸ List.mem_cons_self (a := c))
    rw [hc] at this
    cases this
  refine List.nodup_append.2 ⟨List.nodup_cons.2 ⟨fun hmem => ?_, hrefs⟩,
    List.nodup_append.2 ⟨hvars, hslots, fun s hs t ht he => ?_⟩, fun s hs t ht he => ?_⟩
  · obtain ⟨l, -, hl⟩ := List.mem_map.1 hmem
    exact not_endsWith_entry _ (hl ▸ endsWith_ref l)
  · obtain ⟨v, -, rfl⟩ := List.mem_map.1 hs
    obtain ⟨w, -, rfl⟩ := List.mem_map.1 ht
    have := (endsWith_varName v).eq (he ▸ endsWith_slotName w)
    exact absurd (List.cons.inj this).1 (by decide)
  · have ht' : ∃ c n, c.isDigit = false ∧ EndsWith t (c :: Nat.toDigits 10 n) := by
      obtain ht | ht := List.mem_append.1 ht
      · obtain ⟨v, -, rfl⟩ := List.mem_map.1 ht
        exact ⟨_, _, by decide, endsWith_varName v⟩
      · obtain ⟨v, -, rfl⟩ := List.mem_map.1 ht
        exact ⟨_, _, by decide, endsWith_slotName v⟩
    obtain ⟨c, n, hc, hends⟩ := ht'
    obtain rfl | hs := List.mem_cons.1 hs
    · exact not_endsWith_entry _ (he ▸ hends)
    · obtain ⟨l, -, rfl⟩ := List.mem_map.1 hs
      exact hdigit hc ((endsWith_ref l).eq (he ▸ hends))

end Names

/-! ## The beginning of a function -/

/-- Allocations, and the binding of parameters. -/
def emitOpening (f : Code.Function) : Emit Unit := do
  allocateVars f.vars
  allocateSlots f.slots
  bindParams (← get).function.params 0 f.params

section Opening

variable {env : EmitEnv} {σ : View} {f : Code.Function}

/-- Parameters are bound by straight emission. -/
lemma isStraight_bindParams_get (os : List Code.Operand) :
    IsStraight env (do bindParams (← get).function.params 0 os) :=
  .get (fun b => isStraight_bindParams b.function.params 0 os) fun b b' h => by
    rw [show b.function.params = b'.function.params from congrArg View.params h]

/-- **The beginning of a function** stops, or allocates variables and slots, and binds
parameters. -/
lemma opening_total (env : EmitEnv) (σ : View) (f : Code.Function) :
    (∃ p, Emits env σ (emitOpening f) p ∧
      p.ops.filterMap Op.name? = f.vars.map varName ++ f.slots.map slotName) ∨
    ∃ x, Stops env σ (emitOpening f) x := by
  have hvars : Emits env σ _ _ := emits_allocateVars f.vars
  have hslots : Emits env (σ.after ⟨(), f.vars.map varAlloca, σ.regs⟩) _ _ :=
    emits_allocateSlots f.slots
  obtain ⟨p, hp, hnames⟩ | ⟨x, hx⟩ := (isStraight_bindParams_get f.params : IsStraight env _)
    ((σ.after ⟨(), f.vars.map varAlloca, σ.regs⟩).after ⟨(), f.slots.map slotAlloca, σ.regs⟩)
  · refine .inl ⟨_, hvars.bind (hslots.bind hp), ?_⟩
    have hnone : p.ops.filterMap Op.name? = [] := List.filterMap_eq_nil_iff.2 hnames
    simp only [List.filterMap_append, hnone, List.append_nil, List.filterMap_map]
    exact congrArg₂ (· ++ ·) (congrFun (List.filterMap_eq_map (f := varName)) _)
      (congrFun (List.filterMap_eq_map (f := slotName)) _)
  · exact .inr ⟨x, hvars.stops_bind (hslots.stops_bind hx)⟩

end Opening

/-! ## Blocks and stretches -/

section Blocks

variable {env : EmitEnv} {σ : View} {place : Label → Nat} {blocks : Array Block}

/-- The names of allocations in instructions. -/
lemma filterMap_numbered (made : Nat) (ops : List Op) :
    (numbered made ops).filterMap (fun i => i.op.name?) = ops.filterMap Op.name? := by
  have h := List.filterMap_map (f := Instr.op) (g := Op.name?) (l := numbered made ops)
  rw [map_op_numbered] at h
  exact h.symm

/-- A stretch that has an end gives a block an end. -/
lemma terminator_isSome {results : List Code.Operand} {s : Stretch} {p : Piece (Option Terminator)}
    (h : Emits env σ (emitStretch results place s) p) (hs : s.ending.isSome) : p.value.isSome := by
  obtain ⟨e, he⟩ := Option.isSome_iff_exists.1 hs
  obtain ⟨_, b, -, hend⟩ := of_run_bind (h _ σ.view_builder)
  rw [he] at hend
  obtain ⟨t, b', -, hpure⟩ := of_run_bind hend
  rw [← (Prod.mk.inj (Except.ok.inj hpure)).1]
  rfl

/-- **The blocks of stretches**: their names are those of labels, they allocate nothing, and they
have an end if the stretches have. -/
lemma Fills.exists_blocks {parts : List (Option Label × Stretch)} {ns : List Nat}
    (h : Fills env place blocks σ parts ns) (hcode : ∀ q ∈ parts, ∀ i ∈ q.2.code, i.ending? = none)
    (hends : ∀ q ∈ parts, q.2.ending.isSome) :
    ∃ ks : List Block, ns.map (fun n => blocks[n]?) = ks.map some ∧
      (ks.map Block.name).filter (· ≠ "") = (parts.filterMap Prod.fst).map Label.ref ∧
      ∀ k ∈ ks, k.instrs.toList.filterMap (fun i => i.op.name?) = [] ∧ k.terminator.isSome := by
  induction h with
  | nil => exact ⟨[], rfl, rfl, List.forall_mem_nil _⟩
  | @cons σ l s p n parts ns hp hn _ _ ih =>
    obtain ⟨hs, hcode⟩ := List.forall_mem_cons.1 hcode
    obtain ⟨hend, hends⟩ := List.forall_mem_cons.1 hends
    obtain ⟨ks, hks, hnames, hrest⟩ := ih hcode hends
    refine ⟨_ :: ks, congrArg₂ List.cons hn hks, ?_, List.forall_mem_cons.2 ⟨⟨?_, ?_⟩, hrest⟩⟩
    · cases l with
      | none => simpa using hnames
      | some l =>
        have hne : l.ref ≠ "" := by simp [Label.ref]
        simpa [hne] using hnames
    · rw [filterMap_numbered]
      exact List.filterMap_eq_nil_iff.2 ((isStraight_emitStretch _ _ hs).name?_eq_none hp)
    · exact terminator_isSome hp hend

/-- A list of all numbers gives all blocks. -/
lemma perm_of_perm_range {ns : List Nat} {ks : List Block}
    (hperm : ns.Perm (List.range blocks.size)) (hks : ns.map (fun n => blocks[n]?) = ks.map some) :
    blocks.toList.Perm ks := by
  have hall : (List.range blocks.size).map (fun n => blocks[n]?) = blocks.toList.map some :=
    List.ext_getElem (by simp) fun n h _ => by
      rw [List.length_map, List.length_range] at h
      simp [h]
  have hmap := hperm.map fun n => blocks[n]?
  rw [hks, hall] at hmap
  simpa using (hmap.filterMap id).symm

end Blocks

/-! ## Functions -/

/-- **Functions whose blocks are stretches of code**: the first block begins with allocations and
the binding of parameters, and the other stretches have the other blocks. A block holds what its
stretch adds, and nothing else. -/
structure Function.IsMadeOf (g : Function) (env : EmitEnv) (σ : View) (f : Code.Function) :
    Prop where
  blocks : ∃ (place : Label → Nat) (ns : List Nat) (p : Piece (Option Terminator)),
    (0 :: ns).Perm (List.range g.blocks.size) ∧ place .entry = 0 ∧
    Emits env σ (do emitOpening f; emitStretch f.results place (cut f.code).1) p ∧
    g.blocks[0]? = some ⟨"entry", (numbered σ.made p.ops).toArray, p.value⟩ ∧
    Fills env place g.blocks (σ.after p) (cut f.code).2 ns
  /-- There is a stretch for every label. -/
  labels : f.stretches.filterMap Prod.fst = f.labels
  /-- Every block has an end. -/
  ended : ∀ (n : Nat) (k : Block), g.blocks[n]? = some k → k.terminator.isSome
  names_nodup : g.names.Nodup

/-- Emit a function up to some place of its code. -/
def emitUpTo (f : Code.Function) (code : List Code.Instr) : Emit Unit := do
  let entry ← newBlock "entry"
  setBlock entry
  modify fun b => { b with labels := [(Label.entry.id, entry)] }
  emitOpening f
  emitBody code

/-- The instructions of a function, added one after the other to a single block. -/
def emitInstrs (f : Code.Function) : Emit Unit := do
  emitOpening f
  f.code.forM (emitFlat f.results)

/-- A builder that has the first block. -/
def Builder.started (b : Builder) : Builder :=
  { b with
    function := { b.function with blocks := #[{ name := "entry" }] }
    current := 0
    labels := [(Label.entry.id, 0)] }

section Functions

variable {env : EmitEnv} {f : Code.Function} {b b' : Builder}

/-- A function is emitted up to its end. -/
lemma emitFunction_eq (f : Code.Function) : emitFunction f = emitUpTo f f.code := by
  simp [emitFunction, emitUpTo, emitOpening, Code.Function.code]

/-- A function is emitted by its opening and then its code. -/
lemma run_emitUpTo (hb : b.function.blocks = #[]) (code : List Code.Instr) :
    ((emitUpTo f code).run env).run b =
      ((emitOpening f >>= fun _ => emitBody code).run env).run b.started := by
  have hblock : ((newBlock "entry").run env).run b =
      .ok (0, b.pushBlock "entry") := by
    have hsize : b.function.blocks.size = 0 := by rw [hb]; rfl
    exact hsize ▸ rfl
  have hstarted : b.started = { b.pushBlock "entry" with
      current := 0, labels := [(Label.entry.id, 0)] } := by
    simp [Builder.started, Builder.pushBlock, hb]
  unfold emitUpTo
  rw [run_bind_of_ok hblock, hstarted]
  rfl

/-- The first block is ready for the code of a regular function. -/
lemma awaits_started (h : f.IsRegular) (ops : List Op) (regs : List (Nat × Value)) :
    (b.started.add ops regs).Awaits f.code := by
  have hids : (Label.entry.id :: Builder.idsOf f.code).Nodup := by
    have := h.labels_nodup
    rwa [h.labels_eq] at this
  have hlookup : ∀ {id n : Nat}, b.started.labels.lookup id = some n → id = Label.entry.id := by
    intro id n hn
    have := Builder.mem_of_lookup hn
    exact congrArg Prod.fst (List.mem_singleton.1 this)
  have hstart : b.started.Awaits f.code := by
    refine ⟨Nat.zero_lt_one, List.nodup_singleton _, List.nodup_singleton _,
      List.forall_mem_singleton.2 Nat.zero_lt_one, (List.nodup_cons.1 hids).2, fun i hi t ht => ?_,
      fun l hl n hn => ?_, h.isChain_code, fun hended => by cases hended⟩
    · have hmem := h.targets_mem i (by rw [h.body_eq]; simp [hi]) t ht
      rw [h.labels_eq] at hmem
      obtain rfl | hmem := List.mem_cons.1 hmem
      · exact .inr ⟨0, rfl⟩
      · exact .inl hmem
    · exact absurd (hlookup hn ▸ List.mem_map_of_mem hl) (List.nodup_cons.1 hids).1
  exact hstart.add rfl ops regs

/-- No block but the first is there when the code begins. -/
lemma supply_started (h : f.IsRegular) (ops : List Op) (regs : List (Nat × Value)) (N : Nat) :
    (b.started.add ops regs).supply (Builder.idsOf f.code) N = List.range' 1 (N - 1) := by
  have hentry : Label.entry.id ∉ Builder.idsOf f.code := by
    have := h.labels_nodup
    rw [h.labels_eq] at this
    exact (List.nodup_cons.1 this).1
  rw [Builder.supply, Builder.count_add]
  have hlabels : (b.started.add ops regs).labels = [(Label.entry.id, 0)] := rfl
  rw [hlabels, List.filter_cons_of_neg (by simpa using hentry)]
  rfl

/-- The names of a function are those of its blocks, in whatever order. -/
lemma names_nodup_of_perm (h : f.IsRegular) {g : Function} {k : Block} {ks : List Block}
    (hperm : g.blocks.toList.Perm (k :: ks)) (hname : k.name = "entry")
    (hk : k.instrs.toList.filterMap (fun i => i.op.name?) =
      f.vars.map varName ++ f.slots.map slotName)
    (hnames : (ks.map Block.name).filter (· ≠ "") =
      (f.code.filterMap Code.Instr.label?).map Label.ref)
    (hks : ∀ k ∈ ks, k.instrs.toList.filterMap (fun i => i.op.name?) = []) : g.names.Nodup := by
  have hblocks := (hperm.map Block.name).filter (· ≠ "")
  have hallocas := hperm.flatMap_right fun k => k.instrs.toList.filterMap fun i => i.op.name?
  rw [List.map_cons, hname, List.filter_cons_of_pos (by decide), hnames] at hblocks
  rw [List.flatMap_cons, hk, List.flatMap_eq_nil_iff.2 hks, List.append_nil] at hallocas
  exact (hblocks.append hallocas).nodup_iff.2 (names_nodup h)

/-- **The blocks of a function**, once its code is walked through behind the first allocations. -/
lemma Walk.isMadeOf {p : Piece Unit} {ns : List Nat} (h : env.code.IsRegular)
    (hp : Emits env b.view (emitOpening env.code) p)
    (hnames : p.ops.filterMap Op.name? =
      env.code.vars.map varName ++ env.code.slots.map slotName)
    (hw : Walk env env.code.code (b.started.add p.ops p.regs) b' ns) :
    b'.function.IsMadeOf env b.view env.code := by
  obtain ⟨q, hq, hat, hfills⟩ := hw.opened (by rw [Builder.isEnded_add]; rfl) _
    (Builder.block?_add (k := { name := "entry" }) rfl p.ops p.regs)
  rw [show (b.started.add p.ops p.regs).view = b.view.after p from rfl] at hq hfills
  have hperm : (0 :: ns).Perm (List.range b'.count) := by
    have hnumbers := hw.numbers
    have hle := hw.count_le
    rw [Builder.count_add] at hle
    obtain ⟨N, hN⟩ := Nat.exists_eq_succ_of_ne_zero (Nat.pos_iff_ne_zero.1 hle)
    rw [supply_started h, hN] at hnumbers
    rw [hN, List.range_eq_range', List.range'_succ]
    exact hnumbers.cons 0
  let first : Block := ⟨"entry", (numbered b.view.made (p.ops ++ q.ops)).toArray, q.value⟩
  have hfirst : b'.at? 0 = some first := by
    refine hat.trans (congrArg some ?_)
    simp [first, numbered_append, Builder.started, Builder.view]
    rfl
  have hends := List.forall_mem_cons.1 h.ending_isSome
  obtain ⟨ks, hks, hnames', hrest⟩ := hfills.exists_blocks (Code.ending?_of_mem_cut _).2 hends.2
  have hblocks : b'.function.blocks.toList.Perm (first :: ks) :=
    perm_of_perm_range hperm (congrArg₂ List.cons hfirst hks)
  refine ⟨⟨b'.place, ns, ⟨q.value, p.ops ++ q.ops, q.regs⟩, hperm,
    Builder.place_eq_of_lookup (hw.lookup _ _ rfl), hp.bind hq, hfirst, ?_⟩,
    h.labels_stretches, fun n k hk => ?_, ?_⟩
  · rw [← View.after_after]
    exact hfills
  · have hmem := hblocks.subset (Array.mem_toList_iff.2 (Array.mem_of_getElem? hk))
    obtain rfl | hmem := List.mem_cons.1 hmem
    · exact terminator_isSome hq hends.1
    · exact (hrest k hmem).2
  · refine names_nodup_of_perm h hblocks rfl ?_ (Code.labels_cut _ ▸ hnames')
      fun k hk => (hrest k hk).1
    have hnone := (isStraight_emitStretch _ _ (Code.ending?_of_mem_cut _).1).name?_eq_none hq
    rw [filterMap_numbered, List.filterMap_append, hnames, List.filterMap_eq_nil_iff.2 hnone,
      List.append_nil]

end Functions

end Lane.Llvm

namespace Lane.Code.Function.IsRegular

open Lane.Llvm

variable {f : Function} {env : EmitEnv} {b : Builder}

/-- **A function is emitted** exactly if its instructions can be added one after the other to a
single block. Then its blocks are the stretches of its code: one for each label, and one behind a
jump where code follows that has no label. A block holds what its stretch adds and has one end, a
label is fallen through to by a jump, and the names of blocks and allocations are different. A block
that has an end is left alone by the code behind it.

**Proof sketch.** Allocations and the binding of parameters begin the first block, which is then
ready for the code; `exists_walk` is about the rest. The other blocks are filled in the order of the
code, although they are added when a jump first needs them, so that their numbers are a
permutation. -/
theorem emits_blocks (h : f.IsRegular) (he : env.code = f) (hb : b.function.blocks = #[]) :
    ((∃ b', ((emitFunction f).run env).run b = .ok ((), b')) ↔
      ∃ p, Emits env b.view (emitInstrs f) p) ∧
    ∀ b', ((emitFunction f).run env).run b = .ok ((), b') →
      b'.function.IsMadeOf env b.view f ∧
      ∀ before after, f.code = before ++ after → ∃ c,
        ((emitUpTo f before).run env).run b = .ok ((), c) ∧
        ∀ (n : Nat) (k : Block), c.function.blocks[n]? = some k → k.terminator.isSome →
          b'.function.blocks[n]? = some k := by
  subst he
  rw [emitFunction_eq, run_emitUpTo hb]
  obtain ⟨p, hp, hnames⟩ | ⟨x, hx⟩ := opening_total env b.view env.code
  · have hready := awaits_started (b := b) h p.ops p.regs
    have hview : (b.started.add p.ops p.regs).view = b.view.after p := rfl
    rw [run_bind_of_ok (hp b.started rfl)]
    refine ⟨?_, fun b' hrun => ⟨?_, fun before after hcode => ?_⟩⟩
    · rw [emitBody_iff hready, hview]
      exact ⟨fun ⟨q, hq⟩ => ⟨_, hp.bind hq⟩,
        fun ⟨q, hq⟩ => hq.of_bind (.forM fun i _ => isStraight_emitFlat _ i) hp⟩
    · obtain ⟨ns, hw⟩ := exists_walk hready hrun
      exact hw.isMadeOf h hp hnames
    · rw [hcode] at hready hrun
      obtain ⟨c, hc, hready', hafter⟩ := exists_between hready hrun
      refine ⟨c, ?_, fun n k hk hend => ?_⟩
      · rw [run_emitUpTo hb, run_bind_of_ok (hp b.started rfl), hc]
      · obtain ⟨ns, hw⟩ := exists_walk hready' hafter
        exact hw.isEnded_kept hready' hk hend
  · rw [run_bind_of_error (hx b.started rfl)]
    refine ⟨⟨fun ⟨_, hok⟩ => (by cases hok), fun ⟨q, hq⟩ => ?_⟩, fun _ hok => by cases hok⟩
    exact absurd (fun b' hb' => run_bind_of_error (hx b' hb')) hq.not_stops

end Lane.Code.Function.IsRegular

namespace Lane.Code.Function

open Lane.Llvm

/-- A function with a branch, and with code behind a jump. -/
def branching : Function where
  decl := { id := "f" }
  vars := [⟨1, "x", .bool⟩]
  body := frame [.branch (.var ⟨1, "x", .bool⟩) ⟨3, "yes"⟩ ⟨4, "no"⟩, .label ⟨3, "yes"⟩,
    .goto ⟨4, "no"⟩, .assign .move (.var ⟨1, "x", .bool⟩) [.const (.ofBool true)], .label ⟨4, "no"⟩]

/-- A variable of truth values that is assigned an integer. -/
def mistyped : Function where
  decl := { id := "f" }
  vars := [⟨1, "x", .bool⟩]
  body := frame [.assign .move (.var ⟨1, "x", .bool⟩) [.const (.ofInt (.scalar .i32) 1)]]

/-- The blocks of a branch: four for the labels, and one for the code behind a jump. -/
theorem emits_blocks_branching : ∃ b', branching.IsRegular ∧
    ((emitFunction branching).run ⟨[], mallocDecl, memcpyDecl, branching⟩).run
      ⟨declared branching.decl, 0, [], []⟩ = .ok ((), b') ∧
    b'.function.blocks.size = 5 ∧
    b'.function.IsMadeOf ⟨[], mallocDecl, memcpyDecl, branching⟩
      (Builder.view ⟨declared branching.decl, 0, [], []⟩) branching := by
  have hregular : branching.IsRegular :=
    ⟨by decide, by decide, by decide, by decide, by decide, by decide, by decide, by decide,
      by decide⟩
  have hrun : (((emitFunction branching).run ⟨[], mallocDecl, memcpyDecl, branching⟩).run
      ⟨declared branching.decl, 0, [], []⟩).toOption.any
        fun r => r.2.function.blocks.size == 5 := by decide +kernel
  obtain ⟨⟨⟨⟩, b'⟩, hok, hsize⟩ := (Option.any_eq_true ..).1 hrun
  cases hemit : ((emitFunction branching).run ⟨[], mallocDecl, memcpyDecl, branching⟩).run
      ⟨declared branching.decl, 0, [], []⟩ with
  | error x => simp [hemit, Except.toOption] at hok
  | ok r =>
    obtain rfl : r = ((), b') := by simpa [hemit, Except.toOption] using hok
    exact ⟨b', hregular, rfl, beq_iff_eq.1 hsize,
      ((hregular.emits_blocks rfl rfl).2 b' hemit).1⟩

/-- **Ill-typed code** has no blocks, although verification finds no flaw in it, and there are no
registers that could be used too early. -/
theorem mistyped_not_emitted : mistyped.IsRegular ∧ (∀ i ∈ mistyped.body, ∀ r, .reg r ∉ i.uses) ∧
    ∀ b', ((emitFunction mistyped).run ⟨[], mallocDecl, memcpyDecl, mistyped⟩).run
      ⟨declared mistyped.decl, 0, [], []⟩ ≠ .ok ((), b') := by
  refine ⟨⟨by decide, by decide, by decide, by decide, by decide, by decide, by decide, by decide,
    by decide⟩, ?_, fun b' hok => ?_⟩
  · simp [mistyped, frame, Instr.uses]
  · have hrun : (((emitFunction mistyped).run ⟨[], mallocDecl, memcpyDecl, mistyped⟩).run
        ⟨declared mistyped.decl, 0, [], []⟩).toBool = false := by decide +kernel
    rw [hok] at hrun
    cases hrun

end Lane.Code.Function
