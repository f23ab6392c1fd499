import Lane.Proofs.Code.Heap
import Lane.Proofs.Evaluation.Lowered

set_option relaxedAutoImplicit false
set_option autoImplicit false

/-!
# Room for the elements of containers

The code that allocates a container computes the number of bytes in words. As long as the elements
that there has to be room for take less than 2 ^ 64 bytes, that is the number of bytes obtained, and
every element lies inside of the block. Nothing keeps a program from asking for more: then the
product is cut off, while the header records all the elements.

## Main definitions

* `Lane.Lowering.Layouts.size?`: the size of values of a type.
* `Lane.Lowering.capacity`: how many elements a container has room for.
* `Lane.Lowering.Provides`: a heap after a container was allocated.

## Main results

* `Lane.Lowering.toNat_byteCount_eq_iff`: when the number of bytes is right.
* `Lane.Lowering.byteSize_runs`, `Lane.Lowering.allocContainer_runs`,
  `Lane.Lowering.copyContainer_runs`, `Lane.Lowering.elementPlace_runs`: what the code does.
* `Lane.Lowering.containers_have_room`: the four together.
-/

namespace Lane.Lowering

open Code

/-! ## Numbers of bytes -/

/-- **The size of values of a type**, if classes have their layouts. -/
def Layouts.size? (l : Layouts) : Ty → Option Int64
  | .cls _ c => (l.struct? c).map Struct.size
  | .container .. => some headerSize
  | t => some (.ofNat t.atomicSize)

/-- **The number of bytes** of `n` elements, as words. -/
def byteCount (w : Word) (kind : SeqKind) (size n : Word) : Word :=
  (match kind with
    | .simd => (n + (w - 1)) &&& ~~~(w - 1)
    | .array => n) * size

/-- **The capacity** of a container of `n` elements, in a `simd` container a multiple of the
width. -/
def capacity (W : Nat) (kind : SeqKind) (n : Nat) : Nat :=
  match kind with
  | .simd => roundUp n W
  | .array => n

/-- There is room for all elements. -/
lemma le_capacity {W : Nat} (hW : 0 < W) (kind : SeqKind) (n : Nat) : n ≤ capacity W kind n := by
  cases kind with
  | simd => exact le_roundUp hW
  | array => exact Nat.le_refl n

/-- A word that is the capacity, or zero if that is no word, times the size of the elements. -/
lemma toNat_mul_eq_iff {c size : Word} {x : Nat} (hc : c.toNat = if x < 2 ^ 64 then x else 0) :
    (c * size).toNat = x * size.toNat ↔ x * size.toNat < 2 ^ 64 := by
  rw [UInt64.toNat_mul, hc]
  split
  · exact ⟨fun h => h ▸ Nat.mod_lt _ (by decide), Nat.mod_eq_of_lt⟩
  · rename_i hx
    obtain hzero | hpos := Nat.eq_zero_or_pos size.toNat
    · simp [hzero]
    · have : x ≤ x * size.toNat := Nat.le_mul_of_pos_right x hpos
      rw [Nat.zero_mul, Nat.zero_mod]
      omega

/-- **The number of bytes is right if and only if it is less than 2 ^ 64.** -/
theorem toNat_byteCount_eq_iff {k : Nat} (hk : k < 64) (kind : SeqKind) (size n : Word) :
    (byteCount (.ofNat (2 ^ k)) kind size n).toNat = capacity (2 ^ k) kind n.toNat * size.toNat ↔
      capacity (2 ^ k) kind n.toNat * size.toNat < 2 ^ 64 := by
  cases kind with
  | simd => exact toNat_mul_eq_iff (toNat_rounded hk n)
  | array => exact toNat_mul_eq_iff (if_pos n.toNat_lt).symm

/-- **Elements lie inside of a block** that has as many bytes as the capacity needs. -/
lemma contains_element {b : MemoryBlock} {size n i : Word} {c : Nat}
    (hb : b.size.toNat = c * size.toNat) (hn : n.toNat ≤ c) (hi : i < n) :
    b.Contains (b.start + i * size) size.toNat := by
  have hi : i.toNat + 1 ≤ c := Nat.le_trans (UInt64.lt_iff_toNat_lt.1 hi) hn
  have hend : i.toNat * size.toNat + size.toNat ≤ b.size.toNat := by
    rw [hb, ← Nat.succ_mul]
    exact Nat.mul_le_mul_right _ hi
  have hlt : i.toNat * size.toNat < 2 ^ 64 ∨ size.toNat = 0 := by
    have := b.size.toNat_lt
    omega
  unfold MemoryBlock.Contains
  rw [UInt64.add_comm, UInt64.add_sub_cancel, UInt64.toNat_mul]
  obtain hlt | hzero := hlt
  · rwa [Nat.mod_eq_of_lt hlt]
  · simp [hzero]

/-! ## Code -/

section Code

variable {I : Operators} {A : Allocator} {env : Env} {L : Locals} {inner : Ty} {size : Int64}
  {kind : SeqKind} {n : Operand} {b : Builder} {k : Nat}

/-- The size of a type is found. -/
lemma run_sizeOf (hsize : env.layouts.size? inner = some size) :
    ∃ align, ∀ b, ((sizeOf inner).run env).run b = .ok ((size, align), b) := by
  cases inner with
  | cls m c =>
    obtain ⟨s, hs, rfl⟩ := Option.map_eq_some_iff.1 hsize
    refine ⟨s.align, fun b => ?_⟩
    unfold sizeOf
    rw [run_bind (show ((read : Lower Env).run env).run b = .ok (env, b) from rfl), hs]
    rfl
  | scalar | ptr | container | error =>
    obtain rfl := Option.some.inj hsize
    exact ⟨_, fun _ => rfl⟩

/-- A number of bytes that is computed from an index and a constant. -/
lemma computeIndex_computes (kind : AssignKind) (f : Word → Word → Word) (hn : n.Below k)
    (ht : n.type = .index) (x : Word)
    (hf : ∀ a b, kind.compute I .index [(.index, a), (.index, b)] = f a b) :
    Computes I env L k (compute kind .index [n, .const (.ofInt .index x)])
      (fun k o => o.Below k ∧ o.type = .index) fun s o => s.value o = f (s.value n) x := by
  intro b o b' hb hk hrun
  have hbelow : ∀ a ∈ [n, .const (.ofInt .index x)], a.Below k :=
    List.forall_mem_cons.2 ⟨hn, List.forall_mem_singleton.2 (Operand.below_const _ _)⟩
  obtain ⟨is, hc, hl, hr, hnum, ho, hs⟩ := compute_computes (I := I) (t := .index) hbelow b o b' hb
    hk hrun
  refine ⟨is, hc, hl, hr, hnum, ⟨ho, ?_⟩, fun s h => (hs s h).trans ?_⟩
  · obtain ⟨rfl, -⟩ := Prod.mk.inj (Except.ok.inj hrun)
    rfl
  · simp only [State.values, List.map_cons, List.map_nil, ht]
    exact (hf _ _).trans (by rw [State.value, Const.word_ofInt_index])

/-- A number of elements times their size, which is left out if it is one. -/
lemma scale_computes (hI : I.ScalesIndices) (hn : n.Below k) (ht : n.type = .index) :
    Computes I env L k (if size = 1 then pure n
        else compute .mul .index [n, .const (.ofInt .index size.toUInt64)])
      (fun k o => o.Below k) fun s o => s.value o = s.value n * size.toUInt64 := by
  split
  · rename_i hone
    exact Computes.pure (fun _ hk => hn.mono hk) fun s => by
      rw [hone, show Int64.toUInt64 1 = 1 from rfl, UInt64.mul_one]
  · exact (computeIndex_computes .mul (fun a b => a * b) hn ht _ hI).weaken (fun _ _ h => h.1)
      fun _ _ h => h

/-- The size of the elements is known. -/
lemma size_computes (hsize : env.layouts.size? inner = some size) :
    Computes I env L k (sizeOf inner) (fun _ q => q.1 = size) fun _ _ => True := by
  obtain ⟨align, hrun⟩ := run_sizeOf hsize
  refine Computes.of_run (A := True) (a := (size, align)) (fun b q b' _ h => ?_)
    (fun _ _ _ => rfl) fun _ _ => trivial
  obtain ⟨rfl, rfl⟩ := Prod.mk.inj (Except.ok.inj ((hrun b).symm.trans h))
  exact ⟨rfl, rfl, trivial⟩

/-- The number of bytes of elements is their number times their size. -/
lemma scaled_computes (hI : I.ScalesIndices) (hsize : env.layouts.size? inner = some size)
    (hn : n.Below k) (ht : n.type = .index) :
    Computes I env L k (do
      let (size, _) ← sizeOf inner
      if size = 1 then return n
      compute .mul .index [n, .const (.ofInt .index size.toUInt64)])
      (fun k o => o.Below k) fun s o => s.value o = s.value n * size.toUInt64 := by
  refine Computes.bind (size_computes hsize) fun q j hj hq => ?_
  obtain ⟨_, align⟩ := q
  obtain rfl := hq
  exact (scale_computes hI (hn.mono hj) ht).weaken (fun _ _ h => h) fun _ _ h _ => h

/-- **The number of bytes** is computed in words. -/
lemma byteSize_computes (hI : I.AreModular) (hsize : env.layouts.size? inner = some size)
    (hn : n.Below k) (ht : n.type = .index) :
    Computes I env L k (byteSize kind inner n) (fun k o => o.Below k) fun s o =>
      s.value o = byteCount (.ofNat env.width) kind size.toUInt64 (s.value n) := by
  refine Computes.bind (R := fun _ e => e = env) (P := fun _ _ => True)
    (Computes.read (fun _ _ => rfl) fun _ => trivial) fun env' j hj henv => ?_
  subst henv
  cases kind with
  | array =>
    exact (scaled_computes hI.mul_index hsize (hn.mono hj) ht).weaken (fun _ _ h => h)
      fun _ _ h _ => h
  | simd =>
    refine Computes.bind (computeIndex_computes .add (fun a b => a + b) (hn.mono hj) ht
      _ hI.add_index) fun sum j₁ _ hsum => ?_
    refine Computes.bind (computeIndex_computes .and (fun a b => a &&& b) hsum.1 hsum.2
      _ hI.and_index) fun count j₂ _ hcount => ?_
    refine (scaled_computes hI.mul_index hsize hcount.1 hcount.2).weaken (fun _ _ h => h) ?_
    intro s o ho hs hc _
    rw [ho, hs, hc]
    rfl

/-- **Computations that succeed**, whatever was built before. -/
def Succeeds {α : Type} (env : Env) (m : Lower α) : Prop :=
  ∀ b : Builder, ∃ a b', (m.run env).run b = .ok (a, b')

/-- One computation after the other succeeds. -/
lemma Succeeds.bind {α β : Type} {m : Lower α} {f : α → Lower β} (hm : Succeeds env m)
    (hf : ∀ a, Succeeds env (f a)) : Succeeds env (m >>= f) := by
  intro b
  obtain ⟨a, b', hrun⟩ := hm b
  rw [run_bind hrun]
  exact hf a b'

/-- A result succeeds. -/
lemma Succeeds.pure {α : Type} (a : α) : Succeeds env (pure a) := fun b => ⟨a, b, rfl⟩

/-- A computation of scalars succeeds. -/
lemma compute_succeeds (kind : AssignKind) (t : VType) (args : List Operand) :
    Succeeds env (compute kind t args) := fun _ => ⟨_, _, rfl⟩

/-- A number of elements is scaled. -/
lemma scaled_succeeds (hsize : env.layouts.size? inner = some size) (n : Operand) :
    Succeeds env (do
      let (size, _) ← sizeOf inner
      if size = 1 then return n
      compute .mul .index [n, .const (.ofInt .index size.toUInt64)]) := by
  obtain ⟨align, hrun⟩ := run_sizeOf hsize
  refine .bind (fun b => ⟨_, _, hrun b⟩) fun q => ?_
  dsimp only
  split
  · exact .pure n
  · exact compute_succeeds _ _ _

/-- The number of bytes is computed. -/
lemma byteSize_succeeds (hsize : env.layouts.size? inner = some size) (kind : SeqKind)
    (n : Operand) : Succeeds env (byteSize kind inner n) := by
  refine .bind (m := read) (fun b => ⟨env, b, rfl⟩) fun env' => ?_
  cases kind with
  | array => exact scaled_succeeds hsize n
  | simd =>
    exact .bind (compute_succeeds _ _ _) fun _ => .bind (compute_succeeds _ _ _)
      (scaled_succeeds hsize)

/-! ## Blocks -/

/-- **What an allocation leaves**: one block more, and at the address `a` a header of `n` elements.
The block has as many bytes as the capacity needs if these are less than 2 ^ 64, and then all
elements lie inside. -/
structure Provides (h h' : Heap) (W : Nat) (kind : SeqKind) (size a n : Word)
    (block : MemoryBlock) : Prop where
  blocks_eq : h'.blocks = block :: h.blocks
  header : h'.mem.HasHeader a block.start n
  size_eq_iff : block.size.toNat = capacity W kind n.toNat * size.toNat ↔
    capacity W kind n.toNat * size.toNat < 2 ^ 64
  contains : capacity W kind n.toNat * size.toNat < 2 ^ 64 →
    ∀ i < n, block.Contains (block.start + i * size) size.toNat

/-- A block of the right size provides a container. -/
lemma Provides.of_size {h h' : Heap} {W : Nat} (hk : k < 64) (hW : W = 2 ^ k) {size a n : Word}
    {block : MemoryBlock} (hblocks : h'.blocks = block :: h.blocks)
    (hheader : h'.mem.HasHeader a block.start n)
    (hsize : block.size = byteCount (.ofNat W) kind size n) :
    Provides h h' W kind size a n block := by
  subst hW
  have hiff := toNat_byteCount_eq_iff hk kind size n
  rw [← hsize] at hiff
  exact ⟨hblocks, hheader, hiff, fun hlt _ hi =>
    contains_element (hiff.2 hlt) (le_capacity (Nat.two_pow_pos k) kind _) hi⟩

/-- The code that writes a header. -/
def headerCode (base : Operand) (off : Option Offset) (data n : Operand) : List Instr :=
  [.store base (some (Offset.step off .headerData)) data,
    .store base (some (Offset.step off .headerLen)) n]

/-- The header of a container is written. -/
lemma run_headerCode (s : State) (base : Operand) (off : Option Offset) {data : Operand}
    (hd : data.type = .ptr) (ht : n.type = .index) :
    ∃ m, run? I (headerCode base off data n) s = some { s with mem := m } ∧
      m.HasHeader (s.value base + Offset.word off) (s.value data) (s.value n) := by
  refine ⟨_, rfl, ?_⟩
  have hzero : StructMember.headerData.offset.toUInt64 = 0 := rfl
  have height : StructMember.headerLen.offset.toUInt64 = 8 := rfl
  simp only [hd, ht, Offset.word_step, hzero, height, UInt64.add_zero, ← UInt64.add_assoc]
  exact Memory.hasHeader_write ..

/-- **The code for the number of bytes** runs, changes nothing but new registers, and computes the
number in words. -/
lemma byteSize_runs (kind : SeqKind) (hI : I.AreModular)
    (hsize : env.layouts.size? inner = some size)
    (hn : n.Below b.regs) (ht : n.type = .index) :
    ∃ o b' is, ((byteSize kind inner n).run env).run b = .ok (o, b') ∧ b'.code = b.code ++ is ∧
      b'.regs = b.regs + is.length ∧ o.Below b'.regs ∧ ∀ s, ∃ t, run? I is s = some t ∧
        s.Keeps b.regs t ∧
          t.value o = byteCount (.ofNat env.width) kind size.toUInt64 (s.value n) := by
  obtain ⟨o, b', hrun⟩ := byteSize_succeeds hsize kind n b
  obtain ⟨is, hcode, -, hregs, hnum, ho, hvalue⟩ :=
    byteSize_computes (L := b.locals) hI hsize hn ht b o b' rfl (Nat.le_refl _) hrun
  refine ⟨o, b', is, hrun, hcode, hregs, ho, fun s => ?_⟩
  obtain ⟨t, hrun, hkeeps, hsolves⟩ := hnum.run I s
  exact ⟨t, hrun, hkeeps, by rw [hvalue t hsolves, hkeeps.value_eq hn]⟩

variable {base : Operand} {off : Option Offset} {m : Modifier}

/-- **A block is obtained**, and a header written for it. What comes between the two only changes
memory, and the register of the address is newer than what is read. -/
lemma run_obtain (mid : List Instr) (d : Reg) (bytes : Operand) (off : Option Offset)
    (hmid : ∀ h : Heap, ∃ mem, runHeap? I A mid h = some { h with mem := mem })
    (hd : d.type = .ptr) (hk : k < d.id) (hbase : base.Below k) (hn : n.Below k)
    (ht : n.type = .index) (h : Heap) :
    ∃ h' block, runHeap? I A (.alloc (.reg d) bytes :: (mid ++ headerCode base off (.reg d) n)) h =
        some h' ∧ h'.blocks = block :: h.blocks ∧ block.size = h.value bytes ∧
      h'.mem.HasHeader (h.value base + Offset.word off) block.start (h.value n) := by
  let block : MemoryBlock := ⟨A h (h.value bytes), h.value bytes⟩
  let u : State := { h.toState with regs := Function.update h.regs d block.start }
  obtain ⟨mem, hmid⟩ := hmid ⟨u, block :: h.blocks⟩
  let v : State := { u with mem := mem }
  have hnew : h.toState.Keeps k u := State.Keeps.update hk h.toState block.start
  have hsame : ∀ {o : Operand}, o.Below k → v.value o = h.value o := fun ho =>
    (by cases ‹Operand› <;> rfl : v.value _ = u.value _).trans (hnew.value_eq ho)
  obtain ⟨mem', hstores, hheader⟩ := run_headerCode (I := I) v base off
    (show (Operand.reg d).type = .ptr from hd) ht
  have hdata : v.value (.reg d) = block.start := Function.update_self ..
  rw [hsame hbase, hsame hn, hdata] at hheader
  refine ⟨⟨{ v with mem := mem' }, block :: h.blocks⟩, block, ?_, rfl, rfl, hheader⟩
  show runHeap? I A (mid ++ _) ⟨u, block :: h.blocks⟩ = _
  rw [runHeap?_append, hmid, Option.bind_some]
  exact runHeap?_of_run? (h := ⟨v, block :: h.blocks⟩) hstores

/-- **An allocated container has room** for its elements. -/
lemma allocContainer_runs (hI : I.AreModular) (hk : k < 64) (hW : env.width = 2 ^ k)
    (hsize : env.layouts.size? inner = some size) (hbase : base.Below b.regs)
    (hn : n.Below b.regs) (ht : n.type = .index) :
    ∃ b' is, ((allocContainer (.memory base off (.container m kind inner)) n).run env).run b =
        .ok ((), b') ∧ b'.code = b.code ++ is ∧ ∀ h : Heap, ∃ h' block,
      runHeap? I A is h = some h' ∧ Provides h h' env.width kind size.toUInt64
        (h.value base + Offset.word off) (h.value n) block := by
  -- the register of the address comes before those of the number of bytes
  let data : Reg := ⟨b.regs + 1, .ptr⟩
  let b₁ : Builder := { b with regs := b.regs + 1 }
  have hle : b.regs ≤ b₁.regs := Nat.le_succ _
  obtain ⟨bytes, b₂, is, hrun, hcode, -, -, hvalue⟩ :=
    byteSize_runs (b := b₁) kind hI hsize (hn.mono hle) ht
  refine ⟨{ b₂ with code := b₂.code ++ [.alloc (.reg data) bytes] ++
      [.store base (some (Offset.step off .headerData)) (.reg data)] ++
      [.store base (some (Offset.step off .headerLen)) n] },
    is ++ .alloc (.reg data) bytes :: ([] ++ headerCode base off (.reg data) n), ?_, ?_,
    fun h => ?_⟩
  · have hnew : ((newReg .ptr).run env).run b = .ok (.reg data, b₁) := rfl
    unfold allocContainer
    simp only [Place.type]
    rw [run_bind hnew, run_bind hrun]
    rfl
  · simp [hcode, b₁, headerCode]
  · obtain ⟨t, hrun, hkeeps, hbytes⟩ := hvalue h.toState
    obtain ⟨h', block, hrun', hblocks, hblock, hheader⟩ := run_obtain (I := I) (A := A) []
      data bytes off (fun h => ⟨h.mem, rfl⟩) rfl
      (Nat.lt_succ_self b.regs) hbase hn ht ⟨t, h.blocks⟩
    rw [hkeeps.value_eq (hbase.mono hle), hkeeps.value_eq (hn.mono hle)] at hheader
    refine ⟨h', block, ?_, .of_size hk hW hblocks hheader (hblock.trans hbytes)⟩
    rw [runHeap?_append, runHeap?_of_run? hrun, Option.bind_some]
    exact hrun'

/-- **A copied container has room** for as many elements as the other has. -/
lemma copyContainer_runs {base' : Operand} {off' : Option Offset} {u : Ty} (hI : I.AreModular)
    (hk : k < 64) (hW : env.width = 2 ^ k) (hsize : env.layouts.size? inner = some size)
    (hbase : base.Below b.regs) (hbase' : base'.Below b.regs) :
    ∃ b' is, ((copyContainer (.memory base off (.container m kind inner))
        (.memory base' off' u)).run env).run b = .ok ((), b') ∧ b'.code = b.code ++ is ∧
      ∀ h : Heap, ∃ h' block, runHeap? I A is h = some h' ∧
        ∀ data n, h.mem.HasHeader (h.value base' + Offset.word off') data n →
          Provides h h' env.width kind size.toUInt64 (h.value base + Offset.word off) n block := by
  let data : Reg := ⟨b.regs + 1, .ptr⟩
  let n : Reg := ⟨b.regs + 1 + 1, .index⟩
  let first : Instr := .load (.reg data) base' (some (Offset.step off' .headerData))
  let second : Instr := .load (.reg n) base' (some (Offset.step off' .headerLen))
  let b₁ : Builder := { b with regs := b.regs + 1 + 1, code := b.code ++ [first] ++ [second] }
  have hle : b.regs ≤ b₁.regs := Nat.le_add_right b.regs 2
  have hn : (Operand.reg n).Below b₁.regs := fun r hr => by
    obtain rfl := Operand.reg.inj hr
    exact Nat.le_refl _
  have hloads : Numbered b.regs [first, second] :=
    ⟨rfl, ⟨data, rfl, rfl⟩, List.forall_mem_singleton.2 hbase', rfl, ⟨n, rfl, rfl⟩,
      List.forall_mem_singleton.2 (hbase'.mono (Nat.le_succ _)), trivial⟩
  obtain ⟨bytes, b₂, is, hrun, hcode, hregs, -, hvalue⟩ :=
    byteSize_runs (b := b₁) kind hI hsize hn rfl
  have hle' : b₁.regs ≤ b₂.regs := hregs ▸ Nat.le_add_right ..
  let copy : Reg := ⟨b₂.regs + 1, .ptr⟩
  let mid : List Instr := [.memcpy (.reg copy) (.reg data) bytes]
  refine ⟨{ b₂ with
      regs := b₂.regs + 1
      code := b₂.code ++ [.alloc (.reg copy) bytes] ++ mid ++
        [.store base (some (Offset.step off .headerData)) (.reg copy)] ++
        [.store base (some (Offset.step off .headerLen)) (.reg n)] },
    [first, second] ++ (is ++ .alloc (.reg copy) bytes ::
      (mid ++ headerCode base off (.reg copy) (.reg n))),
    ?_, ?_, fun h => ?_⟩
  · have hdata : ((loadField (.memory base' off' u) .headerData).run env).run b =
        .ok (.reg data, { b with regs := b.regs + 1, code := b.code ++ [first] }) := rfl
    have hlen : ((loadField (.memory base' off' u) .headerLen).run env).run
        { b with regs := b.regs + 1, code := b.code ++ [first] } = .ok (.reg n, b₁) := rfl
    unfold copyContainer
    simp only [Place.type]
    rw [run_bind hdata, run_bind hlen, run_bind hrun]
    rfl
  · simp [hcode, b₁, mid, headerCode]
  · obtain ⟨s, hruns, hkeeps₁, hsolves⟩ := hloads.run I h.toState
    obtain ⟨t, hrun, hkeeps₂, hbytes⟩ := hvalue s
    obtain ⟨h', block, hrun', hblocks, hblock, hheader⟩ := run_obtain (I := I) (A := A) mid
      copy bytes off (fun h => ⟨_, rfl⟩) rfl
      (Nat.lt_succ_self b₂.regs) (hbase.mono (hle.trans hle')) (hn.mono hle') rfl ⟨t, h.blocks⟩
    refine ⟨h', block, ?_, fun x y hxy => ?_⟩
    · rw [runHeap?_append, runHeap?_of_run? hruns, Option.bind_some, runHeap?_append,
        runHeap?_of_run? hrun, Option.bind_some]
      exact hrun'
    · have hy : t.value (.reg n) = y := by
        rw [hkeeps₂.value_eq hn, ← hxy.len_eq]
        obtain ⟨r, w, hr, hw, hrw⟩ := hsolves second (by simp)
        obtain rfl := Operand.reg.inj (Option.some.inj hr)
        obtain rfl := Option.some.inj hw
        rw [State.value, hrw, hkeeps₁.value_eq hbase', hkeeps₁.mem_eq, Offset.word_step,
          UInt64.add_assoc]
        rfl
      rw [hy, hkeeps₂.value_eq (hbase.mono hle), hkeeps₁.value_eq hbase] at hheader
      exact .of_size hk hW hblocks hheader (hblock.trans (hbytes.trans (by
        rw [← hy, hkeeps₂.value_eq hn])))

/-- **Indexing** ends with code that computes the start of the data plus the number of the element
times the size of the elements. -/
lemma elementPlace_runs (hI : I.ScalesIndices) {e : TExpr} {x i : Lowered} {t : Ty} {header : Place}
    {data o : Operand} {b₁ b₂ b₃ : Builder} (hsize : env.layouts.size? inner = some size)
    (he : e.type? = some t) (hx : x.expr.type? = some (.container m kind inner))
    (hobject : (x.object.run env).run b = .ok (header, b₁))
    (hload : ((loadField header .headerData).run env).run b₁ = .ok (data, b₂))
    (hvalue : (i.value.run env).run b₂ = .ok (o, b₃)) (hdata : data.Below b₃.regs)
    (ho : o.Below b₃.regs) (ht : o.type = .index) :
    ∃ addr b' is, ((elementPlace e x i).run env).run b = .ok (.memory addr none t, b') ∧
      b'.code = b₃.code ++ is ∧ ∀ s, ∃ s', run? I is s = some s' ∧ s.Keeps b₃.regs s' ∧
        s'.value addr = s.value data + s.value o * size.toUInt64 := by
  obtain ⟨align, hsizeOf⟩ := run_sizeOf hsize
  -- what is left once the header, the data and the number of the element are there
  let scaled : Lower Operand := if size = 1 then pure o
    else compute .mul .index [o, .const (.ofInt .index size.toUInt64)]
  have hscaled : Succeeds env scaled := by
    unfold scaled
    split
    · exact .pure o
    · exact compute_succeeds _ _ _
  obtain ⟨n, b₄, hrun⟩ := hscaled b₃
  obtain ⟨is, hcode, -, hregs, hnum, hn, hmul⟩ :=
    scale_computes hI (L := b₃.locals) ho ht b₃ n b₄ rfl (Nat.le_refl _) hrun
  let addr : Reg := ⟨b₄.regs + 1, .ptr⟩
  let last : Instr := .assign .ptrAdd (.reg addr) [data, n]
  have hdata' : data.Below b₄.regs := hdata.mono (hregs ▸ Nat.le_add_right ..)
  have hlast : Numbered (b₃.regs + is.length) [last] :=
    hregs ▸ ⟨rfl, ⟨addr, rfl, rfl⟩,
      List.forall_mem_cons.2 ⟨hdata', List.forall_mem_singleton.2 hn⟩, trivial⟩
  refine ⟨.reg addr, { b₄ with regs := b₄.regs + 1, code := b₄.code ++ [last] }, is ++ [last], ?_,
    ?_, fun s => ?_⟩
  · have htype : ((typeOf e).run env).run b = .ok (t, b) := by
      unfold typeOf
      rw [he]
      rfl
    have htype' : ((typeOf x.expr).run env).run b = .ok (.container m kind inner, b) := by
      unfold typeOf
      rw [hx]
      rfl
    unfold elementPlace
    rw [run_bind htype, run_bind htype']
    dsimp only
    rw [run_bind hobject, run_bind hload, run_bind hvalue, run_bind (hsizeOf b₃)]
    dsimp only
    split
    · rename_i hone
      rw [show scaled = pure o from if_pos hone] at hrun
      rw [run_bind hrun]
      rfl
    · rename_i hone
      rw [show scaled = compute .mul .index [o, .const (.ofInt .index size.toUInt64)] from
        if_neg hone] at hrun
      rw [run_bind hrun]
      rfl
  · rw [hcode, List.append_assoc]
  · obtain ⟨s', hrun, hkeeps, hsolves⟩ := (hnum.append hlast).run I s
    obtain ⟨his, hlast⟩ := List.forall_mem_append.1 hsolves
    obtain ⟨r, w, hr, hw, hrw⟩ := hlast last (List.mem_singleton_self _)
    obtain rfl := Operand.reg.inj (Option.some.inj hr)
    obtain rfl := Option.some.inj hw
    refine ⟨s', hrun, hkeeps, ?_⟩
    rw [← hkeeps.value_eq hdata, ← hkeeps.value_eq ho, ← hmul s' his]
    exact hrw

end Code

/-- **Containers have room for their elements.** The code that computes the number of bytes gives
the size of the elements times the capacity if and only if that is less than 2 ^ 64. Then the blocks
that are obtained for new and for copied containers hold every element that the header counts, at
the address that indexing computes for it. -/
theorem containers_have_room {I : Operators} (hI : I.AreModular) (A : Allocator) {env : Env}
    {k : Nat} (hk : k < 64) (hW : env.width = 2 ^ k) {inner : Ty} {size : Int64}
    (hsize : env.layouts.size? inner = some size) (kind : SeqKind) :
    (∀ (b : Builder) (n : Operand), n.Below b.regs → n.type = .index →
      ∃ o b' is, ((byteSize kind inner n).run env).run b = .ok (o, b') ∧ b'.code = b.code ++ is ∧
        ∀ s, ∃ t, run? I is s = some t ∧ s.Keeps b.regs t ∧
          ((t.value o).toNat = capacity env.width kind (s.value n).toNat * size.toUInt64.toNat ↔
            capacity env.width kind (s.value n).toNat * size.toUInt64.toNat < 2 ^ 64)) ∧
    (∀ (b : Builder) (base : Operand) (off : Option Offset) (m : Modifier) (n : Operand),
      base.Below b.regs → n.Below b.regs → n.type = .index →
      ∃ b' is, ((allocContainer (.memory base off (.container m kind inner)) n).run env).run b =
          .ok ((), b') ∧ b'.code = b.code ++ is ∧ ∀ h : Heap, ∃ h' block,
        runHeap? I A is h = some h' ∧ Provides h h' env.width kind size.toUInt64
          (h.value base + Offset.word off) (h.value n) block) ∧
    (∀ (b : Builder) (base base' : Operand) (off off' : Option Offset) (m : Modifier) (u : Ty),
      base.Below b.regs → base'.Below b.regs →
      ∃ b' is, ((copyContainer (.memory base off (.container m kind inner))
          (.memory base' off' u)).run env).run b = .ok ((), b') ∧ b'.code = b.code ++ is ∧
        ∀ h : Heap, ∃ h' block, runHeap? I A is h = some h' ∧
          ∀ data n, h.mem.HasHeader (h.value base' + Offset.word off') data n →
            Provides h h' env.width kind size.toUInt64 (h.value base + Offset.word off) n block) ∧
    ∀ (e : TExpr) (x i : Lowered) (m : Modifier) (t : Ty) (header : Place) (data o : Operand)
      (b b₁ b₂ b₃ : Builder), e.type? = some t → x.expr.type? = some (.container m kind inner) →
      (x.object.run env).run b = .ok (header, b₁) →
      ((loadField header .headerData).run env).run b₁ = .ok (data, b₂) →
      (i.value.run env).run b₂ = .ok (o, b₃) → data.Below b₃.regs → o.Below b₃.regs →
      o.type = .index → ∃ addr b' is,
        ((elementPlace e x i).run env).run b = .ok (.memory addr none t, b') ∧
          b'.code = b₃.code ++ is ∧ ∀ s, ∃ s', run? I is s = some s' ∧ s.Keeps b₃.regs s' ∧
            s'.value addr = s.value data + s.value o * size.toUInt64 := by
  refine ⟨fun b n hn ht => ?_, fun b base off m n hbase hn ht => ?_,
    fun b base base' off off' m u hbase hbase' => ?_, ?_⟩
  · obtain ⟨o, b', is, hrun, hcode, -, -, hvalue⟩ := byteSize_runs kind hI hsize hn ht
    refine ⟨o, b', is, hrun, hcode, fun s => ?_⟩
    obtain ⟨t, hrun, hkeeps, ho⟩ := hvalue s
    refine ⟨t, hrun, hkeeps, ?_⟩
    rw [ho, hW]
    exact toNat_byteCount_eq_iff hk kind _ _
  · exact allocContainer_runs hI hk hW hsize hbase hn ht
  · exact copyContainer_runs hI hk hW hsize hbase hbase'
  · exact fun e x i m t header data o b b₁ b₂ b₃ he hx hobject hload hvalue hdata ho ht =>
      elementPlace_runs hI.mul_index hsize he hx hobject hload hvalue hdata ho ht

/-- Operators that compute every scalar as an index. -/
def indexOperators : Operators where
  unary
    | .neg, _, a => -a
    | .not, _, a => a ^^^ 1
  binary
    | .or, _, a, b => a ||| b
    | .xor, _, a, b => a ^^^ b
    | .and, _, a, b => a &&& b
    | .eq, _, a, b => if a = b then 1 else 0
    | .ne, _, a, b => if a = b then 0 else 1
    | .le, _, a, b => if a ≤ b then 1 else 0
    | .ge, _, a, b => if b ≤ a then 1 else 0
    | .lt, _, a, b => if a < b then 1 else 0
    | .gt, _, a, b => if b < a then 1 else 0
    | .add, _, a, b => a + b
    | .sub, _, a, b => a - b
    | .mul, _, a, b => a * b
    | .div, _, a, b => a / b
    | .mod, _, a, b => a % b
  convert _ _ a := a

/-- Lowering without classes, for packed code that works on 8 instances. -/
def plainEnv : Env := ⟨{}, {}, [], [], 8, default⟩

/-- A state of zeros without blocks. -/
def blankHeap : Heap := ⟨⟨fun _ => 0, fun _ => 0, fun _ => 0, fun _ => 0⟩, []⟩

/-- A container of reals, with its header at address zero. -/
def realsAt (kind : SeqKind) (r : ScalarKind) : Place :=
  .memory (.const (.zero .ptr)) none (.container .var kind (.ofScalar r))

/-- Five reals of four bytes in a `simd` container: there is room for eight. -/
theorem room_for_five_reals : ∃ b' is h' block,
    ((allocContainer (realsAt .simd .real32) (.const (.ofInt .index 5))).run plainEnv).run {} =
      .ok ((), b') ∧ b'.code = is ∧
    runHeap? indexOperators (fun _ _ => 4096) is blankHeap = some h' ∧ h'.blocks = [block] ∧
    block.size.toNat = 32 ∧ h'.mem.HasHeader 0 block.start 5 ∧
    ∀ i < 5, block.Contains (block.start + i * 4) 4 := by
  obtain ⟨-, halloc, -, -⟩ := containers_have_room (I := indexOperators)
    ⟨fun _ _ => rfl, fun _ _ => rfl, fun _ _ => rfl⟩ (fun _ _ => 4096) (k := 3) (by decide)
    (rfl : plainEnv.width = 2 ^ 3) (rfl : plainEnv.layouts.size? (.ofScalar .real32) = some 4) .simd
  obtain ⟨b', is, hrun, hcode, hheap⟩ := halloc {} (.const (.zero .ptr)) none .var
    (.const (.ofInt .index 5)) (Operand.below_const _ _) (Operand.below_const _ _) rfl
  obtain ⟨h', block, hrun', hblock⟩ := hheap blankHeap
  have hcapacity : capacity 8 .simd 5 = 8 := by decide
  refine ⟨b', is, h', block, hrun, by simpa using hcode, hrun', hblock.blocks_eq, ?_, hblock.header,
    hblock.contains ?_⟩
  · exact hblock.size_eq_iff.2 (by decide)
  · decide

/-- A number of elements that take 2 ^ 64 bytes, if each takes eight. -/
def manyReals : Word := 2305843009213693952

/-- As many reals of eight bytes as take 2 ^ 64 bytes: the block that is obtained has no bytes, but
the header counts all of them. -/
theorem no_room_for_many_reals : ∃ b' h' block,
    ((allocContainer (realsAt .array .real64) (.const (.ofInt .index manyReals))).run plainEnv).run
      {} = .ok ((), b') ∧
    runHeap? indexOperators (fun _ _ => 4096) b'.code blankHeap = some h' ∧ h'.blocks = [block] ∧
    h'.mem.HasHeader 0 block.start manyReals ∧ block.size.toNat < manyReals.toNat * 8 ∧
    ¬block.Contains block.start 8 := by
  have hoverlap : ¬(MemoryBlock.mk 4096 0).Contains 4096 8 := by
    unfold MemoryBlock.Contains
    decide
  refine ⟨_, _, ⟨4096, 0⟩, rfl, rfl, by decide +kernel, ?_, by decide, hoverlap⟩
  have hheader := Memory.hasHeader_write blankHeap.mem 0 4096
    (blankHeap.value (.const (.ofInt .index manyReals)))
  exact (Const.word_ofInt_index manyReals) ▸ hheader

end Lane.Lowering
