import Lane.Proofs.Lowering.Instances
import Lane.Proofs.Packing.Total

set_option relaxedAutoImplicit false
set_option autoImplicit false

/-!
# Code that does not come to allocate

Packed versions neither allocate nor copy memory, since functions that do are not packed. A function
in which the compiler copies what is no instance of the class reads an operand that is not there
before it allocates.

## Main definitions

* `Lane.Code.Instr.isHeap`: allocations and copies.
* `Lane.Code.IsGuarded`: code in which an operand is missing before memory is allocated.
* `Lane.Packing.Heapless`: computations that emit no allocations and copies.

## Main results

* `Lane.Packing.packFunction_heapless`: packed versions.
* `Lane.Lowering.isGuarded_of_not_copiesClass`: functions of the compiler that cannot be typed.
-/

namespace Lane.Code

/-- Whether an instruction allocates or copies memory. -/
def Instr.isHeap : Instr → Bool
  | .alloc .. | .memcpy .. => true
  | _ => false

/-- **Guarded code**: before memory is allocated or copied, an operand is used that is not there. -/
def IsGuarded (is : List Instr) : Prop :=
  ∀ before i after, is = before ++ i :: after → i.isHeap → ∃ j ∈ before, .absent ∈ j.uses

section Guarded

variable {is js : List Instr}

/-- Code that uses no heap is guarded. -/
lemma IsGuarded.of_heapless (h : ∀ i ∈ is, i.isHeap = false) : IsGuarded is := by
  rintro before i after rfl hi
  rw [h i (by simp)] at hi
  cases hi

/-- Guarded code in sequence. -/
lemma IsGuarded.append (h : IsGuarded is) (h' : IsGuarded js) : IsGuarded (is ++ js) := by
  intro before i after hsplit hi
  obtain ⟨between, rfl, hrest⟩ | ⟨between, rfl, hrest⟩ := List.append_eq_append_iff.1 hsplit
  · obtain ⟨j, hj, hu⟩ := h' between i after hrest hi
    exact ⟨j, List.mem_append_right _ hj, hu⟩
  · cases between with
    | nil =>
      obtain ⟨j, hj, -⟩ := h' [] i after hrest.symm hi
      cases hj
    | cons k between =>
      obtain ⟨rfl, -⟩ := List.cons.inj hrest
      exact h before i between rfl hi

/-- Code that begins with a missing operand. -/
lemma IsGuarded.cons {j : Instr} (hj : j.isHeap = false) (hu : .absent ∈ j.uses) :
    IsGuarded (j :: is) := by
  intro before i after hsplit hi
  cases before with
  | nil =>
    obtain ⟨rfl, -⟩ := List.cons.inj hsplit
    rw [hj] at hi
    cases hi
  | cons k before =>
    obtain ⟨rfl, -⟩ := List.cons.inj hsplit
    exact ⟨j, List.mem_cons_self, hu⟩

/-- Pieces of guarded code. -/
lemma IsGuarded.flatten : ∀ {pieces : List (List Instr)}, (∀ is ∈ pieces, IsGuarded is) →
    IsGuarded pieces.flatten
  | [], _ => .of_heapless (List.forall_mem_nil _)
  | _ :: _, h => by
    obtain ⟨his, h⟩ := List.forall_mem_cons.1 h
    exact his.append (.flatten h)

end Guarded

end Lane.Code

namespace Lane.Packing

open Code

/-! ## Packed versions -/

/-- **Computations that emit no allocations and copies**. -/
def Heapless {α : Type} (env : WidenEnv) (m : Widen α) : Prop :=
  ∀ σ a σ', Makes env m σ a σ' → (∀ i ∈ σ.code, i.isHeap = false) →
    ∀ i ∈ σ'.code, i.isHeap = false

section Heapless

variable {α β : Type} {env : WidenEnv} {m : Widen α} {f : α → Widen β}

/-- A computation without effects emits nothing. -/
lemma Heapless.pure (a : α) : Heapless env (pure a) := fun _ _ _ h hσ => (makes_pure.1 h).2 ▸ hσ

/-- Computations without allocations in sequence. -/
lemma Heapless.bind (hm : Heapless env m) (hf : ∀ a, Heapless env (f a)) :
    Heapless env (m >>= f) := by
  intro σ b σ'' h hσ
  obtain ⟨a, σ', ha, hb⟩ := makes_bind.1 h
  exact hf a σ' b σ'' hb (hm σ a σ' ha hσ)

/-- What fails emits nothing. -/
lemma Heapless.throw (x : Stop) : Heapless env (throw x : Widen α) := fun _ _ _ h => by cases h

/-- What is refused does not go on. -/
lemma Heapless.refused (x : Obstacle) : Heapless env ((refuse x : Widen α) >>= f) :=
  fun _ _ _ h => by cases h

/-- The environment is read. -/
lemma Heapless.read {g : WidenEnv → Widen β} (h : Heapless env (g env)) :
    Heapless env (read >>= g) := fun σ => h σ

/-- The state is read. -/
lemma Heapless.get {g : WidenState → Widen β} (h : ∀ σ, Heapless env (g σ)) :
    Heapless env (get >>= g) := fun σ => h σ σ

/-- The state changes, but not the code. -/
lemma Heapless.modifyGet {g : WidenState → α × WidenState} (h : ∀ σ, (g σ).2.code = σ.code) :
    Heapless env (modifyGet g) := by
  intro σ a σ' hm hσ
  rw [← show (g σ).2 = σ' from congrArg Prod.snd (makes_modifyGet.1 hm), h σ]
  exact hσ

/-- An instruction is emitted that does not allocate. -/
lemma Heapless.emit {i : Instr} (h : i.isHeap = false) : Heapless env (emit i) := by
  intro σ a σ' hm hσ
  rw [← makes_emit.1 hm]
  exact List.forall_mem_append.2 ⟨hσ, List.forall_mem_singleton.2 h⟩

/-- A new register. -/
lemma Heapless.newReg (t : VType) : Heapless env (newReg t) := .modifyGet fun _ => rfl

/-- The lanes of an operand are looked up. -/
lemma Heapless.laneOf {o : Operand} {g : LaneKind → Widen β} (h : ∀ l, Heapless env (g l)) :
    Heapless env (laneOf o >>= g) := .bind (.read (.pure _)) h

/-- A slot is packed without allocations. -/
lemma packSlot_heapless (s : Slot) : Heapless env (packSlot s) := by
  refine .read ?_
  split
  · split
    · split
      · exact .modifyGet fun _ => rfl
      · exact .throw _
    · exact .modifyGet fun _ => rfl
  · exact .modifyGet fun _ => rfl

/-- The counterpart of an operand needs no allocations. -/
lemma operand_heapless (o : Operand) : Heapless env (operand o) := by
  have hpack : Heapless env (packOperand o) := by
    refine .read ?_
    cases o with
    | const => exact .pure _
    | reg => exact .newReg _
    | var => exact .modifyGet fun _ => rfl
    | slot s => exact packSlot_heapless s
    | absent => exact .throw _
  refine .get fun σ => ?_
  split
  · exact .pure _
  · exact .bind hpack fun _ => .bind (.modifyGet fun _ => rfl) fun _ => .pure _

/-- The counterparts of operands need none. -/
lemma operands_heapless : ∀ os : List Operand, Heapless env (operands os)
  | [] => .pure _
  | o :: os => .bind (operand_heapless o) fun _ => .bind (operands_heapless os) fun _ => .pure _

/-- An operand is made a vector without allocations. -/
lemma vector_heapless (o : Operand) : Heapless env (vector o) := by
  refine .bind (operand_heapless o) fun n => ?_
  split
  · exact .pure _
  · exact .read (.bind (.newReg _) fun _ => .bind (.emit rfl) fun _ => .pure _)

/-- Operands are made vectors without allocations. -/
lemma vectors_heapless : ∀ os : List Operand, Heapless env (vectors os)
  | [] => .pure _
  | o :: os => .bind (vector_heapless o) fun _ => .bind (vectors_heapless os) fun _ => .pure _

/-- Labels need no allocations. -/
lemma label_heapless (l : Label) : Heapless env (label l) := by
  refine .get fun σ => ?_
  split
  · exact .pure _
  · exact .modifyGet fun _ => rfl

/-- Offsets need no allocations. -/
lemma packedOffset_heapless (o : Option Offset) : Heapless env (packedOffset o) := by
  refine .read ?_
  split
  · exact .pure _
  · exact .throw _

/-- The code of an access that is no mask. -/
lemma access_heapless {d : Operand} {x : Widen Operand} {g : Operand → Operand → Instr}
    (hg : ∀ n m, (g n m).isHeap = false) (hx : Heapless env x) : Heapless env (do
      let n ← operand d
      emit (g n (← x))) :=
  .bind (operand_heapless d) fun _ => .bind hx fun _ => .emit (hg _ _)

/-- Assignments are packed without allocations. -/
lemma assign_heapless (kind : AssignKind) (d : Operand) (os : List Operand) :
    Heapless env (assign kind d os) := by
  refine .read ?_
  dsimp only
  split
  · exact .refused _
  · refine .bind (operand_heapless d) fun n => ?_
    split
    · exact .bind (vectors_heapless os) fun _ => .emit rfl
    · exact .bind (operands_heapless os) fun _ => .emit rfl

/-- Loads are packed without allocations. -/
lemma load_heapless (d p : Operand) (o : Option Offset) : Heapless env (load d p o) := by
  refine .laneOf fun l => ?_
  split
  · exact access_heapless (fun _ _ => rfl) (operand_heapless p)
  · refine .bind (packedOffset_heapless o) fun r => ?_
    dsimp only
    split
    · exact .bind (.newReg _) fun _ => .bind (operand_heapless p) fun _ => .bind (.emit rfl)
        fun _ => .bind (operand_heapless d) fun _ => .emit rfl
    · exact access_heapless (fun _ _ => rfl) (operand_heapless p)

/-- Stores are packed without allocations. -/
lemma store_heapless (p : Operand) (o : Option Offset) (a : Operand) :
    Heapless env (store p o a) := by
  refine .laneOf fun l => ?_
  split
  · refine .laneOf fun l => ?_
    split
    · exact .refused _
    · exact access_heapless (fun _ _ => rfl) (operand_heapless a)
  · split
    · exact access_heapless (fun _ _ => rfl) (vector_heapless a)
    · refine .bind (packedOffset_heapless o) fun r => ?_
      dsimp only
      split
      · exact .bind (.newReg _) fun _ => .bind (vector_heapless a) fun _ => .bind (.emit rfl)
          fun _ => .bind (operand_heapless p) fun _ => .emit rfl
      · split
        · exact access_heapless (fun _ _ => rfl) (vector_heapless a)
        · refine .laneOf fun l => ?_
          split
          · exact .refused _
          · exact access_heapless (fun _ _ => rfl) (operand_heapless a)

/-- Arguments are packed without allocations. -/
lemma packedArguments_heapless (callee : String) (d : DeclLanes) : ∀ (place : Nat)
    (wants : List LaneKind) (os : List Operand),
    Heapless env (packedArguments callee d place wants os)
  | _, _, [] => by
    unfold packedArguments
    exact .pure _
  | _, [], _ :: _ => .throw _
  | place, want :: wants, o :: os => by
    have hrest : ∀ n : Operand, Heapless env (do
        return n :: (← packedArguments callee d (place + 1) wants os)) := fun n =>
      .bind (packedArguments_heapless callee d _ wants os) fun _ => .pure _
    refine .laneOf fun l => ?_
    split
    · exact .bind (vector_heapless o) fun _ => hrest _
    · split
      · exact .refused _
      · exact .bind (operand_heapless o) fun _ => hrest _

/-- Calls are packed without allocations. -/
lemma call_heapless (callee : FuncDecl) (ins outs : List Operand) :
    Heapless env (call callee ins outs) := by
  refine .read ?_
  split
  · split
    · exact .refused _
    · exact .bind (operands_heapless ins) fun _ => .bind (operands_heapless outs) fun _ => .emit rfl
  · exact .bind (packedArguments_heapless _ _ 1 _ ins) fun _ =>
      .bind (operands_heapless outs) fun _ => .emit rfl

/-- **Instructions are packed without allocations**: those of the heap are not packed. -/
lemma instr_heapless (ps rs : List Operand) (i : Instr) : Heapless env (instr ps rs i) := by
  unfold instr
  split
  · exact .bind (label_heapless _) fun _ => .emit rfl
  · exact .bind (label_heapless _) fun _ => .emit rfl
  · refine .laneOf fun l => ?_
    split
    · exact .refused _
    · exact .bind (operand_heapless _) fun _ => .bind (label_heapless _) fun _ =>
        .bind (label_heapless _) fun _ => .emit rfl
  · exact assign_heapless _ _ _
  · exact load_heapless _ _ _
  · exact store_heapless _ _ _
  · rename_i d p _
    have hlea : ∀ off, Heapless env (do
        let d ← operand d
        emit (.lea d (← operand p) off)) := fun off =>
      access_heapless (fun _ _ => rfl) (operand_heapless p)
    refine .laneOf fun l => ?_
    split
    · exact .bind (packedOffset_heapless _) fun _ => hlea _
    · exact hlea _
  · exact .throw _
  · exact .throw _
  · exact call_heapless _ _ _
  · exact .throw _
  · exact .throw _

/-- Code is packed without allocations. -/
lemma code_heapless (ps rs : List Operand) : ∀ is : List Instr, Heapless env (code ps rs is)
  | [] => .pure _
  | i :: is => .bind (instr_heapless ps rs i) fun _ => code_heapless ps rs is

/-- **Packed versions neither allocate nor copy memory.** -/
theorem packFunction_heapless {env : PackEnv} {d : DeclLanes} {f g : Function}
    (h : packFunction env d f = .ok g) : ∀ i ∈ g.body, i.isHeap = false := by
  obtain ⟨σ₁, σ₂, σ₃, hps, hrs, hcode, hg⟩ := of_packFunction_eq_ok h
  have hempty : ∀ i ∈ (({} : WidenState).code), i.isHeap = false := List.forall_mem_nil _
  have h₁ := operands_heapless f.params {} _ σ₁ hps hempty
  have h₂ := operands_heapless f.results σ₁ _ σ₂ hrs h₁
  have h₃ := code_heapless f.params f.results f.instrs σ₂ () σ₃ hcode h₂
  rw [hg]
  intro i hi
  simp only [Function.frame, List.mem_append, List.mem_cons, List.not_mem_nil, or_false] at hi
  obtain ((rfl | rfl) | hi) | rfl | rfl := hi
  · rfl
  · rfl
  · exact h₃ i hi
  · rfl
  · rfl

end Heapless

end Lane.Packing

namespace Lane.Lowering

open Code

/-! ## Functions of the compiler that cannot be typed -/

section Missing

variable {env : Env} {e : Elaborated} {x : Treatment} {p q : Place} {is : List Instr}

/-- The code that gives addresses allocates nothing. -/
lemma Addresses.heapless {o : Operand} (h : Addresses p o is) : ∀ i ∈ is, i.isHeap = false := by
  cases h with
  | base => exact List.forall_mem_nil _
  | path => exact List.forall_mem_singleton.2 rfl

/-- Addresses of places do not allocate. -/
lemma AddressesAll.heapless {ps : List Place} {os : List Operand} (h : AddressesAll ps os is) :
    ∀ i ∈ is, i.isHeap = false := by
  induction h with
  | nil => exact List.forall_mem_nil _
  | cons h _ ih => exact List.forall_mem_append.2 ⟨h.heapless, ih⟩

/-- Openings and copies of instances do not allocate by themselves. -/
lemma TreatsClass.heapless {c : ClassRef} (h : TreatsClass e c x p q is) :
    ∀ i ∈ is, i.isHeap = false := by
  cases h with
  | idle | unconstructed => exact List.forall_mem_nil _
  | call hg ht hn hargs hself =>
    exact List.forall_mem_append.2 ⟨List.forall_mem_append.2 ⟨hargs.heapless, hself.heapless⟩,
      List.forall_mem_singleton.2 rfl⟩

/-- **Elements that are copied from nowhere**: the header is read before memory is allocated. -/
lemma Treats.isGuarded (h : Treats e x p q is) (hq : q.base = .absent) : IsGuarded is := by
  have hload : ∀ {r : Reg} {o : Option Offset},
      Operand.absent ∈ (Instr.load (.reg r) q.base o).uses :=
    List.mem_singleton.2 hq.symm
  cases h with
  | «instance» ht h => exact .of_heapless h.heapless
  | zero => exact .of_heapless (List.forall_mem_singleton.2 rfl)
  | move r => exact .cons rfl hload
  | empty => exact .of_heapless (List.forall_mem_cons.2 ⟨rfl, List.forall_mem_singleton.2 rfl⟩)
  | elements data n new => exact .cons rfl hload

/-- **A function that copies what is no instance of the class** does not come to allocate: the other
instance is a scalar, and is not in memory. -/
theorem isGuarded_of_not_copiesClass (he : Furnishes env e) {f : MemberFunction}
    (hf : e.program.Declares f) (ht : IsTreatable e f) (h : ¬ CopiesClass e f) {fn : Function}
    (hfn : function env e f = .ok fn) :
    ∃ code, fn.body = Function.frame code ∧ IsGuarded code := by
  simp only [CopiesClass, Classical.not_imp, not_or] at h
  obtain ⟨hgen, hcopy, hname, -⟩ := h
  have hvalid := ht.valid
  obtain ⟨a, hps, ⟨hnone, -⟩ | ⟨k, -, htype⟩⟩ := hvalid.copy_param hgen hcopy
  · exact absurd hnone hname
  have hkind := hvalid.generated_kind hgen
  have hself : f.hasSelf = true := by
    obtain hk | hk := hkind <;> simp [MemberFunction.hasSelf, hk]
  have hresults := hvalid.results_nil hkind
  obtain ⟨q, b, hrun, rfl⟩ := of_function_eq_ok hfn
  obtain ⟨q', b₁, hpro, h₁⟩ := Runs.of_bind hrun
  obtain ⟨⟨⟩, b₂, hbody, h₂⟩ := Runs.of_bind h₁
  obtain ⟨rfl, rfl⟩ := Runs.of_pure h₂
  -- The prologue binds variables, and has no code.
  obtain ⟨inst, ins, hidden, copies, results, hopened⟩ := prologue_opens he ht rfl hpro
  have hcopied : copied f = [] := by simp [copied, hps, htype, Ty.isAtomic]
  have hcode : b₁.code = [] := by
    have hcopies := hopened.copies_all
    have hconstructs := hopened.results_all
    rw [hcopied] at hcopies
    rw [Signature.hiddenResults, hresults] at hconstructs
    cases hcopies
    cases hconstructs
    exact hopened.code_eq
  obtain ⟨q', d, is, hrun', -, v, s, hL⟩ := prologue_of_copy env (T := False) hself hps hresults
    (by rw [htype]; rfl) (by simp [htype, Ty.modifier]) {} rfl
  obtain ⟨-, rfl⟩ := Runs.unique hpro hrun'
  have hne : (f.selfId == a.localId) = false := by
    have hn := hvalid.locals_nodup
    rw [MemberFunction.localIds, hps] at hn
    rw [beq_eq_false_iff_ne]
    intro heq
    simp [heq] at hn
  -- The body treats the members, and there is no other instance.
  rw [bodyOf, if_pos hgen] at hbody
  obtain ⟨_, b₃, hget, hbody⟩ := Runs.of_bind hbody
  obtain ⟨rfl, rfl⟩ := Prod.mk.inj (Except.ok.inj hget)
  rw [show b₁.locals.lookup f.selfId = some (.memory (.var s)) by simp [hL, List.lookup_cons, hne]]
    at hbody
  obtain ⟨self, b₄, hplace, hbody⟩ := Runs.of_bind hbody
  obtain ⟨rfl, rfl⟩ := Runs.of_pure hplace
  obtain ⟨_, b₅, hread, hbody⟩ := Runs.of_bind hbody
  obtain ⟨rfl, rfl⟩ := Prod.mk.inj (Except.ok.inj hread)
  simp only [he.program_eq, hcopy, hps] at hbody
  obtain ⟨other, b₆, hother, hbody⟩ := Runs.of_bind hbody
  obtain ⟨_, b₇, hget', hother⟩ := Runs.of_bind hother
  obtain ⟨rfl, rfl⟩ := Prod.mk.inj (Except.ok.inj hget')
  rw [show b₁.locals.lookup a.localId = some (.var v) by simp [hL]] at hother
  obtain ⟨rfl, rfl⟩ := Runs.of_pure hother
  obtain ⟨pieces, hw, hall⟩ := members_write he hf (.var s) .absent (by
    rw [Treatment.ofFunction, if_pos hcopy]
    split
    · rename_i hassign
      simp only [hassign, if_true] at hbody
      exact hbody
    · rename_i hassign
      simp only [hassign, if_false] at hbody
      exact hbody)
  refine ⟨b₂.code, rfl, ?_⟩
  rw [hw.code_eq, hcode, List.nil_append]
  refine .flatten fun is his => ?_
  obtain ⟨y, -, _, m, -, -, htreats⟩ := exists_of_forall₂ hall.flip his
  exact htreats.isGuarded rfl

end Missing

end Lane.Lowering
