import Lane.Proofs.Calls.Program
import Lane.Proofs.Packing.Independence

set_option relaxedAutoImplicit false
set_option autoImplicit false

/-!
# Packing stops at obstacles only

Packing a function of an accepted program ends with a packed version or at an obstacle, which is
reported, and never with a fault: all operands of well-typed code have a counterpart. A slot that is
packed without a packed layout holds a single value, since nothing else is stored without a path.

## Main definitions

* `Lane.Packing.Lanes.FindsSlots`: lanes in which all packed slots have a packed form.
* `Lane.Packing.Blocked`: computations that stop at obstacles only.
* `Lane.Packing.IsPackable`: functions that can be packed.

## Main results

* `Lane.Packing.packFunction_ne_fault`: functions are packed, or an obstacle is found.
* `Lane.Packing.callees_packFunction`: what packed functions call.
* `Lane.Accepted.lower_ok_iff`: which accepted programs are lowered, and that these are packed.
-/

namespace Lane.Packing

open Code
open Lowering (callee? callees)

/-! ## Lanes of slots -/

namespace Lanes

/-- **Packed slots have a packed form**: the packed layout of their class, unless they hold a single
value. -/
def FindsSlots (env : PackEnv) (m : Lanes) : Prop :=
  ∀ s name, m.get (.slot s) = .packed → s.struct = some name →
    (env.layouts.byName.lookup name).isSome

variable {env : PackEnv} {m : Lanes} {d : DeclLanes} {f : Function} {l : Lowering.Layouts}
  {D : FuncDecl → Prop}

/-- What is no slot may be set. -/
lemma FindsSlots.set (h : m.FindsSlots env) {o : Operand} (ho : ∀ s, o ≠ .slot s)
    (lane : LaneKind) : (m.set o lane).FindsSlots env := by
  intro s name hs
  rw [get_set, if_neg fun he => ho s he.symm] at hs
  exact h s name hs

/-- A slot that holds a single value may be set. -/
lemma FindsSlots.set_slot (h : m.FindsSlots env) {s : Slot} (hs : s.struct = none)
    (lane : LaneKind) : (m.set (.slot s) lane).FindsSlots env := by
  intro s' name hs' hname
  rw [get_set] at hs'
  split at hs'
  · rename_i he
    obtain rfl := Operand.slot.inj he
    cases hs.symm.trans hname
  · exact h s' name hs' hname

/-- Slots that are packed at first have a packed layout. -/
lemma findsSlots_start (env : PackEnv) (d : DeclLanes) (hf : f.Regular l) :
    (start env d f).FindsSlots env := by
  unfold start
  extract_lets bound packed
  have hbound : bound.FindsSlots env := by
    intro s name hs
    obtain ⟨lane, hmem, -⟩ | ⟨-, hget⟩ :=
      get_foldl_set (f.params.zip d.params ++ f.results.zip d.results) {} (.slot s)
    · have hbound : IsBound d f (.slot s) lane := hmem
      obtain ⟨v, hv⟩ := hbound.isVar hf
      cases hv
    · cases hs.symm.trans hget
  have hpacked : ∀ (slots : List Slot) (m : Lanes), m.FindsSlots env → (∀ s ∈ slots, packed s) →
      (slots.foldl (fun m s => m.set (.slot s) .packed) m).FindsSlots env := by
    intro slots
    induction slots with
    | nil => exact fun _ hm _ => hm
    | cons s slots ih =>
      intro m hm hslots
      obtain ⟨hs, hslots⟩ := List.forall_mem_cons.1 hslots
      refine ih _ (fun s' name hs' hname => ?_) hslots
      rw [get_set] at hs'
      split at hs'
      · rename_i he
        obtain rfl := Operand.slot.inj he
        have hs : (s'.struct.bind fun name => env.layouts.byName.lookup name).isSome := hs
        rwa [hname] at hs
      · exact hm s' name hs' hname
  exact hpacked _ _ hbound fun s hs => (List.mem_filter.1 hs).2

/-- **Packed slots of well-typed code** have a packed form. -/
lemma findsSlots_ofFunction (env : PackEnv) (d : DeclLanes) (hf : f.Regular l)
    (ht : ∀ i ∈ f.instrs, i.WellTyped D) : (ofFunction env d f).FindsSlots env := by
  refine (settle_induction (P := FindsSlots env) (fun i hi m _ p hp m' _ hm' _ => ?_)
    (findsSlots_start env d hf)).2
  have hi := ht i hi
  have target : p.1.IsTarget → (m'.set p.1 p.2).FindsSlots env := fun h =>
    hm'.set (fun s hs => by rw [hs] at h; exact h) p.2
  unfold raised at hp
  split at hp
  · obtain rfl := List.mem_singleton.1 hp
    exact target hi.1
  · obtain rfl := List.mem_singleton.1 hp
    exact target hi.1
  · split at hp
    · obtain rfl := List.mem_singleton.1 hp
      exact target hi.1
    · cases hp
  · split at hp
    · obtain rfl := List.mem_singleton.1 hp
      exact hm'.set_slot (hi.2.2 _ rfl).1 _
    · cases hp
  · split at hp
    · exact target (hi.2.2.2 p.1 (List.of_mem_zip hp).1)
    · cases hp
  · cases hp

end Lanes

/-! ## Computations that stop at obstacles only -/

/-- **Computations that stop at obstacles only**, and at no fault. The code that they emit calls the
functions `C`. -/
structure Blocked {α : Type} (env : WidenEnv) (C : FuncDecl → Prop) (m : Widen α) : Prop where
  ne_fault : ∀ σ x, (m.run env).run σ ≠ .error (.fault x)
  calls : ∀ σ a σ', Makes env m σ a σ' → (∀ c ∈ callees σ.code, C c) → ∀ c ∈ callees σ'.code, C c

section Blocked

variable {α β : Type} {env : WidenEnv} {m : Widen α} {f : α → Widen β} {o : Operand}
  {os : List Operand} {C D : FuncDecl → Prop}

/-- A computation without effects does not fault. -/
lemma Blocked.pure (a : α) : Blocked env C (pure a) where
  ne_fault _ _ h := by cases h
  calls _ _ _ h hσ := (makes_pure.1 h).2 ▸ hσ

/-- Computations that do not fault, in sequence. -/
lemma Blocked.bind (hm : Blocked env C m) (hf : ∀ a, Blocked env C (f a)) :
    Blocked env C (m >>= f) where
  ne_fault σ x h := by
    rw [ReaderT.run_bind, StateT.run_bind] at h
    cases hrun : (m.run env).run σ with
    | error y =>
      rw [hrun] at h
      obtain rfl := Except.error.inj h
      exact hm.ne_fault σ x hrun
    | ok r =>
      rw [hrun] at h
      exact (hf r.1).ne_fault r.2 x h
  calls σ b σ'' h hσ := by
    obtain ⟨a, σ', ha, hb⟩ := makes_bind.1 h
    exact (hf a).calls σ' b σ'' hb (hm.calls σ a σ' ha hσ)

/-- A refusal is no fault. -/
lemma Blocked.refuse (x : Obstacle) : Blocked env C (refuse x : Widen α) :=
  ⟨fun _ _ h => (by cases h), fun _ _ _ h => (makes_refuse h).elim⟩

/-- What is refused does not go on. -/
lemma Blocked.refused (x : Obstacle) : Blocked env C ((Packing.refuse x : Widen α) >>= f) :=
  ⟨fun _ _ h => (by cases h), fun _ _ _ h => (by cases h)⟩

/-- The environment is read. -/
lemma Blocked.read {g : WidenEnv → Widen β} (h : Blocked env C (g env)) :
    Blocked env C (read >>= g) :=
  ⟨fun σ => h.ne_fault σ, fun σ => h.calls σ⟩

/-- The state is read. -/
lemma Blocked.get {g : WidenState → Widen β} (h : ∀ σ, Blocked env C (g σ)) :
    Blocked env C (get >>= g) :=
  ⟨fun σ => (h σ).ne_fault σ, fun σ => (h σ).calls σ⟩

/-- The state changes, but not the code. -/
lemma Blocked.modifyGet {g : WidenState → α × WidenState} (h : ∀ σ, (g σ).2.code = σ.code) :
    Blocked env C (modifyGet g) where
  ne_fault _ _ h := by cases h
  calls σ a σ' hm hσ := by
    rw [← show (g σ).2 = σ' from congrArg Prod.snd (makes_modifyGet.1 hm), h σ]
    exact hσ

/-- An instruction is emitted that calls known functions. -/
lemma Blocked.emit {i : Instr} (h : ∀ c, callee? i = some c → C c) : Blocked env C (emit i) where
  ne_fault _ _ h := by cases h
  calls σ a σ' hm hσ c hc := by
    rw [← makes_emit.1 hm, callees, List.filterMap_append, List.mem_append] at hc
    obtain hc | hc := hc
    · exact hσ c hc
    · obtain ⟨j, hj, hc⟩ := List.mem_filterMap.1 hc
      exact h c (List.mem_singleton.1 hj ▸ hc)

/-- An instruction that is no call. -/
lemma Blocked.plain {i : Instr} (h : callee? i = none) : Blocked env C (Packing.emit i) :=
  .emit fun _ hc => nomatch h.symm.trans hc

/-- A new register. -/
lemma Blocked.newReg (t : VType) : Blocked env C (newReg t) := .modifyGet fun _ => rfl

/-- The lanes of an operand are looked up. -/
lemma Blocked.laneOf {g : LaneKind → Widen β} (h : ∀ l, Blocked env C (g l)) :
    Blocked env C (laneOf o >>= g) :=
  .bind (.read (.pure _)) h

/-- **Operands that have a packed form**. -/
def HasForm (env : WidenEnv) (o : Operand) : Prop :=
  o ≠ .absent ∧ env.lanes.FindsSlots env.toPackEnv

/-- A slot is packed without a fault. -/
lemma packSlot_blocked (h : env.lanes.FindsSlots env.toPackEnv) (s : Slot) :
    Blocked env C (packSlot s) := by
  refine .read ?_
  split
  · rename_i hpacked
    split
    · rename_i name hname
      have hfound := h s name hpacked hname
      split
      · exact .modifyGet fun _ => rfl
      · rename_i hnone
        simp [hnone] at hfound
    · exact .modifyGet fun _ => rfl
  · exact .modifyGet fun _ => rfl

/-- An operand is packed without a fault. -/
lemma packOperand_blocked (h : HasForm env o) : Blocked env C (packOperand o) := by
  refine .read ?_
  cases o with
  | const => exact .pure _
  | reg => exact .newReg _
  | var => exact .modifyGet fun _ => rfl
  | slot s => exact packSlot_blocked h.2 s
  | absent => exact absurd rfl h.1

/-- Operands have counterparts. -/
lemma operand_blocked (h : HasForm env o) : Blocked env C (operand o) := by
  refine .get fun σ => ?_
  split
  · exact .pure _
  · exact .bind (packOperand_blocked h) fun _ => .bind (.modifyGet fun _ => rfl) fun _ => .pure _

/-- Operands are packed without a fault. -/
lemma operands_blocked : ∀ {os : List Operand}, (∀ o ∈ os, HasForm env o) →
    Blocked env C (operands os)
  | [], _ => .pure _
  | _ :: _, h => by
    obtain ⟨ho, hos⟩ := List.forall_mem_cons.1 h
    exact .bind (operand_blocked ho) fun _ => .bind (operands_blocked hos) fun _ => .pure _

/-- An operand is made a vector without a fault. -/
lemma vector_blocked (h : HasForm env o) : Blocked env C (vector o) := by
  refine .bind (operand_blocked h) fun n => ?_
  split
  · exact .pure _
  · exact .read (.bind (.newReg _) fun _ => .bind (.plain rfl) fun _ => .pure _)

/-- Operands are made vectors without a fault. -/
lemma vectors_blocked : ∀ {os : List Operand}, (∀ o ∈ os, HasForm env o) →
    Blocked env C (vectors os)
  | [], _ => .pure _
  | _ :: _, h => by
    obtain ⟨ho, hos⟩ := List.forall_mem_cons.1 h
    exact .bind (vector_blocked ho) fun _ => .bind (vectors_blocked hos) fun _ => .pure _

/-- A label is packed without a fault. -/
lemma label_blocked (l : Label) : Blocked env C (label l) := by
  refine .get fun σ => ?_
  split
  · exact .pure _
  · exact .modifyGet fun _ => rfl

/-- An offset is packed without a fault. -/
lemma packedOffset_blocked (o : Option Offset) : Blocked env C (packedOffset o) := by
  refine .read ?_
  split
  · exact .pure _
  · exact .refuse _

/-! ## Instructions -/

variable {d p a : Operand}

/-- An assignment is packed without a fault. -/
lemma assign_blocked (kind : AssignKind) (hd : HasForm env d) (hos : ∀ o ∈ os, HasForm env o) :
    Blocked env C (assign kind d os) := by
  refine .read ?_
  dsimp only
  split
  · exact .refused _
  · refine .bind (operand_blocked hd) fun n => ?_
    split
    · exact .bind (vectors_blocked hos) fun _ => .plain rfl
    · exact .bind (operands_blocked hos) fun _ => .plain rfl

/-- The code of an access that is no mask. -/
lemma access_blocked {x : Widen Operand} {g : Operand → Operand → Instr}
    (hg : ∀ n m, callee? (g n m) = none) (hd : HasForm env d)
    (hx : Blocked env C x) : Blocked env C (do
      let n ← operand d
      emit (g n (← x))) :=
  .bind (operand_blocked hd) fun _ => .bind hx fun _ => .plain (hg _ _)

/-- A load is packed without a fault. -/
lemma load_blocked (hd : HasForm env d) (hp : HasForm env p) (o : Option Offset) :
    Blocked env C (load d p o) := by
  refine .laneOf fun l => ?_
  split
  · exact access_blocked (fun _ _ => rfl) hd (operand_blocked hp)
  · refine .bind (packedOffset_blocked o) fun r => ?_
    dsimp only
    split
    · exact .bind (.newReg _) fun _ => .bind (operand_blocked hp) fun _ =>
        .bind (.plain rfl) fun _ =>
        .bind (operand_blocked hd) fun _ => .plain rfl
    · exact access_blocked (fun _ _ => rfl) hd (operand_blocked hp)

/-- A store is packed without a fault. -/
lemma store_blocked (hp : HasForm env p) (ha : HasForm env a) (o : Option Offset) :
    Blocked env C (store p o a) := by
  have hshared : ∀ o, Blocked env C (do
      let p ← operand p
      emit (.store p o (← operand a))) := fun o =>
      access_blocked (fun _ _ => rfl) hp (operand_blocked ha)
  have hvector : ∀ o, Blocked env C (do
      let p ← operand p
      emit (.store p o (← vector a))) := fun o =>
      access_blocked (fun _ _ => rfl) hp (vector_blocked ha)
  refine .laneOf fun l => ?_
  split
  · refine .laneOf fun l => ?_
    split
    · exact .refused _
    · exact hshared o
  · split
    · exact hvector none
    · refine .bind (packedOffset_blocked o) fun r => ?_
      dsimp only
      split
      · exact .bind (.newReg _) fun _ => .bind (vector_blocked ha) fun _ =>
          .bind (.plain rfl) fun _ =>
          .bind (operand_blocked hp) fun _ => .plain rfl
      · split
        · exact hvector _
        · refine .laneOf fun l => ?_
          split
          · exact .refused _
          · exact hshared _

/-- A call has no more arguments than the packed function has parameters. -/
lemma packedArguments_blocked (callee : String) (d : DeclLanes) : ∀ (place : Nat)
    {wants : List LaneKind} {os : List Operand}, os.length ≤ wants.length →
    (∀ o ∈ os, HasForm env o) → Blocked env C (packedArguments callee d place wants os)
  | _, _, [], _, _ => by
    unfold packedArguments
    exact .pure _
  | _, [], _ :: _, hlen, _ => absurd hlen (Nat.not_succ_le_zero _)
  | place, want :: wants, o :: os, hlen, h => by
    obtain ⟨ho, hos⟩ := List.forall_mem_cons.1 h
    have hrest : ∀ n : Operand, Blocked env C (do
        return n :: (← packedArguments callee d (place + 1) wants os)) := fun n =>
      .bind (packedArguments_blocked callee d _ (Nat.le_of_succ_le_succ hlen) hos) fun _ => .pure _
    refine .laneOf fun l => ?_
    split
    · exact .bind (vector_blocked ho) fun _ => hrest _
    · split
      · exact .refused _
      · exact .bind (operand_blocked ho) fun _ => hrest _

/-- A call is packed without a fault, and leads to known functions. -/
lemma call_blocked {callee : FuncDecl} {ins outs : List Operand}
    (hcallee : env.packed? callee = none → C callee)
    (hpacked : ∀ g, env.packed? callee = some g → C g.decl)
    (hparams : ∀ g, env.packed? callee = some g → ins.length ≤ g.params.length)
    (hins : ∀ o ∈ ins, HasForm env o) (houts : ∀ o ∈ outs, HasForm env o) :
    Blocked env C (call callee ins outs) := by
  refine .read ?_
  split
  · split
    · exact .refused _
    · exact .bind (operands_blocked hins) fun _ => .bind (operands_blocked houts) fun _ =>
        .emit fun _ hc => Option.some.inj hc ▸ hcallee ‹_›
  · exact .bind (packedArguments_blocked _ _ 1 (hparams _ ‹_›) hins) fun _ =>
      .bind (operands_blocked houts) fun _ => .emit fun _ hc => Option.some.inj hc ▸ hpacked _ ‹_›

/-- Operands of a type are not absent. -/
lemma ne_absent_of_forall₂ {ts : List VType} (h : List.Forall₂ Operand.HasType os ts) :
    ∀ o ∈ os, o ≠ .absent := fun o ho => by
  obtain ⟨t, -, ht⟩ := exists_of_forall₂ h ho
  exact ht.1

/-- **What packing relies on in calls**: the packed versions of the functions `D` take as many
arguments, and `C` are these versions and the functions `D` that have none. -/
structure PackEnv.Serves (env : PackEnv) (C D : FuncDecl → Prop) : Prop where
  params_length : ∀ c, D c → ∀ g, env.packed? c = some g → g.params.length = c.params.length
  packed : ∀ c, D c → ∀ g, env.packed? c = some g → C g.decl
  scalar : ∀ c, D c → env.packed? c = none → C c

/-- **The packed code of well-typed instructions**. -/
lemma instr_blocked (hslots : env.lanes.FindsSlots env.toPackEnv) (hs : env.Serves C D)
    (ps rs : List Operand) {i : Instr} (hi : i.WellTyped D) (hframe : i.isOfFrame = false) :
    Blocked env C (instr ps rs i) := by
  have packed : ∀ {o : Operand}, o ≠ .absent → HasForm env o := fun h => ⟨h, hslots⟩
  have target : ∀ {o : Operand}, o.IsTarget → HasForm env o := fun h => packed h.ne_absent
  unfold instr
  split
  · exact .bind (label_blocked _) fun _ => .plain rfl
  · exact .bind (label_blocked _) fun _ => .plain rfl
  · refine .laneOf fun l => ?_
    split
    · exact .refused _
    · exact .bind (operand_blocked (packed hi.1)) fun _ => .bind (label_blocked _) fun _ =>
        .bind (label_blocked _) fun _ => .plain rfl
  · exact assign_blocked _ (target hi.1) fun o ho => packed (hi.2.1 o ho)
  · exact load_blocked (target hi.1) (packed hi.2.1.1) _
  · exact store_blocked (packed hi.2.1.1) (packed hi.1) _
  · rename_i d p _
    have hlea : ∀ off, Blocked env C (do
        let d ← operand d
        emit (.lea d (← operand p) off)) := fun off =>
      access_blocked (fun _ _ => rfl) (target hi.1) (operand_blocked (packed hi.2.2.1))
    refine .laneOf fun l => ?_
    split
    · exact .bind (packedOffset_blocked _) fun _ => hlea _
    · exact hlea _
  · exact .refuse _
  · exact .refuse _
  · obtain ⟨hD, hins, houts, -⟩ := hi
    refine call_blocked (hs.scalar _ hD) (hs.packed _ hD) (fun g hg => ?_)
      (fun o ho => packed (ne_absent_of_forall₂ hins o ho))
      fun o ho => packed (ne_absent_of_forall₂ houts o ho)
    rw [hs.params_length _ hD g hg, hins.length_eq]
  · cases hframe
  · cases hframe

/-- Code is packed without a fault. -/
lemma code_blocked (hslots : env.lanes.FindsSlots env.toPackEnv) (hs : env.Serves C D)
    (ps rs : List Operand) : ∀ {is : List Instr},
    (∀ i ∈ is, i.WellTyped D ∧ i.isOfFrame = false) → Blocked env C (code ps rs is)
  | [], _ => .pure _
  | i :: is, h => by
    obtain ⟨hi, his⟩ := List.forall_mem_cons.1 h
    exact .bind (instr_blocked hslots hs ps rs hi.1 hi.2) fun _ =>
      code_blocked hslots hs ps rs his

end Blocked

/-! ## Functions -/

section Functions

variable {env : PackEnv} {d : DeclLanes} {f g : Function} {l : Lowering.Layouts}
  {C D : FuncDecl → Prop}

/-- **Functions that can be packed**: their code is regular, tidy and well typed, and holds no
instructions of a frame. -/
structure IsPackable (D : FuncDecl → Prop) (l : Lowering.Layouts) (f : Function) : Prop where
  regular : f.Regular l
  tidy : IsTidy f.instrs
  typed : f.WellTyped D
  instrs : ∀ i ∈ f.instrs, i.WellTyped D ∧ i.isOfFrame = false

/-- What is made of a function that can be packed. -/
lemma buildOf_blocked (hf : IsPackable D l f) (hs : env.Serves C D) (d : DeclLanes) :
    Blocked ⟨env, Lanes.ofFunction env d f⟩ C (buildOf f) := by
  have hslots := Lanes.findsSlots_ofFunction env d hf.regular fun i h => (hf.instrs i h).1
  have hbound : ∀ {os : List Operand} {ts : List VType}, List.Forall₂ Operand.HasType os ts →
      Blocked ⟨env, Lanes.ofFunction env d f⟩ C (operands os) := fun h =>
    operands_blocked fun o ho => ⟨ne_absent_of_forall₂ h o ho, hslots⟩
  exact .bind (hbound hf.typed.params_typed) fun _ => .bind (hbound hf.typed.results_typed) fun _ =>
    .bind (code_blocked hslots hs _ _ hf.instrs) fun _ => .pure _

/-- **Well-typed functions are packed**, or an obstacle is found. -/
theorem packFunction_ne_fault (hf : IsPackable D l f) (hs : env.Serves C D) (x : Fault) :
    packFunction env d f ≠ .error (.fault x) := by
  have hne := (buildOf_blocked hf hs d).ne_fault {}
  rw [packFunction_eq hf.tidy]
  revert hne
  cases ((buildOf f).run ⟨env, Lanes.ofFunction env d f⟩).run {} with
  | error y => exact fun hne h => hne x (congrArg _ (Except.error.inj h))
  | ok r => exact fun _ h => by cases h

/-- **What packed functions call**: packed versions, and functions that have none. -/
theorem callees_packFunction (hf : IsPackable D l f) (hs : env.Serves C D)
    (hg : packFunction env d f = .ok g) : ∀ c ∈ callees g.body, C c := by
  rw [packFunction_eq hf.tidy] at hg
  cases hrun : ((buildOf f).run ⟨env, Lanes.ofFunction env d f⟩).run {} with
  | error x =>
    rw [hrun] at hg
    cases hg
  | ok r =>
    rw [hrun] at hg
    obtain rfl := Except.ok.inj hg
    show ∀ c ∈ callees (Function.frame r.2.code), C c
    rw [Lowering.callees_frame]
    exact (buildOf_blocked hf hs d).calls {} r.1 r.2 hrun (List.forall_mem_nil _)

end Functions

/-- Packing functions ends with a fault only if packing one of them does. -/
lemma fault_packFunctions {env : PackEnv} : ∀ {ts : List Task} {r : PackedFunctions},
    (∀ t ∈ ts, ∃ d, env.packed? t.scalar.decl = some d ∧
      ∀ x, packFunction env d t.scalar ≠ .error (.fault x)) →
    (packFunctions env ts r).fault = r.fault
  | [], _, _ => rfl
  | t :: ts, r, h => by
    obtain ⟨⟨d, hd, ht⟩, hts⟩ := List.forall_mem_cons.1 h
    unfold packFunctions
    rw [hd]
    dsimp only
    split
    · exact fault_packFunctions hts
    · exact fault_packFunctions hts
    · exact absurd ‹_› (ht _)

end Lane.Packing

namespace Lane.Elaborated.Typed

open Code Lowering Packing

variable {name : String} {e : Elaborated} {width : Int} {ds : Diagnostics} {p : LoweredProgram}
  {l : PackedLayouts} {t : Task}

/-- The packed declaration of a task is found. -/
lemma packed?_of_mem (h : e.Typed) (hp : (e.lower name width ds).2 = .ok p)
    (ht : t ∈ tasks e p l) :
    (packEnvOf e p l).packed? t.scalar.decl = some (t.decl l p.width) := by
  cases hd : (packEnvOf e p l).packed? t.scalar.decl with
  | none =>
    have hnot := List.lookup_eq_none_iff.1 hd (t.scalar.decl.id, t.decl l p.width)
      (List.mem_map.2 ⟨t, ht, rfl⟩)
    simp at hnot
  | some d => exact congrArg some (h.decl_of_packed? hp (isOk_of_mem_tasks hp ht) ht hd)

/-- **The functions to pack** can be packed. -/
lemma isPackable_of_mem (h : e.Typed) (hp : (e.lower name width ds).2 = .ok p)
    (ht : t ∈ tasks e p l) :
    IsPackable (· ∈ (declaredOf e).registry.decls) p.layouts t.scalar := by
  have hok := isOk_of_mem_tasks hp ht
  obtain ⟨n, hn⟩ := h.isTask_of_mem hp hok ht
  have hcode : IsCodeOf e p.layouts p.width t.fn t.scalar := ⟨n, hn.function_eq⟩
  have hdeclares : e.program.Declares t.fn :=
    mem_memberFuncs.1 (List.mem_of_getElem? hn.getElem?_eq)
  obtain ⟨hl, hlayouts, -⟩ := h.of_lower_isOk hp hok
  have htyped := (hcode.spec h (hlayouts ▸ h.complete hl) hdeclares hn.clean).1.2
    fun hgen => absurd hgen (by simp [hn.not_generated])
  obtain ⟨q, b, hrun, hfn⟩ := of_function_eq_ok hn.function_eq
  have hbody : t.scalar.body = Function.frame b.code := congrArg Function.body hfn
  refine ⟨regular_of_function hn.function_eq, (h.isTidy_of_mem_tasks hp ht).1, htyped,
    fun i hi => ?_⟩
  have hi := (Function.instrs_isPrefix hbody).subset hi
  refine ⟨htyped.body_typed i ?_, (confined_of_build hrun).2 i hi⟩
  rw [hbody]
  exact List.mem_append_left _ (List.mem_append_right _ hi)

/-- **What packing relies on in calls** is there: packed versions are declared for the tasks. -/
lemma packEnvOf_serves (h : e.Typed) (hforeign : ∀ f ∈ e.program.foreigns, IsPlain f.name)
    (hp : (e.lower name width ds).2 = .ok p) (l : PackedLayouts) :
    (packEnvOf e p l).Serves (fun c => c ∈ (declaredOf e).registry.decls ∨
      ∃ t ∈ tasks e p l, c = (t.decl l p.width).decl) (· ∈ (declaredOf e).registry.decls) where
  params_length c hc g hg := by
    obtain ⟨t, ht, hid, rfl⟩ := exists_of_packed? hg
    obtain ⟨n, hn⟩ := h.isTask_of_mem hp (isOk_of_mem_tasks hp ht) ht
    rw [hn.decl_eq] at hid
    obtain rfl := eq_memberDecl hforeign hn.getElem?_eq hc hid.symm
    rw [Task.decl, hn.decl_eq]
    exact (declLanes_widens l p.width t.fn n).params_split.length_eq.symm
  packed c _ g hg := by
    obtain ⟨t, ht, -, rfl⟩ := exists_of_packed? hg
    exact .inr ⟨t, ht, rfl⟩
  scalar c hc _ := .inl hc

/-- **Typed programs are packed** without a fault. -/
lemma exists_packed (h : e.Typed) (hn : ∀ f ∈ e.program.foreigns, IsPlain f.name)
    (hp : (e.lower name width ds).2 = .ok p) (ds' : Diagnostics) :
    ∃ q, (p.pack e ds').2 = .ok q := by
  obtain ⟨registry, structs, heq⟩ := h.pack_eq hn hp ds' rfl rfl
  rw [heq]
  dsimp only
  rw [fault_packFunctions fun t ht => ⟨_, h.packed?_of_mem hp ht,
    packFunction_ne_fault (h.isPackable_of_mem hp ht) (h.packEnvOf_serves hn hp _)⟩]
  exact ⟨_, rfl⟩

end Lane.Elaborated.Typed

namespace Lane.Accepted

open Lowering

variable {file name : String} {text : List Rune} {e : Elaborated} {width : Int} {ds : Diagnostics}
  {p : LoweredProgram}

/-- Accepted programs are packed without a fault. -/
lemma exists_pack (h : Accepted file text e) (hp : (e.lower name width ds).2 = .ok p)
    (ds' : Diagnostics) : ∃ q, (p.pack e ds').2 = .ok q :=
  h.typed.exists_packed h.isPlain_foreign hp ds'

/-- **Which accepted programs are lowered and packed**: those whose assignments are ready, and those
that are refused because a class has no layout. What is lowered is packed without a fault. -/
theorem lower_ok_iff (h : Accepted file text e) :
    ((∃ p, (e.lower name width ds).2 = .ok p) ↔ (isLaidOut e ds → IsReady e)) ∧
    ∀ p, (e.lower name width ds).2 = .ok p → ∀ ds', ∃ q, (p.pack e ds').2 = .ok q :=
  ⟨h.typed.exists_lower_iff h.declare_eq, fun _ hp => h.exists_pack hp⟩

/-- A `simd` function that swaps a number and a member. -/
def swapping : String :=
  "simd class V { var x: int; simd writer f(a: ref int) { self.x, a = a, self.x; } }"

/-- A program whose assignments are ready. -/
theorem lower_ok_assignments : ∃ e, accept? "" (Rune.ascii swapping) = some e ∧
    ((∃ p, (e.lower "" 0 {}).2 = .ok p) ↔ (isLaidOut e {} → IsReady e)) ∧
    ∀ p, (e.lower "" 0 {}).2 = .ok p → ∀ ds', ∃ q, (p.pack e ds').2 = .ok q := by
  obtain ⟨e, he⟩ := Option.isSome_iff_exists.1 (show (accept? "" (Rune.ascii swapping)).isSome by
    rw [swapping, Rune.ascii_ofList]
    decide +kernel)
  exact ⟨e, he, (of_accept? he).lower_ok_iff⟩

/-- A number that is bound to a parameter that is `ref`. -/
def numberForRef : String :=
  "class V { create(x: ref int) { } routine f() { var v: V = 1; } }"

/-- An accepted program that is not lowered. -/
theorem lower_create_of_number : ∃ e, Accepted "" (Rune.ascii numberForRef) e ∧
    ∃ x, (e.lower "" 0 {}).2 = .error x := by
  have hrun : (accept? "" (Rune.ascii numberForRef)).any fun e => !(e.lower "" 0 {}).2.isOk := by
    rw [numberForRef, Rune.ascii_ofList]
    decide +kernel
  obtain ⟨e, he, hfail⟩ := (Option.any_eq_true ..).1 hrun
  refine ⟨e, of_accept? he, ?_⟩
  revert hfail
  cases (e.lower "" 0 {}).2 with
  | error x => exact fun _ => ⟨x, rfl⟩
  | ok =>
    intro hfail
    cases hfail

end Lane.Accepted
