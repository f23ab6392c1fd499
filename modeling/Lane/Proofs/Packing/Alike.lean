import Lane.Proofs.Packing.Program
import Lane.Proofs.Packing.Confined
import Lane.Proofs.Packing.Widths

set_option relaxedAutoImplicit false
set_option autoImplicit false

/-!
# Packing alike functions

Whether a function has a packed version depends neither on the identifiers of the functions that it
calls nor, with two lanes or more, on the width, and neither do the words of its instructions: lanes
spread in the same way, and two runs of packing take the same steps, on operands that are vectors in
both or in none.

## Main definitions

* `Lane.Code.Instr.form`: the word of an instruction, with the computation of an assignment.
* `Lane.Packing.InStep`: computations that take the same steps.

## Main results

* `Lane.Packing.Lanes.ofFunction_alike`: the lanes of operands.
* `Lane.Packing.instr_agree`: the packed code of an instruction.
* `Lane.Packing.packFunction_alike`: packed versions of functions.
-/

namespace Lane.Code

/-- **The form of an instruction**: its word, and the computation of an assignment. -/
def Instr.form (i : Instr) : String × Option AssignKind :=
  (i.name, match i with
    | .assign kind _ _ => some kind
    | _ => none)

/-- The forms of the instructions of a body. -/
def Function.forms (f : Function) : List (String × Option AssignKind) := f.body.map Instr.form

/-- Alike operands are the same, or constants of the same type. -/
def Operand.Alike (o o' : Operand) : Prop :=
  o = o' ∨ ∃ c c', c.type = c'.type ∧ o = .const c ∧ o' = .const c'

/-- An operand is like itself. -/
lemma Operand.Alike.refl (o : Operand) : o.Alike o := .inl rfl

end Lane.Code

namespace Lane.Packing

open Lane.Code

/-! ## What packing relies on -/

/-- Packed declarations of corresponding functions: the lanes are the same. -/
structure DeclLanes.Alike (C : FuncDecl → FuncDecl → Prop) (W W' : Nat) (d d' : DeclLanes) :
    Prop where
  params_eq : d.params = d'.params
  results_eq : d.results = d'.results
  id : ∃ c c' : FuncDecl, C c c' ∧ d.decl.id = packedId W c ∧ d'.decl.id = packedId W' c'

/-- **Packing alike functions** relies on members of the same form, on structs that are both packed
or both not, on alike packed declarations of the functions that correspond, and on two lanes at
least or one in both. -/
structure PackEnv.Alike (C : FuncDecl → FuncDecl → Prop) (env env' : PackEnv) : Prop where
  offset? : ∀ o, Option.Rel (fun r r' => r.2.Alike r'.2) (env.layouts.offset? o)
    (env'.layouts.offset? o)
  isSome_byName : ∀ name,
    (env.layouts.byName.lookup name).isSome = (env'.layouts.byName.lookup name).isSome
  packed? : ∀ {d d'}, C d d' →
    Option.Rel (DeclLanes.Alike C env.width env'.width) (env.packed? d) (env'.packed? d')
  isWide_iff : 1 < env.width ↔ 1 < env'.width

variable {C : FuncDecl → FuncDecl → Prop}

namespace Lanes

variable {env env' : PackEnv} {m : Lanes} {i i' : Instr} {code code' : List Instr}

/-- Constants are shared by all instances. -/
def SharesConsts (m : Lanes) : Prop := ∀ c, m.get (.const c) = .uniform

/-- Alike operands have the same lanes. -/
lemma SharesConsts.get_eq (h : m.SharesConsts) {o o' : Operand} (ho : o.Alike o') :
    m.get o = m.get o' := by
  obtain rfl | ⟨c, c', -, rfl, rfl⟩ := ho
  · rfl
  · rw [h, h]

/-- Setting the lanes of what is no constant keeps those of constants. -/
lemma SharesConsts.set (h : m.SharesConsts) {o : Operand} (ho : ∀ c, o ≠ .const c) (l : LaneKind) :
    (m.set o l).SharesConsts := by
  intro c
  rw [get_set, if_neg fun he => ho c he.symm]
  exact h c

/-- What rises is no constant. -/
lemma SharesConsts.raiseAll (h : m.SharesConsts) (ps : List (Operand × LaneKind)) :
    (m.raiseAll ps).SharesConsts :=
  (raiseAll_induction (P := SharesConsts) (fun p _ m' _ hm' hp => hm'.set (fun c hc => by
    have hcan := hp.1
    rw [hc] at hcan
    cases hcan) p.2) (.refl m) h).2

/-- The lanes of a loaded value are the same for operands that are alike. -/
lemma loaded_alike (h : env.Alike C env') (m : Lanes) (p : Operand) (o : Option Offset) :
    loaded env m p o = loaded env' m p o := by
  unfold loaded
  obtain ⟨hx, hx'⟩ | ⟨x, x', hx, hx', hlast⟩ := of_rel (h.offset? o)
  · rw [hx, hx']
  · simp only [hx, hx', hlast.isVector_eq]

/-- Alike instructions raise the same operands. -/
lemma raised_alike (h : env.Alike C env') (hm : m.SharesConsts) (hi : i.Alike C i') :
    m.raised env i = m.raised env' i' := by
  cases hi with
  | same hc =>
    cases i with
    | load d p o => rw [raised, raised, loaded_alike h]
    | call => cases hc
    | store p o a => cases p <;> cases o <;> rfl
    | _ => rfl
  | @const kind r n c c' _ =>
    have hcomputed : m.computed kind [n, .const c] = m.computed kind [n, .const c'] := by
      unfold computed
      simp [hm c, hm c']
    rw [raised, raised, hcomputed]
  | call hd =>
    unfold raised
    obtain ⟨hx, hx'⟩ | ⟨d, d', hx, hx', hd⟩ := of_rel (h.packed? hd)
    · simp only [hx, hx']
    · simp only [hx, hx', hd.results_eq]

/-- **Sweeps give the same lanes**. -/
lemma sweep_alike (h : env.Alike C env') (hcode : List.Forall₂ (Instr.Alike C) code code') :
    ∀ {m : Lanes}, m.SharesConsts →
      m.sweep env code = m.sweep env' code' ∧ (m.sweep env code).SharesConsts := by
  induction hcode with
  | nil => exact fun hm => ⟨rfl, hm⟩
  | @cons i i' code code' hi _ ih =>
    intro m hm
    have hstep : m.step env i = m.step env' i' := congrArg m.raiseAll (raised_alike h hm hi)
    obtain ⟨heq, hshares⟩ := ih (m := m.step env i) (hm.raiseAll _)
    exact ⟨heq.trans (congrArg (sweep env' code') hstep), hshares⟩

/-- The lanes settle alike for code that is alike. -/
lemma settleIn_alike (h : env.Alike C env') (hcode : List.Forall₂ (Instr.Alike C) code code') :
    ∀ (fuel : Nat) {m : Lanes}, m.SharesConsts →
      settleIn env code fuel m = settleIn env' code' fuel m ∧
        (settleIn env code fuel m).SharesConsts
  | 0, _, hm => ⟨rfl, hm⟩
  | fuel + 1, m, hm => by
    obtain ⟨heq, hshares⟩ := sweep_alike h hcode hm
    unfold settleIn
    rw [← heq]
    dsimp only
    split
    · exact ⟨rfl, hm⟩
    · exact settleIn_alike h hcode fuel hshares

/-- The lanes that an instruction may raise are those of any instruction like it. -/
lemma raisable_alike (hi : i.Alike C i') : raisable i = raisable i' := by
  cases hi <;> rfl

/-- **Lanes settle alike**. -/
lemma settle_alike (h : env.Alike C env') (hcode : List.Forall₂ (Instr.Alike C) code code')
    (hm : m.SharesConsts) :
    m.settle env code = m.settle env' code' ∧ (m.settle env code).SharesConsts := by
  have hfuel : code.foldr (fun i n => raisable i + n) 0 =
      code'.foldr (fun i n => raisable i + n) 0 := by
    induction hcode with
    | nil => rfl
    | cons hi _ ih => rw [List.foldr_cons, List.foldr_cons, raisable_alike hi, ih]
  unfold settle
  rw [← hfuel]
  exact settleIn_alike h hcode _ hm

/-- Setting the lanes of several operands that are no constants keeps those of constants. -/
lemma SharesConsts.foldl_set : ∀ (os : List (Operand × LaneKind)) {m : Lanes}, m.SharesConsts →
    (∀ p ∈ os, ∀ c, p.1 ≠ .const c) →
    (os.foldl (fun m (o, l) => m.set o l) m).SharesConsts
  | [], _, hm, _ => hm
  | p :: os, m, hm, hos => by
    obtain ⟨hp, hos⟩ := List.forall_mem_cons.1 hos
    exact foldl_set os (hm.set hp p.2) hos

/-- **The lanes of alike functions** are the same. -/
theorem ofFunction_alike (h : env.Alike C env') {d d' : DeclLanes}
    (hd : d.Alike C env.width env'.width d') {f f' : Function}
    (hf : f.Alike C f') (hps : ∀ o ∈ f.params ++ f.results, ∀ c, o ≠ .const c) :
    ofFunction env d f = ofFunction env' d' f' ∧ (ofFunction env d f).SharesConsts := by
  have hpacked : ∀ s : Slot, (s.struct.bind fun name => env.layouts.byName.lookup name).isSome =
      (s.struct.bind fun name => env'.layouts.byName.lookup name).isSome := by
    intro s
    cases s.struct with
    | none => rfl
    | some name => exact h.isSome_byName name
  have hstart : start env d f = start env' d' f' := by
    unfold start
    simp only [hf.params_eq, hf.results_eq, hf.slots_eq, hd.params_eq, hd.results_eq, hpacked]
  have hshares : (start env d f).SharesConsts := by
    have hbound := SharesConsts.foldl_set (f.params.zip d.params ++ f.results.zip d.results)
      (m := {}) (fun _ => rfl) fun p hp => hps p.1 <| by
        obtain hp | hp := List.mem_append.1 hp
        · exact List.mem_append_left _ (List.of_mem_zip hp).1
        · exact List.mem_append_right _ (List.of_mem_zip hp).1
    have hslots := SharesConsts.foldl_set
      ((f.slots.filter fun s => (s.struct.bind fun name =>
        env.layouts.byName.lookup name).isSome).map fun s => (.slot s, .packed)) hbound (by
        intro p hp c hc
        obtain ⟨s, -, rfl⟩ := List.mem_map.1 hp
        cases hc)
    rwa [List.foldl_map] at hslots
  unfold ofFunction
  rw [← hstart]
  exact settle_alike h hf.instrs hshares

end Lanes

/-! ## Packing two functions -/

/-- What packing two functions relies on. -/
structure WidenEnv.Alike (C : FuncDecl → FuncDecl → Prop) (env env' : WidenEnv) : Prop extends
    PackEnv.Alike C env.toPackEnv env'.toPackEnv where
  lanes_eq : env.lanes = env'.lanes
  shares : env.lanes.SharesConsts

/-- Operands that are vectors in both runs, or in none. -/
def SameForm (n n' : Operand) : Prop := n.type.isVector = n'.type.isVector

/-- **Alike states**: the code has the same forms, and counterparts of operands are vectors in both
runs or in none. Constants are their own counterparts, and may not be the same in both runs. -/
structure WidenState.Alike (σ σ' : WidenState) : Prop where
  code : σ.code.map Instr.form = σ'.code.map Instr.form
  operands : ∀ o, (∀ c, o ≠ .const c) →
    Option.Rel SameForm (σ.operands.lookup o) (σ'.operands.lookup o)
  const : ∀ c n, σ.operands.lookup (.const c) = some n → n = .const c
  const' : ∀ c n, σ'.operands.lookup (.const c) = some n → n = .const c

/-- Nothing is like nothing. -/
lemma WidenState.Alike.empty : WidenState.Alike {} {} :=
  ⟨rfl, fun _ _ => .none, by simp, by simp⟩

/-- Whether packing stopped at an obstacle. -/
def Stop.isObstacle : Stop → Bool
  | .obstacle _ => true
  | .fault _ => false

/-- Two runs that end in the same way: with related results, at obstacles, or with faults. -/
inductive SameEnd {α β : Type} (R : α → β → Prop) : Except Stop α → Except Stop β → Prop
  | ok {a : α} {b : β} : R a b → SameEnd R (.ok a) (.ok b)
  | error {x x' : Stop} : x.isObstacle = x'.isObstacle → SameEnd R (.error x) (.error x')

/-- **Computations that take the same steps** from alike states. -/
def InStep {α β : Type} (env env' : WidenEnv) (m : Widen α) (m' : Widen β) (R : α → β → Prop) :
    Prop :=
  ∀ σ σ', σ.Alike σ' → SameEnd (fun r r' => r.2.Alike r'.2 ∧ R r.1 r'.1)
    ((m.run env).run σ) ((m'.run env').run σ')

section InStep

variable {α β γ δ : Type} {env env' : WidenEnv} {m : Widen α} {m' : Widen β} {f : α → Widen γ}
  {f' : β → Widen δ} {R R' : α → β → Prop} {S : γ → δ → Prop}

/-- Related results without effects. -/
lemma InStep.pure {a : α} {b : β} (h : R a b) : InStep env env' (pure a) (pure b) R :=
  fun _ _ hσ => .ok ⟨hσ, h⟩

/-- Computations in sequence stay in step. -/
lemma InStep.bind (hm : InStep env env' m m' R)
    (hf : ∀ a b, R a b → InStep env env' (f a) (f' b) S) :
    InStep env env' (m >>= f) (m' >>= f') S := by
  intro σ σ' hσ
  have h := hm σ σ' hσ
  rw [ReaderT.run_bind, ReaderT.run_bind, StateT.run_bind, StateT.run_bind]
  revert h
  generalize (m.run env).run σ = r, (m'.run env').run σ' = r'
  rintro (⟨hσ, hR⟩ | hx)
  · exact hf _ _ hR _ _ hσ
  · exact .error hx

/-- Both are refused. -/
lemma InStep.refuse (x x' : Obstacle) :
    InStep env env' (refuse x : Widen α) (refuse x' : Widen β) R := fun _ _ _ => .error rfl

/-- Both are refused before they go on. -/
lemma InStep.refused {x x' : Obstacle} :
    InStep env env' ((Packing.refuse x : Widen α) >>= f) ((Packing.refuse x' : Widen β) >>= f') S :=
  fun _ _ _ => .error rfl

/-- Both fail with a fault. -/
lemma InStep.fault (x x' : Fault) :
    InStep env env' (throw (.fault x) : Widen α) (throw (.fault x') : Widen β) R :=
  fun _ _ _ => .error rfl

/-- The environments are read. -/
lemma InStep.read {g : WidenEnv → Widen α} {g' : WidenEnv → Widen β}
    (h : InStep env env' (g env) (g' env') R) : InStep env env' (read >>= g) (read >>= g') R := h

/-- A weaker relation of the results. -/
lemma InStep.weaken (hm : InStep env env' m m' R) (h : ∀ a b, R a b → R' a b) :
    InStep env env' m m' R' := by
  intro σ σ' hσ
  have hrun := hm σ σ' hσ
  revert hrun
  generalize (m.run env).run σ = r, (m'.run env').run σ' = r'
  rintro (⟨hσ, hR⟩ | hx)
  · exact .ok ⟨hσ, h _ _ hR⟩
  · exact .error hx

/-- A change of the state that keeps code and the counterparts of operands. -/
lemma InStep.modifyGet {g : WidenState → α × WidenState} {g' : WidenState → β × WidenState}
    (hg : ∀ σ, (g σ).2.code = σ.code ∧ (g σ).2.operands = σ.operands)
    (hg' : ∀ σ, (g' σ).2.code = σ.code ∧ (g' σ).2.operands = σ.operands)
    (hR : ∀ σ σ', R (g σ).1 (g' σ').1) : InStep env env' (modifyGet g) (modifyGet g') R := by
  intro σ σ' hσ
  refine .ok ⟨⟨?_, fun o ho => ?_, fun c n hn => ?_, fun c n hn => ?_⟩, hR σ σ'⟩
  · show (g σ).2.code.map _ = (g' σ').2.code.map _
    rw [(hg σ).1, (hg' σ').1]
    exact hσ.code
  · show Option.Rel _ ((g σ).2.operands.lookup o) ((g' σ').2.operands.lookup o)
    rw [(hg σ).2, (hg' σ').2]
    exact hσ.operands o ho
  · exact hσ.const c n ((hg σ).2 ▸ hn)
  · exact hσ.const' c n ((hg' σ').2 ▸ hn)

/-- Instructions of the same form are emitted. -/
lemma InStep.emit {i i' : Instr} (h : i.form = i'.form) :
    InStep env env' (emit i) (emit i') fun _ _ => True :=
  fun _ _ hσ => .ok ⟨⟨by simp [hσ.code, h], hσ.operands, hσ.const, hσ.const'⟩, trivial⟩

/-- Registers of the same form are made. -/
lemma InStep.newReg (t t' : VType) (h : t.isVector = t'.isVector) :
    InStep env env' (newReg t) (newReg t') SameForm :=
  .modifyGet (fun _ => ⟨rfl, rfl⟩) (fun _ => ⟨rfl, rfl⟩) fun _ _ => h

/-- Registers of any types are made. -/
lemma InStep.anyReg (t t' : VType) :
    InStep env env' (Packing.newReg t) (Packing.newReg t') fun _ _ => True :=
  .modifyGet (fun _ => ⟨rfl, rfl⟩) (fun _ => ⟨rfl, rfl⟩) fun _ _ => trivial

end InStep

/-! ## Operands -/

section Operands

variable {env env' : WidenEnv} {o o' : Operand} {os os' : List Operand}

/-- Operands that are alike have the same lanes. -/
lemma WidenEnv.Alike.lanes_get (h : env.Alike C env') (ho : o.Alike o') :
    env.lanes.get o = env'.lanes.get o' :=
  h.lanes_eq ▸ h.shares.get_eq ho

/-- Types are vectors at both widths or at neither. -/
lemma WidenEnv.Alike.vector (h : env.Alike C env') (t t' : VType) :
    (t.vector env.width).isVector = (t'.vector env'.width).isVector := by
  simp [VType.isVector, VType.vector, h.isWide_iff]

/-- The types of counterparts. -/
lemma WidenEnv.Alike.type (h : env.Alike C env') (l : LaneKind) (t : VType) :
    (l.type env.width t).isVector = (l.type env'.width t).isVector := by
  unfold LaneKind.type
  split
  · exact h.vector t t
  · rfl

/-- Operands that are alike are found with the same lanes. -/
lemma laneOf_agree (h : env.Alike C env') (ho : o.Alike o') :
    InStep env env' (laneOf o) (laneOf o') fun l l' => l = l' :=
  .read (.pure (h.lanes_get ho))

/-- Slots are made in step. -/
lemma newSlot_agree {name : String} {size size' align align' : Int64} {s s' : Option String} :
    InStep env env' (newSlot name size align s) (newSlot name size' align' s') SameForm :=
  .modifyGet (fun _ => ⟨rfl, rfl⟩) (fun _ => ⟨rfl, rfl⟩) fun _ _ => rfl

/-- A slot is packed in step. -/
lemma packSlot_agree (h : env.Alike C env') (x : Slot) :
    InStep env env' (packSlot x) (packSlot x) SameForm := by
  refine .read ?_
  rw [← h.lanes_get (.refl (.slot x))]
  split
  · split
    · rename_i name _
      have hsome := h.isSome_byName name
      cases hx : env.layouts.byName.lookup name <;> cases hx' : env'.layouts.byName.lookup name <;>
        rw [hx, hx'] at hsome
      · exact .fault _ _
      · cases hsome
      · cases hsome
      · exact newSlot_agree
    · exact newSlot_agree
  · exact newSlot_agree

/-- Operands that are alike are packed in step. -/
lemma packOperand_agree (h : env.Alike C env') (ho : o.Alike o') :
    InStep env env' (packOperand o) (packOperand o') SameForm := by
  obtain rfl | ⟨c, c', ht, rfl, rfl⟩ := ho
  · refine .read ?_
    dsimp only
    cases o with
    | const c => exact .pure rfl
    | reg r => exact .newReg _ _ (h.lanes_get (.refl _) ▸ h.type _ _)
    | var v =>
      refine .modifyGet (fun _ => ⟨rfl, rfl⟩) (fun _ => ⟨rfl, rfl⟩) fun _ _ => ?_
      exact h.lanes_get (.refl _) ▸ h.type _ _
    | slot s => exact packSlot_agree h s
    | absent => exact .fault _ _
  · exact .read (.pure (congrArg VType.isVector ht))

/-- A counterpart is looked up, and made if there is none. -/
lemma operand_run (env : WidenEnv) (σ : WidenState) (o : Operand) : ((operand o).run env).run σ =
    ((match σ.operands.lookup o with
      | some n => pure n
      | none => packOperand o >>= fun n => do
        modify fun s => { s with operands := (o, n) :: s.operands }
        return n : Widen Operand).run env).run σ :=
  rfl

/-- A constant is its own counterpart. -/
lemma operand_const (env : WidenEnv) {σ : WidenState} (c : Const)
    (hσ : ∀ c n, σ.operands.lookup (.const c) = some n → n = .const c) :
    ∃ τ, ((operand (.const c)).run env).run σ = .ok (.const c, τ) ∧ τ.code = σ.code ∧
      (∀ o, (∀ c, o ≠ .const c) → τ.operands.lookup o = σ.operands.lookup o) ∧
      ∀ c n, τ.operands.lookup (.const c) = some n → n = .const c := by
  cases hc : σ.operands.lookup (.const c) with
  | some n =>
    obtain rfl := hσ c n hc
    refine ⟨σ, ?_, rfl, fun _ _ => rfl, hσ⟩
    rw [operand_run, hc]
    rfl
  | none =>
    refine ⟨{ σ with operands := (.const c, .const c) :: σ.operands }, ?_, rfl, fun o ho => ?_,
      fun c' n hn => ?_⟩
    · rw [operand_run, hc]
      rfl
    · rw [List.lookup_cons, beq_eq_false_iff_ne.2 (ho c)]
    · obtain ⟨heq, rfl⟩ | ⟨-, hn⟩ := lookup_cons_iff.1 hn
      · exact heq.symm
      · exact hσ c' n hn

/-- A counterpart is remembered in both runs. -/
lemma remember_agree {n n' : Operand} (ho : ∀ c, o ≠ .const c) (hn : SameForm n n') :
    InStep env env' (do
      modify fun s => { s with operands := (o, n) :: s.operands }
      return n) (do
      modify fun s => { s with operands := (o, n') :: s.operands }
      return n') SameForm := by
  intro σ σ' hσ
  refine .ok ⟨⟨hσ.code, fun x hx => ?_, fun c m hm => ?_, fun c m hm => ?_⟩, hn⟩
  · show Option.Rel _ (List.lookup x ((o, n) :: σ.operands))
      (List.lookup x ((o, n') :: σ'.operands))
    rw [List.lookup_cons, List.lookup_cons]
    split
    · exact .some hn
    · exact hσ.operands x hx
  · obtain ⟨heq, -⟩ | ⟨-, hm⟩ := lookup_cons_iff.1 hm
    · exact absurd heq.symm (ho c)
    · exact hσ.const c m hm
  · obtain ⟨heq, -⟩ | ⟨-, hm⟩ := lookup_cons_iff.1 hm
    · exact absurd heq.symm (ho c)
    · exact hσ.const' c m hm

/-- **Counterparts of operands** are made at the same time. -/
lemma operand_agree (h : env.Alike C env') (ho : o.Alike o') :
    InStep env env' (operand o) (operand o') SameForm := by
  intro σ σ' hσ
  have hconst : ∀ c c' : Const, c.type = c'.type →
      SameEnd (fun r r' => r.2.Alike r'.2 ∧ SameForm r.1 r'.1)
        (((operand (.const c)).run env).run σ) (((operand (.const c')).run env').run σ') := by
    intro c c' ht
    obtain ⟨τ, hrun, hcode, hops, hcs⟩ := operand_const env c hσ.const
    obtain ⟨τ', hrun', hcode', hops', hcs'⟩ := operand_const env' c' hσ.const'
    rw [hrun, hrun']
    refine .ok ⟨⟨?_, fun o ho => ?_, hcs, hcs'⟩, congrArg VType.isVector ht⟩
    · rw [hcode, hcode']
      exact hσ.code
    · rw [hops o ho, hops' o ho]
      exact hσ.operands o ho
  obtain rfl | ⟨c, c', ht, rfl, rfl⟩ := ho
  · by_cases hc : ∃ c, o = .const c
    · obtain ⟨c, rfl⟩ := hc
      exact hconst c c rfl
    · have ho : ∀ c, o ≠ .const c := fun c heq => hc ⟨c, heq⟩
      rw [operand_run, operand_run]
      obtain ⟨hx, hx'⟩ | ⟨n, n', hx, hx', hn⟩ := of_rel (hσ.operands o ho)
      · rw [hx, hx']
        exact (packOperand_agree h (.refl o)).bind (fun n n' => remember_agree ho) σ σ' hσ
      · rw [hx, hx']
        exact .ok ⟨hσ, hn⟩
  · exact hconst c c' ht

/-- Lists of operands are packed in step. -/
lemma operands_agree (h : env.Alike C env') : ∀ {os os' : List Operand},
    List.Forall₂ Operand.Alike os os' →
      InStep env env' (operands os) (operands os') fun _ _ => True
  | _, _, .nil => .pure trivial
  | _, _, .cons ho hos => .bind (operand_agree h ho) fun _ _ _ =>
    .bind (operands_agree h hos) fun _ _ _ => .pure trivial

/-- Values are spread over vectors in both runs, or in none. -/
lemma vector_agree (h : env.Alike C env') (ho : o.Alike o') :
    InStep env env' (vector o) (vector o') fun _ _ => True := by
  refine .bind (operand_agree h ho) fun n n' hn => ?_
  rw [← show n.type.isVector = n'.type.isVector from hn]
  split
  · exact .pure trivial
  · exact .read (.bind (.newReg _ _ (h.vector _ _)) fun _ _ _ =>
      .bind (.emit rfl) fun _ _ _ => .pure trivial)

/-- Lists of vectors are made in step. -/
lemma vectors_agree (h : env.Alike C env') : ∀ {os os' : List Operand},
    List.Forall₂ Operand.Alike os os' →
      InStep env env' (vectors os) (vectors os') fun _ _ => True
  | _, _, .nil => .pure trivial
  | _, _, .cons ho hos => .bind (vector_agree h ho) fun _ _ _ =>
    .bind (vectors_agree h hos) fun _ _ _ => .pure trivial

/-- The counterpart of a label is looked up, and made if there is none. -/
lemma label_run (env : WidenEnv) (σ : WidenState) (l : Label) : ((label l).run env).run σ =
    ((match σ.labels.lookup l with
      | some n => pure n
      | none => modifyGet fun s =>
        let n : Label := ⟨s.labelCount + 1, l.hint⟩
        (n, { s with labelCount := s.labelCount + 1, labels := (l, n) :: s.labels }) :
          Widen Label).run env).run σ :=
  rfl

/-- Labels always have counterparts. -/
lemma label_agree (l : Label) : InStep env env' (label l) (label l) fun _ _ => True := by
  have hrun : ∀ (env : WidenEnv) (σ : WidenState), ∃ n τ,
      ((label l).run env).run σ = .ok (n, τ) ∧ τ.code = σ.code ∧ τ.operands = σ.operands := by
    intro env σ
    rw [label_run]
    cases σ.labels.lookup l with
    | some n => exact ⟨n, σ, rfl, rfl, rfl⟩
    | none => exact ⟨_, _, rfl, rfl, rfl⟩
  intro σ σ' hσ
  obtain ⟨n, τ, hn, hcode, hops⟩ := hrun env σ
  obtain ⟨n', τ', hn', hcode', hops'⟩ := hrun env' σ'
  rw [hn, hn']
  refine .ok ⟨⟨?_, ?_, ?_, ?_⟩, trivial⟩
  · rw [hcode, hcode']
    exact hσ.code
  · rw [hops, hops']
    exact hσ.operands
  · rw [hops]
    exact hσ.const
  · rw [hops']
    exact hσ.const'

/-- An offset is packed in step. -/
lemma packedOffset_agree (h : env.Alike C env') (o : Option Offset) :
    InStep env env' (packedOffset o) (packedOffset o) fun r r' => r.2.Alike r'.2 := by
  refine .read ?_
  obtain ⟨hx, hx'⟩ | ⟨r, r', hx, hx', hr⟩ := of_rel (h.offset? o)
  · rw [hx, hx']
    exact .refuse _ _
  · rw [hx, hx']
    exact .pure hr

end Operands

/-! ## Instructions -/

section Instructions

variable {env env' : WidenEnv} {d p a : Operand}

/-- Operands are like themselves. -/
lemma forall₂_refl (os : List Operand) : List.Forall₂ Operand.Alike os os :=
  List.forall₂_same.2 fun o _ => .refl o

/-- An assignment is packed in step. -/
lemma assign_agree (h : env.Alike C env') (kind : AssignKind) (d : Operand)
    {args args' : List Operand} (hargs : List.Forall₂ Operand.Alike args args') :
    InStep env env' (assign kind d args) (assign kind d args') fun _ _ => True := by
  have hany : (args.any fun a => env.lanes.get a == .varying) =
      args'.any fun a => env'.lanes.get a == .varying := by
    induction hargs with
    | nil => rfl
    | cons ha _ ih => rw [List.any_cons, List.any_cons, h.lanes_get ha, ih]
  refine .read ?_
  dsimp only
  rw [← hany]
  split
  · exact .refused
  · refine .bind (operand_agree h (.refl d)) fun n n' hn => ?_
    rw [← show n.type.isVector = n'.type.isVector from hn]
    split
    · exact .bind (vectors_agree h hargs) fun _ _ _ => .emit rfl
    · exact .bind (operands_agree h hargs) fun _ _ _ => .emit rfl

/-- The packed code of an access that is no mask. -/
lemma load_agree (h : env.Alike C env') (d p : Operand) (o : Option Offset) :
    InStep env env' (load d p o) (load d p o) fun _ _ => True := by
  have hload : ∀ o o', InStep env env' (do
      let d ← operand d
      emit (.load d (← operand p) o)) (do
      let d ← operand d
      emit (.load d (← operand p) o')) fun _ _ => True := fun o o' =>
    .bind (operand_agree h (.refl d)) fun _ _ _ => .bind (operand_agree h (.refl p)) fun _ _ _ =>
      .emit rfl
  refine .bind (laneOf_agree h (.refl p)) fun l _ hl => ?_
  subst hl
  split
  · exact hload o o
  · refine .bind (packedOffset_agree h o) fun r r' hr => ?_
    dsimp only
    rw [← hr.isMask_eq]
    split
    · exact .bind (.anyReg _ _) fun _ _ _ => .bind (operand_agree h (.refl p)) fun _ _ _ =>
        .bind (.emit rfl) fun _ _ _ => .bind (operand_agree h (.refl d)) fun _ _ _ => .emit rfl
    · exact hload _ _

/-- A store is packed in step. -/
lemma store_agree (h : env.Alike C env') (p : Operand) (o : Option Offset) (a : Operand) :
    InStep env env' (store p o a) (store p o a) fun _ _ => True := by
  have hp := operand_agree h (.refl p)
  have ha := operand_agree h (.refl a)
  have hv := vector_agree h (.refl a)
  have hstore : ∀ (m m' : Widen Operand) (o o' : Option Offset), InStep env env' m m'
    (fun _ _ => True) →
      InStep env env' (do
        let p ← operand p
        emit (.store p o (← m))) (do
        let p ← operand p
        emit (.store p o' (← m'))) fun _ _ => True := fun m m' o o' hm =>
    .bind hp fun _ _ _ => .bind hm fun _ _ _ => .emit rfl
  have hshared := hstore _ _ o o (ha.weaken fun _ _ _ => trivial)
  refine .bind (laneOf_agree h (.refl p)) fun l _ hl => ?_
  subst hl
  split
  · refine .bind (laneOf_agree h (.refl a)) fun l _ hl => ?_
    subst hl
    split
    · exact .refused
    · exact hshared
  · split
    · exact hstore _ _ none none hv
    · refine .bind (packedOffset_agree h o) fun r r' hr => ?_
      dsimp only
      rw [← hr.isMask_eq, ← hr.isVector_eq]
      split
      · exact .bind (.anyReg _ _) fun _ _ _ => .bind hv fun _ _ _ => .bind (.emit rfl) fun _ _ _ =>
          .bind hp fun _ _ _ => .emit rfl
      · split
        · exact hstore _ _ _ _ hv
        · refine .bind (laneOf_agree h (.refl a)) fun l _ hl => ?_
          subst hl
          split
          · exact .refused
          · exact hstore _ _ _ _ (ha.weaken fun _ _ _ => trivial)

/-- Arguments are packed in step. -/
lemma packedArguments_agree (h : env.Alike C env') (callee callee' : String) {c c' : DeclLanes} :
    ∀ (place : Nat) (wants : List LaneKind) (os : List Operand),
      InStep env env' (packedArguments callee c place wants os)
        (packedArguments callee' c' place wants os) fun _ _ => True
  | _, _, [] => by
    unfold packedArguments
    exact .pure trivial
  | _, [], _ :: _ => .fault _ _
  | place, want :: wants, o :: os => by
    refine .bind (laneOf_agree h (.refl o)) fun l _ hl => ?_
    subst hl
    have hrest : ∀ n n' : Operand, InStep env env' (do
        return n :: (← packedArguments callee c (place + 1) wants os)) (do
        return n' :: (← packedArguments callee' c' (place + 1) wants os)) fun _ _ => True :=
      fun _ _ => .bind (packedArguments_agree h callee callee' _ wants os)
        fun _ _ _ => .pure trivial
    split
    · exact .bind (vector_agree h (.refl o)) fun _ _ _ => hrest _ _
    · split
      · exact .refused
      · exact .bind (operand_agree h (.refl o)) fun _ _ _ => hrest _ _

/-- A call is packed in step. -/
lemma call_agree (h : env.Alike C env') {f f' : FuncDecl} (hf : C f f') (ins outs : List Operand) :
    InStep env env' (call f ins outs) (call f' ins outs) fun _ _ => True := by
  have houts := operands_agree h (forall₂_refl outs)
  refine .read ?_
  dsimp only
  obtain ⟨hx, hx'⟩ | ⟨d, d', hx, hx', hd⟩ := of_rel (h.packed? hf)
  · rw [hx, hx', ← h.lanes_eq]
    dsimp only
    split
    · exact .refused
    · exact .bind (operands_agree h (forall₂_refl ins)) fun _ _ _ =>
        .bind houts fun _ _ _ => .emit rfl
  · rw [hx, hx']
    dsimp only
    rw [← hd.params_eq]
    exact .bind (packedArguments_agree h f.id f'.id _ _ ins) fun _ _ _ => .bind houts fun _ _ _ =>
      .emit rfl

/-- **The packed code of an instruction** has the same form for all widths. -/
theorem instr_agree (h : env.Alike C env') (ps rs : List Operand) {i i' : Instr}
    (hi : i.Alike C i') : InStep env env' (instr ps rs i) (instr ps rs i') fun _ _ => True := by
  cases hi with
  | same hc =>
    cases i with
    | label l => exact .bind (label_agree l) fun _ _ _ => .emit rfl
    | goto l => exact .bind (label_agree l) fun _ _ _ => .emit rfl
    | branch c yes no =>
      refine .bind (laneOf_agree h (.refl c)) fun l _ hl => ?_
      subst hl
      split
      · exact .refused
      · exact .bind (operand_agree h (.refl c)) fun _ _ _ => .bind (label_agree yes) fun _ _ _ =>
          .bind (label_agree no) fun _ _ _ => .emit rfl
    | assign kind d args => exact assign_agree h kind d (forall₂_refl args)
    | load d p o => exact load_agree h d p o
    | store p o a => exact store_agree h p o a
    | lea d p o =>
      have hlea : ∀ o o', InStep env env' (do
          let d ← operand d
          emit (.lea d (← operand p) o)) (do
          let d ← operand d
          emit (.lea d (← operand p) o')) fun _ _ => True := fun o o' =>
        .bind (operand_agree h (.refl d)) fun _ _ _ =>
        .bind (operand_agree h (.refl p)) fun _ _ _ =>
          .emit rfl
      refine .bind (laneOf_agree h (.refl p)) fun l _ hl => ?_
      subst hl
      split
      · exact .bind (packedOffset_agree h o) fun _ _ _ => hlea _ _
      · exact hlea _ _
    | alloc d n => exact .refuse _ _
    | memcpy d s n => exact .refuse _ _
    | call => cases hc
    | params => exact .fault _ _
    | results => exact .fault _ _
  | @const kind r n c c' ht =>
    exact assign_agree h kind r (.cons (.refl n) (.cons (.inr ⟨c, c', ht, rfl, rfl⟩) .nil))
  | call hd => exact call_agree h hd _ _

/-- The code of a function is packed in step. -/
theorem code_agree (h : env.Alike C env') (ps rs : List Operand) {is is' : List Instr}
    (his : List.Forall₂ (Instr.Alike C) is is') :
    InStep env env' (Packing.code ps rs is) (Packing.code ps rs is') fun _ _ => True := by
  induction his with
  | nil => exact .pure trivial
  | cons hi _ ih => exact .bind (instr_agree h ps rs hi) fun _ _ _ => ih

end Instructions

/-! ## Functions -/

section Functions

variable {env env' : PackEnv} {d d' : DeclLanes} {f f' : Function}

/-- A packed version is verified. -/
lemma packFunction_run (env : PackEnv) (d : DeclLanes) (f : Function) : packFunction env d f =
    ((buildOf f).run ⟨env, Lanes.ofFunction env d f⟩).run {} >>= fun r =>
      let fn : Function :=
        ⟨d.decl, r.1.1, r.1.2, r.2.vars, r.2.slots, Function.frame r.2.code⟩
      match fn.verify with
      | none => return fn
      | some flaw => throw (.fault (.broken (flaw.message fn))) :=
  rfl

/-- A packed version of tidy code has no flaw. -/
lemma packFunction_eq (hf : IsTidy f.instrs) : packFunction env d f =
    ((buildOf f).run ⟨env, Lanes.ofFunction env d f⟩).run {} >>= fun r =>
      .ok ⟨d.decl, r.1.1, r.1.2, r.2.vars, r.2.slots, Function.frame r.2.code⟩ := by
  rw [packFunction_run]
  cases hrun : ((buildOf f).run ⟨env, Lanes.ofFunction env d f⟩).run {} with
  | error x => rfl
  | ok r =>
    have hmakes : Makes ⟨env, Lanes.ofFunction env d f⟩ (buildOf f) {} r.1 r.2 := hrun
    simp only [buildOf, makes_bind, makes_pure] at hmakes
    obtain ⟨params, σ₁, hps, results, σ₂, hrs, _, σ₃, hcode, hr, rfl⟩ := hmakes
    have htidy := (isTidy_of_builds hf hps hrs hcode).1
    dsimp only [bind, Except.bind]
    rw [htidy.verify_eq_none rfl]
    rfl

/-- **Packed versions of alike functions**: both are there, with code of the same forms, or none. -/
theorem packFunction_alike (h : env.Alike C env')
    (hd : d.Alike C env.width env'.width d') (hf : f.Alike C f') (htidy : IsTidy f.instrs)
    (htidy' : IsTidy f'.instrs) (hps : ∀ o ∈ f.params ++ f.results, ∀ c, o ≠ .const c) :
    SameEnd (fun g g' => g.forms = g'.forms ∧ g.decl = d.decl ∧ g'.decl = d'.decl)
      (packFunction env d f) (packFunction env' d' f') := by
  obtain ⟨hlanes, hshares⟩ := Lanes.ofFunction_alike h hd hf hps
  have henv : WidenEnv.Alike C ⟨env, Lanes.ofFunction env d f⟩
      ⟨env', Lanes.ofFunction env' d' f'⟩ :=
    ⟨h, hlanes, hshares⟩
  have hbuild : InStep ⟨env, Lanes.ofFunction env d f⟩
    ⟨env', Lanes.ofFunction env' d' f'⟩ (buildOf f)
      (buildOf f') fun _ _ => True := by
    unfold buildOf
    rw [← hf.params_eq, ← hf.results_eq]
    exact .bind (operands_agree henv (forall₂_refl _)) fun _ _ _ =>
      .bind (operands_agree henv (forall₂_refl _)) fun _ _ _ =>
      .bind (code_agree henv _ _ hf.instrs) fun _ _ _ => .pure trivial
  have hend := hbuild {} {} .empty
  rw [packFunction_eq htidy, packFunction_eq htidy']
  revert hend
  generalize ((buildOf f).run _).run {} = r, ((buildOf f').run _).run {} = r'
  rintro (⟨hσ, -⟩ | hx)
  · refine .ok ⟨?_, rfl, rfl⟩
    simp [Function.forms, Function.frame, hσ.code]
  · exact .error hx

end Functions

end Lane.Packing
