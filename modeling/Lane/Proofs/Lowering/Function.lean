import Lane.Proofs.Analysis.Program
import Lane.Proofs.Lowering.Control

set_option relaxedAutoImplicit false
set_option autoImplicit false

/-!
# Functions are lowered

The code of a function binds the instance, the parameters and the results, and makes copies of the
parameters that the function may change. Its body follows: the chunks of its statements, or what the
compiler adds by itself to construct, copy or assign the member variables.

## Main definitions

* `Lane.Lowering.Implements`: code that consists of the binding and the chunks of statements.
* `Lane.Lowering.CopiesClass`: functions of the compiler that can be typed.

## Main results

* `Lane.Lowering.prologue_lowers`: parameters and results have the types that are declared.
* `Lane.Lowering.function_lowers`: functions whose assignments are ready are lowered, to well-formed
  and well-typed code.
* `Lane.Lowering.function_fails`: the other functions are not.
-/

namespace Lane.Lowering

open Code
open Analysis (selfLocal)

variable {env : Env} {e : Elaborated} {T : Prop} {L : Locals} {Γ : List Local}

/-! ## Binding -/

/-- A new local gets storage. -/
lemma Hosts.cons (h : Hosts T Γ L) {l : Local} (hl : l.id ∉ Γ.map Local.id) {s : Storage}
    (hs : s.Sound T l.type) : Hosts T (Γ ++ [l]) ((l.id, s) :: L) := by
  have hd : Distinct Γ [l] := ⟨by simp, by simpa using hl⟩
  have hnone : L.lookup l.id = none := by
    cases hlook : L.lookup l.id with
    | none => rfl
    | some r => exact absurd (h.known _ _ hlook) hl
  refine ((h.admits hd).cons hd List.mem_cons_self hnone hs).1.hosts fun l' hl' => ?_
  obtain rfl := List.mem_singleton.1 hl'
  exact ⟨s, by simp⟩

/-- A local gets other storage. -/
lemma Hosts.set (h : Hosts T Γ L) (hn : (Γ.map Local.id).Nodup) {l : Local} (hl : l ∈ Γ)
    {s : Storage} (hs : s.Sound T l.type) : Hosts T Γ ((l.id, s) :: L) where
  houses g hg := by
    rw [List.lookup_cons]
    split
    · rename_i hi
      obtain rfl := List.inj_on_of_nodup_map hn hg hl (beq_iff_eq.1 hi)
      exact ⟨s, rfl, hs⟩
    · exact h.houses g hg
  known i r hr := by
    rw [List.lookup_cons] at hr
    split at hr
    · rename_i hi
      exact List.mem_map.2 ⟨l, hl, (beq_iff_eq.1 hi).symm⟩
    · exact h.known i r hr

/-- The order of the visible locals does not matter. -/
lemma Hosts.congr {Δ : List Local} (h : Hosts T Γ L) (hs : ∀ l, l ∈ Γ ↔ l ∈ Δ) : Hosts T Δ L where
  houses l hl := h.houses l ((hs l).2 hl)
  known i s hi := by
    obtain ⟨l, hl, he⟩ := List.mem_map.1 (h.known i s hi)
    exact List.mem_map.2 ⟨l, (hs l).1 hl, he⟩

/-- No locals are hosted. -/
lemma Hosts.nil : Hosts T [] [] := ⟨nofun, nofun⟩

/-- How a parameter is bound: to an operand of its type, which gives it storage. -/
def Binds (env : Env) (T : Prop) (g : Param → Lower Operand) (t : VType) (a : Param) : Prop :=
  ∀ L, Lowers env T L (g a) fun o L' =>
    o.HasType t ∧ ∃ s, L' = (a.localId, s) :: L ∧ s.Sound T a.type

/-- A parameter passed by address is bound to a pointer. -/
lemma bindAddress_binds (a : Param) : Binds env T bindAddress .ptr a := by
  intro L
  refine Yields.bind (Yields.newVar _ _) fun v hv => ?_
  refine Lowers.bind (Lowers.setStorage _ _) fun _ L' hL' => Lowers.pure ?_
  exact ⟨⟨nofun, hv⟩, _, hL', .pointer fun _ => ⟨⟨nofun, hv⟩, fun _ => nofun⟩⟩

/-- A parameter passed by value is bound to its value. -/
lemma bindValue_binds {a : Param} (ha : a.type.isAtomic) :
    Binds env T bindValue a.type.code a := by
  intro L
  refine Yields.bind (Yields.newVar _ _) fun v hv => ?_
  refine Lowers.bind (Lowers.setStorage _ _) fun _ L' hL' => Lowers.pure ?_
  exact ⟨⟨nofun, hv⟩, _, hL', .var ⟨ha, fun _ => hv⟩⟩

/-- A parameter is bound to an operand of the type with which it is passed. -/
lemma bindParam_binds (a : Param) :
    Binds env T (fun p => if isByAddress p.type then bindAddress p else bindValue p)
      (paramType a.type) a := by
  intro L
  simp only
  split
  · rename_i h
    have ht : paramType a.type = .ptr := by
      simp only [isByAddress, Bool.or_eq_true, Bool.not_eq_true', beq_iff_eq] at h
      obtain h | h := h <;> simp [paramType, h]
    exact ht ▸ bindAddress_binds a L
  · rename_i h
    obtain ⟨ha, hm⟩ : a.type.isAtomic ∧ a.type.modifier ≠ .ref := by
      simpa [isByAddress] using h
    have ht : paramType a.type = a.type.code := by simp [paramType, ha, hm]
    exact ht ▸ bindValue_binds ha L

/-- Parameters are bound in order. -/
lemma bindAll_lowers {g : Param → Lower Operand} {t : Param → VType} : ∀ {as : List Param}
    {L : Locals} {Γ : List Local}, (∀ a ∈ as, Binds env T g (t a) a) → Hosts T Γ L →
    ((Γ ++ as.map Param.toLocal).map Local.id).Nodup →
    Lowers env T L (as.mapM g) fun os L' => List.Forall₂ Operand.HasType os (as.map t) ∧
      Hosts T (Γ ++ as.map Param.toLocal) L'
  | [], L, Γ, _, hL, _ => by
    rw [List.mapM_nil]
    exact Lowers.pure ⟨.nil, by simpa using hL⟩
  | a :: as, L, Γ, hg, hL, hn => by
    rw [List.mapM_cons]
    obtain ⟨hga, hgas⟩ := List.forall_mem_cons.1 hg
    have hsplit : Γ ++ (a :: as).map Param.toLocal =
        (Γ ++ [a.toLocal]) ++ as.map Param.toLocal := by simp
    rw [hsplit] at hn ⊢
    have hnew : a.toLocal.id ∉ Γ.map Local.id := by
      rw [List.map_append] at hn
      have := hn.of_append_left
      rw [List.map_append, List.nodup_append'] at this
      exact fun h => this.2.2 h (by simp)
    refine Lowers.bind (hga L) fun o L' h => ?_
    obtain ⟨ho, s, rfl, hs⟩ := h
    refine Lowers.bind (bindAll_lowers hgas (hL.cons (l := a.toLocal) hnew hs) hn)
      fun os L'' h => Lowers.pure ⟨.cons ho h.1, h.2⟩

/-- Where a parameter is. -/
lemma paramPlace_yields {a : Param} (h : Houses T Γ L) (ha : a.toLocal ∈ Γ) :
    Yields env T L (paramPlace a) fun p => p.Sound T ∧ p.type = a.type := by
  obtain ⟨s, hs, hsound⟩ := h _ ha
  refine Lowers.get fun b hb => ?_
  subst hb
  rw [show b.locals.lookup a.localId = some s from hs]
  exact Lowers.pure ⟨rfl, hsound.place, by cases s <;> rfl⟩

/-- A parameter that the function may change is copied. -/
lemma ownCopy_lowers (he : env.Sound e) (hL : Hosts T Γ L) (hn : (Γ.map Local.id).Nodup)
    {a : Param} (ha : a.toLocal ∈ Γ) (hv : e.program.Valid a.type)
    (hat : a.type.isAtomic = false) :
    Lowers env T L (ownCopy a) fun _ L' => Hosts T Γ L' := by
  refine Yields.bind (paramPlace_yields hL.houses ha) fun src hsrc => ?_
  refine Yields.bind (slotFor_yields he hv _) fun addr haddr => ?_
  obtain ⟨s, rfl⟩ := haddr
  have hp : (Place.memory (.slot s) none a.type).Sound T := fun hT =>
    ⟨isAddress_slot s hT, fun h => nomatch hat.symm.trans h⟩
  refine Yields.bind (copyValue_yields he hp hv hsrc.1 hsrc.2
    (.inl (hsrc.1.isMemory (hsrc.2 ▸ hat)))) fun _ _ => ?_
  refine (Lowers.setStorage _ _).weaken fun _ L' hL' => ?_
  exact hL' ▸ hL.set hn (l := a.toLocal) ha (.slot hp)

/-! ## The prologue -/

/-- The locals of a function in the order in which they are bound. -/
def boundLocals (f : MemberFunction) : List Local :=
  (selfLocal f).toList ++ f.sig.params.map Param.toLocal ++
    f.sig.hiddenResults.map Param.toLocal ++ f.sig.valueResults.map Param.toLocal

/-- The locals of a prologue are those that a body starts with. -/
lemma perm_boundLocals (f : MemberFunction) : (boundLocals f).Perm f.rootLocals := by
  have hres : (f.sig.hiddenResults ++ f.sig.valueResults).Perm f.sig.results :=
    List.filter_append_perm _ _
  unfold boundLocals MemberFunction.rootLocals
  rw [List.append_assoc, ← List.map_append, List.append_assoc, ← List.map_append]
  exact List.perm_append_comm.trans (.append_right _ ((hres.append_left _).map _))

/-- The locals that a body starts with have distinct numbers. -/
lemma nodup_rootLocals {p : Program} {f : MemberFunction} (hf : p.ValidFunc f) :
    (f.rootLocals.map Local.id).Nodup := by
  have hn : (f.selfId :: (f.sig.params ++ f.sig.results).map Param.localId).Nodup :=
    hf.locals_nodup
  obtain ⟨hself, hrest⟩ := List.nodup_cons.1 hn
  have hids : ((f.sig.params ++ f.sig.results).map Param.toLocal).map Local.id =
      (f.sig.params ++ f.sig.results).map Param.localId := by
    rw [List.map_map]
    rfl
  unfold MemberFunction.rootLocals
  rw [List.map_append, hids, List.nodup_append']
  refine ⟨hrest, ?_, fun i hi hi' => ?_⟩
  · unfold selfLocal
    split <;> simp
  · unfold selfLocal at hi'
    split at hi'
    · obtain rfl := List.mem_singleton.1 hi'
      exact hself hi
    · cases hi'

/-- The result of a function that the caller provides no storage for is atomic. -/
lemma isAtomic_of_mem_valueResults {p : Program} {f : MemberFunction} (hf : p.ValidFunc f)
    {a : Param} (ha : a ∈ f.sig.valueResults) : a.type.isAtomic := by
  obtain ⟨ha, hh⟩ := List.mem_filter.1 ha
  simpa [Param.isHidden, (hf.results_valid a ha).2.1] using hh

/-- A result that the caller provides storage for is not atomic. -/
lemma isAtomic_of_mem_hiddenResults {f : MemberFunction} {a : Param}
    (ha : a ∈ f.sig.hiddenResults) : a.type.isAtomic = false := by
  have := (List.mem_filter.1 ha).2
  simp only [Param.isHidden, Bool.and_eq_true, Bool.not_eq_true'] at this
  exact this.2

/-- **The prologue** binds operands of the declared types, and gives storage to the instance, the
parameters and the results. -/
theorem prologue_lowers (he : env.Sound e) {f : MemberFunction} (hf : e.program.Declares f)
    (n : Nat) :
    Lowers env T [] (prologue f) fun q L => Hosts T f.rootLocals L ∧
      List.Forall₂ Operand.HasType q.1 (memberDecl e f n).params ∧
      List.Forall₂ Operand.HasType q.2 (memberDecl e f n).results := by
  have hvalid := hf.validFunc he.program_wf
  have hperm := perm_boundLocals f
  have hnodup : ((boundLocals f).map Local.id).Nodup :=
    (hperm.map _).nodup_iff.2 (nodup_rootLocals hvalid)
  have hmem : ∀ l, l ∈ boundLocals f ↔ l ∈ f.rootLocals := fun l => hperm.mem_iff
  -- Copies and default values, once everything is bound.
  have settle : ∀ L, Hosts T (boundLocals f) L → ∀ q : List Operand × List Operand,
      Lowers env T L (do
        (f.sig.params.filter fun p => !p.type.isAtomic && p.type.modifier == .var).forM ownCopy
        f.sig.hiddenResults.forM fun p => do defaultValue (← paramPlace p)
        return q) fun q' L' => q' = q ∧ Hosts T f.rootLocals L' := by
    intro L hL q
    refine Lowers.bind (Lowers.forM (P := fun _ L' => Hosts T (boundLocals f) L') hL
      (fun a as L' hsuf hL' => ?_) (Q := fun _ L' => Hosts T (boundLocals f) L') fun _ h => h)
      fun _ L' hL' => ?_
    · obtain ⟨ha, hcopy⟩ := List.mem_filter.1 (hsuf.mem List.mem_cons_self)
      have hat : a.type.isAtomic = false := by
        simp only [Bool.and_eq_true, Bool.not_eq_true'] at hcopy
        exact hcopy.1
      refine ownCopy_lowers he hL' hnodup ?_ (hvalid.params_valid a ha).1 hat
      simp only [boundLocals, List.mem_append, List.mem_map]
      exact .inl (.inl (.inr ⟨a, ha, rfl⟩))
    refine Lowers.bind (Lowers.forM (P := fun _ L'' => L'' = L') rfl (fun a as L'' hsuf hL'' => ?_)
      (Q := fun _ L'' => L'' = L') fun _ h => h) fun _ L'' hL'' =>
        Lowers.pure ⟨rfl, (hL'' ▸ hL').congr hmem⟩
    subst hL''
    have ha : a ∈ f.sig.hiddenResults := hsuf.mem List.mem_cons_self
    have hroot : a.toLocal ∈ boundLocals f := by
      simp only [boundLocals, List.mem_append, List.mem_map]
      exact .inl (.inr ⟨a, ha, rfl⟩)
    refine Yields.bind (paramPlace_yields hL'.houses hroot) fun p hp => ?_
    refine Lowers.weaken (defaultValue_yields he hp.1 ?_) fun _ _ h => h.1
    exact hp.2 ▸ (hvalid.results_valid a (List.mem_filter.1 ha).1).1
  have rest : ∀ self L, Hosts T (selfLocal f).toList L →
      List.Forall₂ Operand.HasType self (if f.hasSelf then [VType.ptr] else []) →
      Lowers env T L (do
        let ins ← f.sig.params.mapM fun p =>
          if isByAddress p.type then bindAddress p else bindValue p
        let hidden ← f.sig.hiddenResults.mapM bindAddress
        let outs ← f.sig.valueResults.mapM bindValue
        (f.sig.params.filter fun p => !p.type.isAtomic && p.type.modifier == .var).forM ownCopy
        f.sig.hiddenResults.forM fun p => do defaultValue (← paramPlace p)
        return (self ++ ins ++ hidden, outs)) fun q L => Hosts T f.rootLocals L ∧
          List.Forall₂ Operand.HasType q.1 (memberDecl e f n).params ∧
          List.Forall₂ Operand.HasType q.2 (memberDecl e f n).results := by
    intro self L hL hself
    have hids : ∀ Δ : List Local, Δ <+: boundLocals f → (Δ.map Local.id).Nodup :=
      fun Δ hΔ => hnodup.sublist (hΔ.map Local.id).sublist
    refine Lowers.bind (bindAll_lowers (t := fun a => paramType a.type)
      (fun a _ => bindParam_binds a) hL (hids _ ?_)) fun ins L₁ h₁ => ?_
    · simp [boundLocals]
    refine Lowers.bind (bindAll_lowers (t := fun _ => .ptr) (fun a _ => bindAddress_binds a) h₁.2
      (hids _ ?_)) fun hidden L₂ h₂ => ?_
    · simp [boundLocals]
    refine Lowers.bind (bindAll_lowers (t := fun a => a.type.code)
      (fun a ha => bindValue_binds (isAtomic_of_mem_valueResults hvalid ha)) h₂.2 hnodup)
      fun outs L₃ h₃ => ?_
    refine (settle L₃ h₃.2 (self ++ ins ++ hidden, outs)).weaken fun q L' hq => ?_
    obtain ⟨rfl, hL'⟩ := hq
    refine ⟨hL', ?_, h₃.1⟩
    have hhidden : f.sig.hiddenResults.map (fun _ => VType.ptr) =
        f.sig.hiddenResults.map fun a => paramType a.type :=
      List.map_congr_left fun a ha =>
        (paramType_of_isAtomic_eq_false (isAtomic_of_mem_hiddenResults ha)).symm
    simp only [memberDecl, List.map_append, ← List.append_assoc]
    exact List.rel_append (List.rel_append hself h₁.1) (hhidden ▸ h₂.1)
  unfold prologue
  split
  · rename_i hself
    refine Yields.bind (Yields.newVar _ _) fun v hv => ?_
    refine Lowers.bind (Lowers.setStorage _ _) fun _ L' hL' => ?_
    subst hL'
    have htype : (Operand.var v).HasType .ptr := ⟨by simp, hv⟩
    refine rest [.var v] _ ?_ (by simpa [hself] using htype)
    rw [selfLocal, if_pos hself]
    exact Hosts.nil.cons (l := ⟨f.selfId, _, _, _, _⟩) (by simp)
      (.pointer fun _ => ⟨htype, fun _ s => by simp⟩)
  · rename_i hself
    exact rest [] [] (by simpa [selfLocal, hself] using Hosts.nil) (by simp [hself])

/-! ## Functions that the compiler adds -/

/-- Whether a function of the compiler has nothing to do for a member variable: its class has no
fitting function, or one that does nothing. -/
def isIdle (e : Elaborated) (kind : FuncKind) : Ty → Bool
  | .cls _ c =>
    match (e.program.classOf c).resolve kind.name [.cls .cref c] [kind] with
    | .ok g => isTrivial e g
    | .error _ => true
  | _ => false

/-- **Functions of the compiler that can be typed**. The other instance that a function copies is
named like the class of the function, so it is no instance of the class if the name is that of a
scalar. Then there must be nothing to copy. -/
def CopiesClass (e : Elaborated) (f : MemberFunction) : Prop :=
  f.isGenerated → f.isCopy → ScalarKind.ofName? f.cls.name = none ∨
    ∀ v ∈ (e.program.classOf f.cls).vars, isIdle e f.kind v.type

/-- A create or assign that does nothing is not called. -/
lemma selectAt_idle (he : env.Sound e) {kind : FuncKind} {m : Modifier} {c : ClassRef}
    (h : isIdle e kind (.cls m c)) (p : Place) (qs : List Place) :
    Yields env T L (do
      match ← select c kind [.cls .cref c] with
      | some f => invokeAt f p qs
      | none => return) fun _ => True := by
  have hselect : Yields env T L (select c kind [.cls .cref c])
      (· = ((e.program.classOf c).resolve kind.name [.cls .cref c] [kind]).toOption) := by
    refine Yields.bind Yields.read fun env' henv => Yields.pure ?_
    rw [henv, he.program_eq]
  refine Yields.bind hselect fun o ho => ?_
  subst ho
  simp only [isIdle] at h
  cases hres : (e.program.classOf c).resolve kind.name [.cls .cref c] [kind] with
  | error => exact Yields.pure trivial
  | ok g =>
    simp only [hres] at h
    have hg : e.program.Declares g :=
      Program.declares_of_mem_classOf (Class.of_resolve_eq_ok hres (by simp)).1
    show Yields _ T L (invokeAt g p qs) _
    refine Yields.bind (declOf_yields he hg) fun d hd => ?_
    obtain ⟨⟨n, rfl⟩, -⟩ := hd
    rw [show (memberDecl e g n).isTrivial = true from h]
    exact Yields.pure trivial

/-- A member variable is copied or assigned, from a place that need not be there if nothing is to be
done. -/
lemma transfer_yields (he : env.Sound e) {kind : FuncKind}
    (hk : kind = .create ∨ kind = .assign) {p q : Place} (hp : p.Sound T)
    (hv : e.program.Valid p.type) (ht : q.type = p.type)
    (hq : isIdle e kind p.type ∨ q.Sound T ∧ q.IsMemory) :
    Yields env T L (if kind = .assign then assignValue p q else copyValue p q) fun _ => True := by
  obtain hidle | ⟨hq, hm⟩ := hq
  · cases hpt : p.type with
    | cls m c =>
      rw [hpt] at hidle
      obtain rfl | rfl := hk
      · simp only [copyValue, hpt, reduceCtorEq, if_false]
        exact selectAt_idle he hidle p [q]
      · simp only [assignValue, hpt, if_true]
        exact selectAt_idle he hidle p [q]
    | _ =>
      rw [hpt] at hidle
      cases hidle
  · split
    · exact assignValue_yields he hp hv hq ht (.inl hm)
    · exact copyValue_yields he hp hv hq ht (.inl hm)

/-- What the compiler adds is lowered. -/
theorem generated_lowers (he : env.Sound e) {f : MemberFunction} (hf : e.program.Declares f)
    (hL : Hosts T f.rootLocals L) (hg : f.isGenerated) (hT : T → CopiesClass e f) :
    Yields env T L (generated f) fun _ => True := by
  have hvalid := hf.validFunc he.program_wf
  have hkind := hvalid.generated_kind hg
  have hself : f.hasSelf = true := by
    obtain hk | hk := hkind <;> simp [MemberFunction.hasSelf, hk]
  obtain ⟨d, hd, hfd⟩ := hf
  have hcls : e.program.classOf f.cls = d := by
    rw [((he.program_wf.classes_valid d hd).funcs_own f hfd).1, he.program_wf.classOf_eq hd]
  have hvars : ∀ v ∈ (e.program.classOf f.cls).vars, e.program.Valid v.type := fun v hv =>
    ((he.program_wf.classes_valid d hd).vars_own v (hcls ▸ hv)).2
  have hself' : ∃ s, L.lookup f.selfId = some s ∧
      (Place.ofStorage (.ofClass f.cls) s).Sound T ∧
      (Place.ofStorage (.ofClass f.cls) s).IsMemory := by
    obtain ⟨s, hs, hsound⟩ := hL.houses
      ⟨f.selfId, "self", f.pos, .cls (if f.hasConstSelf then .cref else .ref) f.cls, .self⟩
      (List.mem_append_right _ (by simp [selfLocal, hself]))
    refine ⟨s, hs, ?_⟩
    cases s with
    | var => cases hsound.place.1
    | memory => exact ⟨fun hT => ⟨(hsound.place hT).1, fun h => by cases h⟩, trivial⟩
  obtain ⟨s, hs, hsound, hmem⟩ := hself'
  have member : ∀ v ∈ (e.program.classOf f.cls).vars, ∀ L,
      Yields env T L (memberOf v) fun m => StructMember.Places d.name v m :=
    fun v hv L => memberOf_yields he hd (hcls ▸ hv)
  unfold generated
  refine Lowers.get fun b hb => ?_
  subst hb
  simp only [hs, pure_bind]
  refine Yields.bind Yields.read fun env' henv => ?_
  rw [henv, he.program_eq]
  have each : ∀ (g : MemberVar → Lower Unit), (∀ v ∈ (e.program.classOf f.cls).vars,
      Yields env T b.locals (g v) fun _ => True) →
      Yields env T b.locals ((e.program.classOf f.cls).vars.forM g) fun _ => True := by
    intro g hg
    refine Lowers.forM (P := fun _ L => L = b.locals) rfl (fun v vs L hsuf hL => ?_)
      fun L hL => ⟨hL, trivial⟩
    subst hL
    exact Lowers.weaken (hg v (hsuf.mem List.mem_cons_self)) fun _ _ h => h.1
  split
  · refine each _ fun v hv => ?_
    refine Yields.bind (member v hv _) fun m hm => ?_
    have hfield := hsound.field hmem fun _ => hm.holds
    exact defaultValue_yields he hfield.1 (hvars v hv)
  · rename_i a as hcopy hps
    have ha : a ∈ f.sig.params := hps ▸ List.mem_cons_self
    have hroot : a.toLocal ∈ f.rootLocals :=
      List.mem_append_left _ (List.mem_map_of_mem (List.mem_append_left _ ha))
    refine Yields.bind (paramPlace_yields hL.houses hroot) fun other hother => ?_
    -- The other instance is in memory, or there is nothing to be typed or to be done.
    have hplace : (T → other.IsMemory) ∨
        ∀ v ∈ (e.program.classOf f.cls).vars, isIdle e f.kind v.type := by
      by_cases hTT : T
      · obtain hname | hidle := hT hTT hg hcopy
        · refine .inl fun _ => hother.1.isMemory ?_
          obtain ⟨a', ha', ⟨-, ht⟩ | ⟨k, hk, -⟩⟩ := hvalid.copy_param hg hcopy
          · obtain rfl : a = a' := (List.cons.inj (hps.symm.trans ha')).1
            rw [hother.2, ht]
            rfl
          · cases hname.symm.trans hk
        · exact .inr hidle
      · exact .inl fun h => absurd h hTT
    refine each _ fun v hv => ?_
    refine Yields.bind (member v hv _) fun m hm => ?_
    refine transfer_yields he hkind (hsound.field hmem fun _ => hm.holds).1 (hvars v hv) rfl ?_
    obtain hother' | hidle := hplace
    · refine .inr ⟨fun hT => ⟨hother.1.base_hasType (hother' hT) hT, ?_⟩, trivial⟩
      simpa using hm.holds
    · exact .inl (hidle v hv)
  · rename_i hcopy hps
    obtain ⟨a, ha, -⟩ := hvalid.copy_param hg hcopy
    cases hps.symm.trans ha

/-! ## Functions that cannot be typed -/

/-- **Computations that emit an ill-typed instruction**, whatever may be called. -/
def Spoils {α : Type} (env : Env) (L : Locals) (m : Lower α) : Prop :=
  ∀ b : Builder, b.locals = L → ∃ a b', (m.run env).run b = .ok (a, b') ∧ b'.locals = L ∧
    ∃ i ∈ b'.code, ∀ D, ¬i.WellTyped D

section Spoils

variable {α β : Type} {m : Lower α} {f : α → Lower β} {R : α → Prop} {p q : Place} {t : Ty}

/-- An instruction that is never well typed spoils the code. -/
lemma Spoils.emit {i : Instr} (h : ∀ D, ¬i.WellTyped D) : Spoils env L (emit i) :=
  fun _ hb => ⟨(), _, rfl, hb, i, List.mem_append_right _ (List.mem_singleton_self i), h⟩

/-- What follows an ill-typed instruction does not help. -/
lemma Spoils.bind {S : β → Prop} (hm : Spoils env L m) (hf : ∀ a, Yields env False L (f a) S) :
    Spoils env L (m >>= f) := by
  intro b hb
  obtain ⟨a, b', hrun, hl, i, hi, hbad⟩ := hm b hb
  obtain ⟨c, b'', is, hrun', he, hl', -⟩ := hf a b' hl
  refine ⟨c, b'', (run_bind hrun).trans hrun', hl', i, ?_, hbad⟩
  rw [he.code_eq]
  exact List.mem_append_left is hi

/-- An ill-typed instruction follows. -/
lemma Yields.spoils (hm : Yields env False L m R) (hf : ∀ a, R a → Spoils env L (f a)) :
    Spoils env L (m >>= f) := by
  intro b hb
  obtain ⟨a, b', is, hrun, -, hl, hR⟩ := hm b hb
  obtain ⟨c, b'', hrun', hl', hbad⟩ := hf a hR b' hl
  exact ⟨c, b'', (run_bind hrun).trans hrun', hl', hbad⟩

/-- Without a claim about types, all places in memory will do. -/
lemma sound_of_isMemory (hp : p.IsMemory) : p.Sound False := by
  cases p with
  | var => exact hp.elim
  | memory => exact fun h => h.elim

/-- Nothing is loaded from an address that is not there. -/
lemma load_spoils (t : VType) (o : Option Offset) :
    Spoils env L (do
      let r ← newReg t
      emit (.load r .absent o)
      return r) :=
  Yields.spoils (Yields.newReg t) fun _ _ =>
    Spoils.bind (S := fun _ => True) (Spoils.emit fun _ h => h.2.1.1 rfl) fun _ =>
      Yields.pure trivial

/-- A field of what is absent spoils the code. -/
lemma loadField_spoils (o : Option Offset) (t : Ty) (m : StructMember) :
    Spoils env L (loadField (.memory .absent o t) m) :=
  load_spoils _ _

/-- A value that is fetched from what is absent spoils the code. -/
lemma fetch_spoils (o : Option Offset) (ht : t.isAtomic) :
    Spoils env L (fetch (.memory .absent o t)) := by
  simp only [fetch, ht, Bool.not_true, Bool.false_eq_true, if_false]
  exact load_spoils _ _

/-- A create or assign that does something is called with an argument that is not there. -/
lemma selectAt_spoils (he : env.Sound e) {kind : FuncKind} {m : Modifier} {c : ClassRef}
    (h : isIdle e kind (.cls m c) = false) (hp : p.IsMemory) (o : Option Offset) (t : Ty) :
    Spoils env L (do
      match ← select c kind [.cls .cref c] with
      | some f => invokeAt f p [.memory .absent o t]
      | none => return) := by
  have hselect : Yields env False L (select c kind [.cls .cref c])
      (· = ((e.program.classOf c).resolve kind.name [.cls .cref c] [kind]).toOption) := by
    refine Yields.bind Yields.read fun env' henv => Yields.pure ?_
    rw [henv, he.program_eq]
  refine Yields.spoils hselect fun r hr => ?_
  subst hr
  simp only [isIdle] at h
  cases hres : (e.program.classOf c).resolve kind.name [.cls .cref c] [kind] with
  | error => simp [hres] at h
  | ok g =>
    simp only [hres] at h
    have hg : e.program.Declares g :=
      Program.declares_of_mem_classOf (Class.of_resolve_eq_ok hres (by simp)).1
    show Spoils _ L (invokeAt g p _)
    refine Yields.spoils (declOf_yields he hg) fun d hd => ?_
    obtain ⟨⟨n, rfl⟩, -⟩ := hd
    rw [show (memberDecl e g n).isTrivial = false from h]
    have hself : Yields env False L (address p) fun _ => True :=
      (address_yields (sound_of_isMemory hp) hp).weaken fun _ _ => trivial
    simp only [Bool.not_false, if_true, addresses, address, bind_assoc]
    split
    · simp only [pure_bind]
      refine Yields.spoils hself fun a _ => Spoils.emit fun D hcall => ?_
      obtain ⟨-, hins, -⟩ := hcall
      obtain ⟨_, _, -, hrest, -⟩ := List.forall₂_cons_left_iff.1 hins
      obtain ⟨_, _, habsent, -⟩ := List.forall₂_cons_left_iff.1 hrest
      exact habsent.1 rfl
    · simp only [pure_bind, bind_assoc]
      refine Yields.spoils (Yields.newReg _) fun r _ =>
        Spoils.bind (S := fun _ => True) (Spoils.emit fun _ h => h.2.2.1 rfl) fun _ => ?_
      exact Yields.bind hself fun a _ => Yields.emit rfl rfl fun h => h.elim

/-- A member variable for which there is something to do is not copied from nowhere. -/
lemma transfer_spoils (he : env.Sound e) {kind : FuncKind}
    (hk : kind = .create ∨ kind = .assign) (hp : p.IsMemory) (hv : e.program.Valid p.type)
    (h : isIdle e kind p.type = false) (o : Option Offset) :
    Spoils env L (if kind = .assign then assignValue p (.memory .absent o p.type)
      else copyValue p (.memory .absent o p.type)) := by
  cases hpt : p.type with
  | cls m c =>
    rw [hpt] at h
    obtain rfl | rfl := hk
    · simp only [copyValue, hpt, reduceCtorEq, if_false]
      exact selectAt_spoils he h hp o _
    · simp only [assignValue, hpt, if_true]
      exact selectAt_spoils he h hp o _
  | container m k t =>
    rw [hpt] at hv
    simp only [assignValue, copyValue, hpt, ite_self]
    unfold copyContainer
    rw [hpt]
    refine Spoils.bind (S := fun _ => True) (loadField_spoils o _ _) fun data => ?_
    exact copyElements_yields (t := t) he (sound_of_isMemory hp)
      (sound_of_isMemory (p := .memory .absent o (.container m k t)) trivial) hp trivial k hv
      fun h => h.elim
  | error =>
    rw [hpt] at hv
    exact hv.elim
  | scalar | ptr =>
    simp only [assignValue, copyValue, hpt, ite_self]
    exact Spoils.bind (fetch_spoils o rfl) fun a =>
      put_yields (sound_of_isMemory hp) (by rw [hpt]; rfl) fun h => h.elim

/-- The locals are looked at. -/
lemma Spoils.get {f : Builder → Lower β} (hf : ∀ b, b.locals = L → Spoils env L (f b)) :
    Spoils env L (get >>= f) :=
  fun b hb => hf b hb b hb

/-- An ill-typed instruction is emitted for one entry of a list. -/
lemma forM_spoils {γ : Type} {g : γ → Lower Unit} : ∀ {l : List γ} {c : γ},
    (∀ a ∈ l, Yields env False L (g a) fun _ => True) → c ∈ l → Spoils env L (g c) →
    Spoils env L (l.forM g)
  | a :: l, c, hg, hc, hbad => by
    obtain ⟨ha, hl⟩ := List.forall_mem_cons.1 hg
    obtain rfl | hc := List.mem_cons.1 hc
    · refine Spoils.bind (S := fun _ => True) hbad fun _ => ?_
      refine Lowers.forM (P := fun _ L' => L' = L) rfl (fun a' l' L' hsuf hL' => ?_)
        fun L' hL' => ⟨hL', trivial⟩
      subst hL'
      exact Lowers.weaken (hl a' (hsuf.mem List.mem_cons_self)) fun _ _ h => h.1
    · exact Yields.spoils ha fun _ _ => forM_spoils hl hc hbad

/-- A parameter that is passed by value is a variable. -/
lemma prologue_of_copy (env : Env) {f : MemberFunction} (hself : f.hasSelf) {a : Param}
    (hps : f.sig.params = [a]) (hrs : f.sig.results = []) (hat : a.type.isAtomic)
    (hm : a.type.modifier ≠ .ref) :
    Lowers env T [] (prologue f) fun _ L => ∃ v s,
      L = [(a.localId, .var v), (f.selfId, .memory (.var s))] := by
  have hby : isByAddress a.type = false := by simp [isByAddress, hat, hm]
  simp only [prologue, hself, if_true, hps, Signature.hiddenResults, Signature.valueResults, hrs,
    List.filter_nil, List.mapM_nil, List.mapM_cons, hby, Bool.false_eq_true, if_false,
    List.filter_cons, hat, Bool.not_true, Bool.false_and, pure_bind, bind_assoc, bindValue]
  refine Yields.bind (Yields.newVar _ _) fun s _ => ?_
  refine Lowers.bind (Lowers.setStorage _ _) fun _ L hL => ?_
  refine Yields.bind (Yields.newVar _ _) fun v _ => ?_
  refine Lowers.bind (Lowers.setStorage _ _) fun _ L' hL' => ?_
  subst hL hL'
  exact Lowers.pure ⟨v, s, rfl⟩

/-- **Functions of the compiler that cannot be typed**: the other instance is not in memory. -/
theorem generated_spoils (he : env.Sound e) {f : MemberFunction} (hf : e.program.Declares f)
    (hg : f.isGenerated) (hcopy : f.isCopy) {a : Param} (hps : f.sig.params = [a]) {v : Var}
    {s : Operand} (hself : L.lookup f.selfId = some (.memory s))
    (hother : L.lookup a.localId = some (.var v))
    (h : ∃ x ∈ (e.program.classOf f.cls).vars, isIdle e f.kind x.type = false) :
    Spoils env L (generated f) := by
  have hkind := (hf.validFunc he.program_wf).generated_kind hg
  obtain ⟨d, hd, hfd⟩ := hf
  have hcls : e.program.classOf f.cls = d := by
    rw [((he.program_wf.classes_valid d hd).funcs_own f hfd).1, he.program_wf.classOf_eq hd]
  have hvars : ∀ x ∈ (e.program.classOf f.cls).vars, e.program.Valid x.type := fun x hx =>
    ((he.program_wf.classes_valid d hd).vars_own x (hcls ▸ hx)).2
  have member : ∀ x ∈ (e.program.classOf f.cls).vars, ∀ L,
      Yields env False L (memberOf x) fun m => StructMember.Places d.name x m :=
    fun x hx L => memberOf_yields he hd (hcls ▸ hx)
  have hplace : Yields env False L (paramPlace a) (· = .var v a.type) := by
    refine Lowers.get fun b hb => ?_
    subst hb
    rw [hother]
    exact Lowers.pure ⟨rfl, rfl⟩
  obtain ⟨x, hx, hbusy⟩ := h
  unfold generated
  refine Spoils.get fun b hb => ?_
  subst hb
  simp only [hself, pure_bind, hcopy, hps]
  refine Yields.spoils Yields.read fun env' henv => ?_
  rw [henv, he.program_eq]
  refine Yields.spoils hplace fun other hother => ?_
  subst hother
  refine forM_spoils (fun y hy => ?_) hx ?_
  · refine Yields.bind (member y hy _) fun m _ => ?_
    exact transfer_yields he hkind (sound_of_isMemory trivial) (hvars y hy) rfl
      (.inr ⟨sound_of_isMemory trivial, trivial⟩)
  · exact Yields.spoils (member x hx _) fun m _ =>
      transfer_spoils (p := Place.field (.memory s none (.ofClass f.cls)) m x.type) he hkind
        trivial (hvars x hx) hbusy (some (Offset.step none m))

end Spoils

/-! ## Functions -/

/-- **The code of statements as a function**: what is emitted to bind parameters and results, and
after it the chunks of the statements, each of them once and in order. -/
structure Implements (env : Env) (f : MemberFunction) (ss : List TStmt) (fn : Function)
    (opening : List Instr) (cs : List Chunk) : Prop where
  opens : Emitted env (prologue f) (fn.params, fn.results) opening
  shapes : ∃ n, ShapesAll env none ss 2 n cs
  body_eq : fn.body = Function.frame (opening ++ flatten cs)

/-- What is built after the prologue. -/
def bodyOf (e : Elaborated) (f : MemberFunction) : Lower Unit :=
  if f.isGenerated then generated f
  else statements none (((e.body? f).map FuncBody.body).getD [])

/-- What is built for a function: the prologue, then the body. -/
def build (e : Elaborated) (f : MemberFunction) : Lower (List Operand × List Operand) :=
  prologue f >>= fun bound => bodyOf e f >>= fun _ => pure bound

/-- A function is what is built for it, if that is well formed. -/
lemma function_eq (env : Env) (e : Elaborated) (f : MemberFunction) :
    function env e f = ((build e f).run env).run {} >>= fun r =>
      let fn : Function :=
        ⟨env.current, r.1.1, r.1.2, r.2.vars, r.2.slots, Function.frame r.2.code⟩
      match fn.verify with
      | none => return fn
      | some flaw => broken (flaw.message fn) := by
  have hbuild : build e f = (do
      let bound ← prologue f
      if f.isGenerated then generated f
      else statements none (((e.body? f).map FuncBody.body).getD [])
      return bound) := by
    unfold build bodyOf
    congr 1
    funext bound
    split <;> rfl
  rw [hbuild]
  rfl

/-- A function is what its prologue and its body emit, if jumps stay inside. -/
lemma function_of_run {f : MemberFunction} {q : List Operand × List Operand} {b b' : Builder}
    {is js : List Instr} (hpro : ((prologue f).run env).run {} = .ok (q, b))
    (hbody : ((bodyOf e f).run env).run b = .ok ((), b')) (hg : Grows env T {} b is)
    (hg' : Grows env T b b' js)
    (ht : ∀ i ∈ is ++ js, ∀ l ∈ i.targets, Instr.label l ∈ Function.frame (is ++ js)) :
    function env e f =
      .ok ⟨env.current, q.1, q.2, b'.vars, b'.slots, Function.frame (is ++ js)⟩ := by
  have hgrow := hg.trans hg'
  have hcode : b'.code = is ++ js := by simpa using hgrow.code_eq
  have hrun : ((build e f).run env).run {} = .ok (q, b') :=
    (run_bind hpro).trans ((run_bind hbody).trans rfl)
  have hverify : (⟨env.current, q.1, q.2, b'.vars, b'.slots, Function.frame b'.code⟩ :
      Function).verify = none := by
    refine Function.verify_frame rfl (hcode ▸ ht) ?_
    rw [hcode]
    exact hgrow.regs_nodup.of_map
  rw [function_eq, hrun, ← hcode]
  show (match Function.verify _ with | none => _ | some flaw => _) = _
  rw [hverify]
  rfl

/-- A function that is lowered is what was built for it. -/
lemma of_function_eq_ok {f : MemberFunction} {fn : Function} (h : function env e f = .ok fn) :
    ∃ q b, ((build e f).run env).run {} = .ok (q, b) ∧
      fn = ⟨env.current, q.1, q.2, b.vars, b.slots, Function.frame b.code⟩ := by
  rw [function_eq] at h
  cases hrun : ((build e f).run env).run {} with
  | error x =>
    rw [hrun] at h
    cases h
  | ok r =>
    rw [hrun] at h
    simp only [bind, Except.bind] at h
    split at h
    · exact ⟨r.1, r.2, rfl, (Except.ok.inj h).symm⟩
    · cases h

/-- The function that is lowered has the environment's declaration. -/
lemma decl_of_function_eq_ok {f : MemberFunction} {fn : Function}
    (h : function env e f = .ok fn) : fn.decl = env.current := by
  obtain ⟨q, b, -, rfl⟩ := of_function_eq_ok h
  rfl

/-- Where chunks jump to, labels are. -/
lemma label_mem_frame {opening : List Instr} {cs : List Chunk} {a : Bool}
    (ho : ∀ i ∈ opening, i.isStraight) (hs : ∀ c ∈ cs, c.Faithful env) (hc : Closed none a cs cs) :
    ∀ i ∈ opening ++ flatten cs, ∀ l ∈ i.targets,
      Instr.label l ∈ Function.frame (opening ++ flatten cs) := by
  intro i hi l hl
  obtain hi | hi := List.mem_append.1 hi
  · rw [Instr.targets_of_isStraight (ho i hi)] at hl
    cases hl
  · obtain ⟨c, hcs, hic⟩ := List.mem_flatMap.1 hi
    obtain hmem | rfl | ⟨g, hg, -⟩ := hc c hcs l ((hs c hcs).targets hic hl)
    · have : Instr.label l ∈ flatten cs :=
        List.mem_flatMap.2 ⟨.label l, hmem, List.mem_singleton_self _⟩
      simp [Function.frame, this]
    · simp [Function.frame]
    · cases hg

/-- **Functions are lowered**: what the compiler adds, and bodies whose assignments are ready. -/
theorem function_lowers (he : env.Sound e) {f : MemberFunction}
    (hf : e.program.Declares f) {n : Nat}
    (hcur : env.current = memberDecl e f n) (hT : T → CopiesClass e f)
    (hbody : f.isGenerated = false → ∃ b, e.body? f = some b ∧ b.Typed e.program ∧
      b.fn = f ∧ TStmt.areReady b.body) :
    ∃ fn, function env e f = .ok fn ∧ (T → fn.WellTyped env.Calls) ∧
      ∀ b, f.isGenerated = false → e.body? f = some b →
        ∃ opening cs, Implements env f b.body fn opening cs := by
  obtain ⟨q, b, is, hpro, hem, hL, hps, hrs⟩ := prologue_lowers (T := T) he hf n {} rfl
  -- Whatever the body is, the function is typed.
  have typed : ∀ {b' : Builder} {js : List Instr}, Grows env T b b' js → T →
      (⟨env.current, q.1, q.2, b'.vars, b'.slots, Function.frame (is ++ js)⟩ :
        Function).WellTyped env.Calls := by
    intro b' js hg' hT
    refine ⟨fun i hi => ?_, hcur ▸ hps, hcur ▸ hrs⟩
    simp only [Function.frame, List.mem_append, List.mem_cons, List.not_mem_nil, or_false] at hi
    obtain ((rfl | rfl) | hi | hi) | rfl | rfl := hi
    · trivial
    · trivial
    · exact hem.typed hT i hi
    · exact hg'.typed hT i hi
    · trivial
    · trivial
  cases hgen : f.isGenerated with
  | true =>
    obtain ⟨⟨⟩, b', js, hrun, hem', -⟩ := generated_lowers he hf hL hgen hT b rfl
    have hrun' : ((bodyOf e f).run env).run b = .ok ((), b') := by
      rw [← hrun, bodyOf, if_pos hgen]
    have hfun := function_of_run (e := e) hpro hrun' hem.toGrows hem'.toGrows fun i hi l hl => by
      have hs : i.isStraight := (List.mem_append.1 hi).elim (hem.straight i) (hem'.straight i)
      rw [Instr.targets_of_isStraight hs] at hl
      cases hl
    exact ⟨_, hfun, typed hem'.toGrows, by simp⟩
  | false =>
    obtain ⟨c, hc, ⟨-, -, htyped⟩, rfl, hready⟩ := hbody hgen
    obtain ⟨b', js, cs, hrun, hg', hcs, hshapes, -⟩ :=
      @statements_build _ _ _ he _ _ none _ _ htyped
      hready (hf.rootLocals_valid he.program_wf) hL b rfl rfl
    rw [List.nil_append] at hcs
    subst hcs
    have hrun' : ((bodyOf e c.fn).run env).run b = .ok ((), b') := by
      rw [← hrun, bodyOf, hgen, hc]
      rfl
    have hfun := function_of_run (e := e) hpro hrun' hem.toGrows hg'
      (label_mem_frame hem.straight hshapes.faithful hshapes.closed)
    refine ⟨_, hfun, typed hg', ?_⟩
    intro c' _ hc'
    obtain rfl := Option.some.inj (hc.symm.trans hc')
    have hopens : Emitted env (prologue c.fn) q is := ⟨⟨_, _, hpro, hem.code_eq⟩, hem.straight⟩
    exact ⟨is, cs, hopens, ⟨_, hem.labels_eq ▸ hshapes⟩, rfl⟩

/-- **Functions that are not lowered**: their bodies are not ready. -/
theorem function_fails (env : Env) {f : MemberFunction} {b : FuncBody}
    (hgen : f.isGenerated = false) (hb : e.body? f = some b) (h : TStmt.areReady b.body = false) :
    ∃ x, function env e f = .error x := by
  have hbody : bodyOf e f = statements none b.body := by simp [bodyOf, hgen, hb]
  have hbuild : Fails env (build e f) :=
    Fails.of_bind fun _ => Fails.bind (hbody ▸ statements_fail h)
  obtain ⟨x, hx⟩ := hbuild {}
  exact ⟨x, by rw [function_eq, hx]; rfl⟩

/-- **Functions that are not typed**: the compiler copies what is no instance of the class. -/
theorem not_wellTyped_of_not_copiesClass (he : env.Sound e) {f : MemberFunction}
    (hf : e.program.Declares f) (h : ¬CopiesClass e f) {fn : Function}
    (hfn : function env e f = .ok fn) (D : FuncDecl → Prop) : ¬fn.WellTyped D := by
  simp only [CopiesClass, Classical.not_imp, not_or, not_forall] at h
  obtain ⟨hgen, hcopy, hname, x, hx, hbusy⟩ := h
  have hvalid := hf.validFunc he.program_wf
  have hkind := hvalid.generated_kind hgen
  have hself : f.hasSelf = true := by
    obtain hk | hk := hkind <;> simp [MemberFunction.hasSelf, hk]
  obtain ⟨a, hps, ⟨hnone, -⟩ | ⟨k, -, htype⟩⟩ := hvalid.copy_param hgen hcopy
  · exact absurd hnone hname
  have hne : (f.selfId == a.localId) = false := by
    have hn := hvalid.locals_nodup
    rw [MemberFunction.localIds, hps] at hn
    rw [beq_eq_false_iff_ne]
    intro heq
    simp [heq] at hn
  obtain ⟨q, b, is, hpro, -, v, s, hL⟩ := prologue_of_copy env (T := False) hself hps
    (hvalid.results_nil hkind) (by rw [htype]; rfl) (by simp [htype, Ty.modifier]) {} rfl
  obtain ⟨⟨⟩, b', hrun, -, i, hi, hbad⟩ := generated_spoils he hf hgen hcopy hps (L := b.locals)
    (v := v) (s := .var s) (by simp [hL, List.lookup_cons, hne]) (by simp [hL])
    ⟨x, hx, by simpa using hbusy⟩ b rfl
  have hbody : ((bodyOf e f).run env).run b = .ok ((), b') := by
    rw [← hrun, bodyOf, if_pos hgen]
  have hbuild : ((build e f).run env).run {} = .ok (q, b') :=
    (run_bind hpro).trans ((run_bind hbody).trans rfl)
  obtain ⟨q', b'', hbuild', rfl⟩ := of_function_eq_ok hfn
  obtain ⟨rfl, rfl⟩ := Prod.mk.inj (Except.ok.inj (hbuild.symm.trans hbuild'))
  exact fun hw => hbad D (hw.body_typed i (by simp [Function.frame, hi]))

end Lane.Lowering
