import Lane.Proofs.Lowering.Program
import Lane.Proofs.Regular.Builder

set_option relaxedAutoImplicit false
set_option autoImplicit false

/-!
# Lowered functions are regular

The code of expressions and statements is regular, and so is that of functions. The registers in
which a call returns values are reserved before the call is emitted, and assigned by it only.

## Main definitions

* `Lane.Lowering.Lowered.Keeps`: both ways of lowering an expression keep code regular.
* `Lane.Code.Function.Regular`: functions of regular code.

## Main results

* `Lane.Lowering.call_keeps`: a call returns values in registers of its own.
* `Lane.Lowering.expr_keeps`, `Lane.Lowering.statement_keeps`: the code of expressions and
  statements is regular.
* `Lane.Lowering.regular_of_function`: the code of functions is regular.
-/

namespace Lane.Lowering

open Code

section Expressions

variable {α : Type} {env : Env} {x i : Lowered} {o : Operand} {os : List Operand}

/-- Scalars in a list. -/
def AreScalar (os : List Operand) : Prop := ∀ o ∈ os, o.IsScalar

/-- No operands are scalars. -/
lemma areScalar_nil : AreScalar [] := List.forall_mem_nil _

/-- One more scalar. -/
lemma AreScalar.cons (ho : o.IsScalar) (hos : AreScalar os) : AreScalar (o :: os) :=
  List.forall_mem_cons.2 ⟨ho, hos⟩

/-- Lists of scalars in sequence. -/
lemma AreScalar.append {ps : List Operand} (ho : AreScalar os) (hp : AreScalar ps) :
    AreScalar (os ++ ps) :=
  List.forall_mem_append.2 ⟨ho, hp⟩

/-- Storage that the caller gives to results. -/
def AreGiven (dests : List (Option Operand)) : Prop := ∀ d, some d ∈ dests → d.IsScalar

/-- **Both ways of lowering an expression** keep code regular. -/
structure Lowered.Keeps (env : Env) (x : Lowered) : Prop where
  place : Lowering.Keeps env x.place (Place.Regular env.layouts)
  values : ∀ dests, AreGiven dests → Lowering.Keeps env (x.values dests) AreScalar

/-- The type of an expression. -/
lemma typeOf_keeps (x : TExpr) : Keeps env (typeOf x) fun _ => True := by
  unfold typeOf
  split
  · exact .pure trivial
  · exact .fails (Fails.bug _)

/-- The value of an expression is a scalar. -/
lemma Lowered.Keeps.value (hx : x.Keeps env) : Lowering.Keeps env x.value Operand.IsScalar := by
  refine .bind (hx.values [] nofun) fun os hos => ?_
  split
  · exact .pure (hos _ (List.mem_singleton_self _))
  · exact .fails (Fails.bug _)

/-- The place of an object is regular. -/
lemma Lowered.Keeps.object (hx : x.Keeps env) :
    Lowering.Keeps env x.object (Place.Regular env.layouts) := by
  unfold Lowered.object
  split
  · exact hx.place
  · exact .bind hx.value fun v hv => .bind (typeOf_keeps _) fun t _ =>
      .pure ⟨hv, Layouts.leads_none _⟩

/-- The receiver of a call is a scalar. -/
lemma Lowered.Keeps.receiver (hx : x.Keeps env) :
    Lowering.Keeps env x.receiver Operand.IsScalar := by
  refine .bind (typeOf_keeps _) fun t _ => ?_
  split
  · exact hx.value
  · exact .bind hx.object fun q hq => address_keeps hq

/-- An expression that is lowered through its place. -/
lemma keeps_ofPlace {e : TExpr} {place : Lower Place}
    (h : Keeps env place (Place.Regular env.layouts)) : (Lowered.ofPlace e place).Keeps env where
  place := h
  values _ _ := .bind h fun _ hq => .bind (fetch_keeps hq) fun _ ho =>
    .pure (.cons ho areScalar_nil)

/-- An expression that is lowered through its values. -/
lemma keeps_ofValues {e : TExpr} {values : List (Option Operand) → Lower (List Operand)}
    (h : ∀ dests, AreGiven dests → Keeps env (values dests) AreScalar) :
    (Lowered.ofValues e values).Keeps env where
  place := .fails (Fails.of_bind fun _ => Fails.bug _)
  values := h

/-- An expression that is lowered through its only value. -/
lemma keeps_ofValue {e : TExpr} {value : Lower Operand} (h : Keeps env value Operand.IsScalar) :
    (Lowered.ofValue e value).Keeps env :=
  keeps_ofValues fun _ _ => .bind h fun _ ho => .pure (.cons ho areScalar_nil)

/-! ## Calls -/

/-- Variables that are copied to stack slots for a call. -/
def AreSpilled (back : List (Operand × Var)) : Prop :=
  ∀ q ∈ back, q.1.IsScalar ∧ (Operand.var q.2).IsScalar

/-- Spilled variables are written back. -/
lemma writeBack_keeps : ∀ {back : List (Operand × Var)}, AreSpilled back →
    Keeps env (writeBack back) fun _ => True
  | [], _ => .pure trivial
  | (slot, v) :: back, h => by
    obtain ⟨⟨hs, hv⟩, hback⟩ := List.forall_mem_cons.1 h
    refine .define (fun r hr => ⟨⟨?_, by simp [Instr.fresh], Layouts.leads_none _⟩, rfl⟩)
      fun r hr => .bind (move_keeps hv (isScalar_reg hr hv)) fun _ _ => writeBack_keeps hback
    simpa [Instr.operands] using ⟨isScalar_reg hr hv, hs⟩

/-- An argument is a scalar, like what it spills. -/
lemma argument_keeps (a : Param) (hx : x.Keeps env) :
    Keeps env (argument a x) fun q => q.1.IsScalar ∧ AreSpilled q.2 := by
  unfold argument
  split
  · exact .bind hx.object fun q hq => .bind (address_keeps hq) fun o ho =>
      .pure ⟨ho, List.forall_mem_nil _⟩
  · split
    · refine .bind hx.place fun q hq => ?_
      split
      · refine .bind (.bind (.newSlot ..) fun s hs => .bind (store_keeps hs
          (Layouts.leads_none _) hq) fun _ _ => .pure hs) fun s hs => .pure ⟨hs, ?_⟩
        simpa [AreSpilled] using ⟨hs, hq⟩
      · exact .bind (address_keeps hq) fun o ho => .pure ⟨ho, List.forall_mem_nil _⟩
    · exact .bind hx.value fun o ho => .pure ⟨ho, List.forall_mem_nil _⟩

/-- Arguments are scalars, like what they spill. -/
lemma arguments_keeps : ∀ (as : List Param) {xs : List Lowered}, (∀ x ∈ xs, x.Keeps env) →
    Keeps env (arguments as xs) fun q => AreScalar q.1 ∧ AreSpilled q.2
  | [], _, _ => .pure ⟨areScalar_nil, List.forall_mem_nil _⟩
  | _ :: _, [], _ => .fails (Fails.throw _)
  | a :: as, x :: xs, h => by
    obtain ⟨hx, hxs⟩ := List.forall_mem_cons.1 h
    exact .bind (argument_keeps a hx) fun q hq => .bind (arguments_keeps as hxs) fun r hr =>
      .pure ⟨.cons hq.1 hr.1, List.forall_mem_append.2 ⟨hq.2, hr.2⟩⟩

/-- **Reserved registers**: no code was added, and the operands are new registers. -/
structure Reserves (b b' : Builder) (outs : List Operand) : Prop where
  code_eq : b'.code = b.code
  regs_le : b.regs ≤ b'.regs
  isScalar : b.IsScalar → b'.IsScalar
  outs_scalar : AreScalar outs
  outs_regs : ∀ o ∈ outs, ∃ r, o = .reg r
  regs_new : ∀ r ∈ outs.filterMap Operand.reg?, b.regs < r.id ∧ r.id ≤ b'.regs
  regs_nodup : ((outs.filterMap Operand.reg?).map Reg.id).Nodup

/-- Nothing is reserved. -/
lemma Reserves.nil {b b' : Builder} (hc : b'.code = b.code) (hr : b'.regs = b.regs)
    (hl : b'.locals = b.locals) : Reserves b b' [] :=
  ⟨hc, Nat.le_of_eq hr.symm, fun h => by unfold Builder.IsScalar; rwa [hl], areScalar_nil, nofun,
    nofun, by simp⟩

/-- Something else was done before. -/
lemma Reserves.of_nil {b b' b'' : Builder} {outs : List Operand} (h : Reserves b b' [])
    (h' : Reserves b' b'' outs) : Reserves b b'' outs where
  code_eq := h'.code_eq.trans h.code_eq
  regs_le := Nat.le_trans h.regs_le h'.regs_le
  isScalar := h'.isScalar ∘ h.isScalar
  outs_scalar := h'.outs_scalar
  outs_regs := h'.outs_regs
  regs_new r hr := (h'.regs_new r hr).imp_left (Nat.lt_of_le_of_lt h.regs_le)
  regs_nodup := h'.regs_nodup

/-- One more register was reserved before. -/
lemma Reserves.cons {b b' : Builder} {outs : List Operand} {t : VType} (ht : t.lanes = 0)
    (h : Reserves { b with regs := b.regs + 1 } b' outs) :
    Reserves b b' (.reg ⟨b.regs + 1, t⟩ :: outs) where
  code_eq := h.code_eq
  regs_le := Nat.le_trans (Nat.le_succ _) h.regs_le
  isScalar := h.isScalar
  outs_scalar := .cons ht h.outs_scalar
  outs_regs := List.forall_mem_cons.2 ⟨⟨_, rfl⟩, h.outs_regs⟩
  regs_new := by
    have hle : b.regs + 1 ≤ b'.regs := h.regs_le
    refine List.forall_mem_cons.2 ⟨⟨Nat.lt_succ_self _, hle⟩, fun r hr => ?_⟩
    exact (h.regs_new r hr).imp_left Nat.lt_of_succ_lt
  regs_nodup := by
    refine List.nodup_cons.2 ⟨fun hmem => ?_, h.regs_nodup⟩
    obtain ⟨r, hr, he⟩ := List.mem_map.1 hmem
    have h1 : b.regs + 1 < r.id := (h.regs_new r hr).1
    have h2 : r.id = b.regs + 1 := he
    omega

/-- A slot is made without code. -/
lemma slotFor_reserves {name : String} {t : Ty} {b b' : Builder}
    (h : ((slotFor name t).run env).run b = .ok (o, b')) : Reserves b b' [] ∧ o.IsScalar := by
  obtain ⟨s, b₁, hsize, h⟩ := of_run_bind h
  have hb : b₁ = b := by
    unfold sizeOf at hsize
    split at hsize
    · obtain ⟨env', b₂, hread, hsize⟩ := of_run_bind hsize
      obtain ⟨rfl, rfl⟩ := Prod.mk.inj (Except.ok.inj hread)
      split at hsize
      · exact (Prod.mk.inj (Except.ok.inj hsize)).2.symm
      · cases hsize
    · exact (Prod.mk.inj (Except.ok.inj hsize)).2.symm
    · exact (Prod.mk.inj (Except.ok.inj hsize)).2.symm
  obtain ⟨env', b₂, hread, h⟩ := of_run_bind h
  obtain ⟨rfl, rfl⟩ := Prod.mk.inj (Except.ok.inj hread)
  obtain ⟨rfl, rfl⟩ := Prod.mk.inj (Except.ok.inj h)
  exact ⟨.nil (by rw [hb]) (by rw [hb]) (by rw [hb]), rfl⟩

/-- Results that are returned are in reserved registers. -/
lemma resultStorage_reserves {dests : List (Option Operand)} (hd : AreGiven dests) :
    ∀ (rs : List Param) {n : Nat} {b b' : Builder}
      {q : List Operand × List Operand × List Operand},
      ((resultStorage dests n rs).run env).run b = .ok (q, b') →
      Reserves b b' q.2.2 ∧ AreScalar q.1 ∧ AreScalar q.2.1
  | [], _, _, _, _, h => by
    obtain ⟨rfl, rfl⟩ := Prod.mk.inj (Except.ok.inj h)
    exact ⟨.nil rfl rfl rfl, areScalar_nil, areScalar_nil⟩
  | r :: rs, n, b, b', q, h => by
    unfold resultStorage at h
    split at h
    · -- A result that is passed by address.
      have hidden : ∀ {a : Operand} {b₁ : Builder}, Reserves b b₁ [] → a.IsScalar →
          ((do
            let q ← resultStorage dests (n + 1) rs
            return (a :: q.1, a :: q.2.1, q.2.2) : Lower _).run env).run b₁ = .ok (q, b') →
          Reserves b b' q.2.2 ∧ AreScalar q.1 ∧ AreScalar q.2.1 := by
        intro a b₁ hb ha h
        obtain ⟨q', b₂, hrest, h⟩ := of_run_bind h
        obtain ⟨hres, h1, h2⟩ := resultStorage_reserves hd rs hrest
        obtain ⟨rfl, rfl⟩ := Prod.mk.inj (Except.ok.inj h)
        exact ⟨hb.of_nil hres, .cons ha h1, .cons ha h2⟩
      dsimp only at h
      split at h
      · rename_i d hdest
        exact hidden (.nil rfl rfl rfl) (hd _ (List.mem_of_getElem? hdest)) h
      · obtain ⟨a, b₁, ha, h⟩ := of_run_bind h
        obtain ⟨hb, ha⟩ := slotFor_reserves ha
        exact hidden hb ha h
    · obtain ⟨a, b₁, ha, h⟩ := of_run_bind h
      obtain ⟨rfl, rfl⟩ := Prod.mk.inj (Except.ok.inj ha)
      obtain ⟨q', b₂, hrest, h⟩ := of_run_bind h
      obtain ⟨hres, h1, h2⟩ := resultStorage_reserves hd rs hrest
      obtain ⟨rfl, rfl⟩ := Prod.mk.inj (Except.ok.inj h)
      exact ⟨hres.cons (lanes_code _), .cons (lanes_code _) h1, h2⟩

/-- **A call** returns values in registers of its own. -/
lemma call_keeps (s : Signature) (decl : Option FuncDecl) {self : Lower (List Operand)}
    {xs : List Lowered} {dests : List (Option Operand)} (hself : Keeps env self AreScalar)
    (hxs : ∀ x ∈ xs, x.Keeps env) (hd : AreGiven dests) :
    Keeps env (call s decl self xs dests) fun q => AreScalar q.1 ∧ AreScalar q.2 := by
  unfold call
  split
  · exact .fails (Fails.bug _)
  · rename_i d
    refine .bind hself fun ss hss => .bind (arguments_keeps s.params hxs) fun q hq => ⟨?_⟩
    intro b a b' hb hrun
    obtain ⟨r, b₁, hres, hrun⟩ := of_run_bind hrun
    obtain ⟨hres, hresults, hhidden⟩ := resultStorage_reserves hd s.results hres
    have back : ∀ {b₂ : Builder} {is : List Instr}, Adds env b b₂ is →
        ((do
          writeBack q.2
          return (ss, r.1) : Lower _).run env).run b₂ = .ok (a, b') →
        (∃ is, Adds env b b' is) ∧ AreScalar a.1 ∧ AreScalar a.2 := by
      intro b₂ is his hrun
      have hkeeps : Keeps env (do
          writeBack q.2
          return (ss, r.1)) fun q => AreScalar q.1 ∧ AreScalar q.2 :=
        .bind (writeBack_keeps hq.2) fun _ _ => .pure ⟨hss, hresults⟩
      obtain ⟨⟨js, hjs⟩, ha⟩ := hkeeps.of_run b₂ a b' (his.isScalar hb) hrun
      exact ⟨⟨is ++ js, his.trans hjs⟩, ha⟩
    dsimp only at hrun
    split at hrun
    · obtain ⟨_, b₂, hemit, hrun⟩ := of_run_bind hrun
      obtain ⟨-, rfl⟩ := Prod.mk.inj (Except.ok.inj hemit)
      let i : Instr := .call d (ss ++ q.1 ++ r.2.1) r.2.2
      have hi : Regular env.layouts i :=
        ⟨((hss.append hq.1).append hhidden).append hres.outs_scalar, hres.outs_regs,
          Layouts.leads_none _⟩
      have hadds : Adds env b { b₁ with code := b₁.code ++ [i] } [i] :=
        .emit hi (by rw [hres.code_eq]) hres.regs_le hres.regs_new hres.regs_nodup hres.isScalar
      exact back hadds hrun
    · exact back (.nil hres.code_eq hres.regs_le hres.isScalar) hrun

/-- A member function is called. -/
lemma callMember_keeps (f : MemberFunction) {self : Lower (List Operand)} {xs : List Lowered}
    {dests : List (Option Operand)} (hself : Keeps env self AreScalar)
    (hxs : ∀ x ∈ xs, x.Keeps env) (hd : AreGiven dests) :
    Keeps env (callMember f self xs dests) fun q => AreScalar q.1 ∧ AreScalar q.2 :=
  .read (call_keeps f.sig _ hself hxs hd)

/-- A routine is called. -/
lemma callRoutine_keeps (f : MemberFunction) {xs : List Lowered} {dests : List (Option Operand)}
    (hxs : ∀ x ∈ xs, x.Keeps env) (hd : AreGiven dests) :
    Keeps env (callRoutine f xs dests) AreScalar := by
  have hself : Keeps env (if f.hasSelf then bug (f.qualifiedName ++ " called without an instance")
      else return []) AreScalar := by
    split
    · exact .fails (Fails.bug _)
    · exact .pure areScalar_nil
  exact .bind (callMember_keeps f hself hxs hd) fun _ hq => .pure hq.2

/-- A create is called. -/
lemma callCreate_keeps (f : MemberFunction) {xs : List Lowered} {dests : List (Option Operand)}
    (hxs : ∀ x ∈ xs, x.Keeps env) (hd : AreGiven dests) :
    Keeps env (callCreate f xs dests) AreScalar := by
  refine .bind (callMember_keeps f ?_ hxs hd) fun _ hq => .pure hq.1
  split
  · exact .pure (.cons (hd _ List.mem_cons_self) areScalar_nil)
  · exact .bind (slotFor_keeps ..) fun _ ho => .pure (.cons ho areScalar_nil)

/-- A scalar is converted. -/
lemma convert_keeps (k : ScalarKind) {xs : List Lowered} (hxs : ∀ x ∈ xs, x.Keeps env) :
    Keeps env (convert k xs) AreScalar := by
  unfold convert
  split
  · exact .bind (hxs _ List.mem_cons_self).value fun _ ho =>
      .bind (compute_keeps rfl (by simpa using ho)) fun _ hr => .pure (.cons hr areScalar_nil)
  · exact .fails (Fails.throw _)

/-! ## All expressions -/

/-- The place of a local is regular. -/
lemma localPlace_keeps (e : TExpr) (l : Option Local) :
    Keeps env (localPlace e l) (Place.Regular env.layouts) := by
  refine .bind (typeOf_keeps e) fun t _ => ?_
  split
  · exact .bind (storageOf_keeps _) fun s hs => .pure (Place.regular_ofStorage hs t)
  · exact .fails (Fails.bug _)

/-- The place of a member is regular. -/
lemma memberPlace_keeps (e : TExpr) (v : MemberVar) (hx : x.Keeps env) :
    Keeps env (memberPlace e x v) (Place.Regular env.layouts) := by
  refine .bind (typeOf_keeps e) fun t _ => .bind (memberOf_keeps v) fun m hm =>
    .bind (typeOf_keeps x.expr) fun u _ => ?_
  split
  · exact .bind hx.value fun o ho => .pure ⟨ho, Layouts.leads_step hm none⟩
  · exact .bind hx.object fun q hq => .pure (hq.field hm t)

/-- The place of an element is regular. -/
lemma elementPlace_keeps (e : TExpr) (hx : x.Keeps env) (hi : i.Keeps env) :
    Keeps env (elementPlace e x i) (Place.Regular env.layouts) := by
  refine .bind (typeOf_keeps e) fun t _ => .bind (typeOf_keeps x.expr) fun u _ => ?_
  split
  · refine .bind hx.object fun q hq => .bind (loadField_keeps hq (.inl rfl)) fun data hdata =>
      .bind hi.value fun n hn => .bind (sizeOf_keeps _) fun s _ => ?_
    have element : ∀ {n : Operand}, n.IsScalar → Keeps env (do
        let addr ← compute .ptrAdd .ptr [data, n]
        return .memory addr none t) (Place.Regular env.layouts) := fun hn =>
      .bind (compute_keeps rfl (by simpa using ⟨hdata, hn⟩)) fun _ ha =>
        .pure ⟨ha, Layouts.leads_none _⟩
    dsimp only
    split
    · exact .bind (.pure hn) fun _ hn => element hn
    · exact .bind (compute_keeps rfl (by simpa using ⟨hn, rfl⟩)) fun _ hn => element hn
  · exact .fails (Fails.throw _)

/-- The size of a container is a scalar. -/
lemma sizeAccess_keeps (e : TExpr) (hx : x.Keeps env) :
    Keeps env (sizeAccess e x) Operand.IsScalar := by
  refine .bind (typeOf_keeps x.expr) fun u _ => ?_
  split
  · exact .bind hx.object fun q hq => loadField_keeps hq (.inr rfl)
  · exact .fails (Fails.of_bind fun _ => Fails.bug _)

/-- An expression without a meaning. -/
lemma unresolved_keeps (e : TExpr) : (unresolved e).Keeps env :=
  keeps_ofValues fun _ _ => .fails (Fails.bug _)

/-- Constants are scalars. -/
lemma lanes_constant (l : Literal) : (constant l).type.lanes = 0 := by
  unfold constant
  cases l.value <;> rfl

mutual

/-- **The code of expressions** is regular. -/
theorem expr_keeps (env : Env) : ∀ x : TExpr, (expr x).Keeps env
  | .ident .. | .self .. => keeps_ofPlace (localPlace_keeps ..)
  | .literal _ _ l => keeps_ofValue (.pure (lanes_constant l))
  | .unary _ _ _ (some f) x =>
    have hx := expr_keeps env x
    keeps_ofValues fun _ hd => callRoutine_keeps f (by simpa using hx) hd
  | .unary _ _ _ none x =>
    have hx := expr_keeps env x
    keeps_ofValue (.bind hx.value fun _ ha => .bind (typeOf_keeps _) fun t _ =>
      compute_keeps (lanes_code t) (by simpa using ha))
  | .binary _ _ _ (some f) x y =>
    have hx := expr_keeps env x
    have hy := expr_keeps env y
    keeps_ofValues fun _ hd => callRoutine_keeps f (by simpa using ⟨hx, hy⟩) hd
  | .binary _ _ _ none x y =>
    have hx := expr_keeps env x
    have hy := expr_keeps env y
    keeps_ofValue (.bind hx.value fun _ ha => .bind hy.value fun _ hb =>
      .bind (typeOf_keeps _) fun t _ => compute_keeps (lanes_code t) (by simpa using ⟨ha, hb⟩))
  | .member _ _ x _ (some v) _ =>
    have hx := expr_keeps env x
    keeps_ofPlace (memberPlace_keeps _ v hx)
  | .member _ _ x _ none _ =>
    have hx := expr_keeps env x
    keeps_ofValue (sizeAccess_keeps _ hx)
  | .index _ _ x i =>
    have hx := expr_keeps env x
    have hi := expr_keeps env i
    keeps_ofPlace (elementPlace_keeps _ hx hi)
  | .deref _ _ x =>
    have hx := expr_keeps env x
    keeps_ofPlace (.bind (typeOf_keeps _) fun _ _ => .bind hx.value fun _ ho =>
      .pure ⟨ho, Layouts.leads_none _⟩)
  | .method _ _ x _ args (some f) =>
    have hx := expr_keeps env x
    have hargs := exprs_keep env args
    keeps_ofValues fun _ hd => .bind (callMember_keeps f (.bind hx.receiver fun _ ho =>
      .pure (.cons ho areScalar_nil)) hargs hd) fun _ hq => .pure hq.2
  | .routine _ _ _ _ args (some (.convert k)) =>
    have hargs := exprs_keep env args
    keeps_ofValues fun _ _ => convert_keeps k hargs
  | .routine _ _ _ _ args (some (.routine f)) =>
    have hargs := exprs_keep env args
    keeps_ofValues fun _ hd => callRoutine_keeps f hargs hd
  | .routine _ _ _ _ args (some (.construct f)) =>
    have hargs := exprs_keep env args
    keeps_ofValues fun _ hd => callCreate_keeps f hargs hd
  | .ccall _ _ _ args (some f) =>
    have hargs := exprs_keep env args
    keeps_ofValues fun _ hd => .read (.bind (call_keeps f.sig _ (.pure areScalar_nil) hargs hd)
      fun _ hq => .pure hq.2)
  | .method _ _ _ _ _ none | .routine _ _ _ _ _ none | .ccall _ _ _ _ none => unresolved_keeps _

/-- The code of several expressions is regular. -/
theorem exprs_keep (env : Env) : ∀ xs : List TExpr, ∀ y ∈ exprs xs, y.Keeps env
  | [] => List.forall_mem_nil _
  | x :: xs => List.forall_mem_cons.2 ⟨expr_keeps env x, exprs_keep env xs⟩

end

end Expressions

/-! ## Assignments -/

section Assignments

variable {env : Env} {operands : List (List Operand)} {ps : List Pair}

/-- The place of a target is regular. -/
lemma targetPlace_keeps (g : TTarget) :
    Keeps env (targetPlace g) (Place.Regular env.layouts) := by
  cases g with
  | decl _ l => exact .bind (bindLocal_keeps l) fun s hs => .pure (Place.regular_ofStorage hs _)
  | expr e => exact (expr_keeps env e).place

/-- The operands of all expressions on the right are scalars. -/
def AllScalar (operands : List (List Operand)) : Prop := ∀ os ∈ operands, AreScalar os

/-- The value of a pair is a scalar. -/
lemma valueOf_keeps (ho : AllScalar operands) (v : PairValue) :
    Keeps env (valueOf operands v) Operand.IsScalar := by
  unfold valueOf
  split
  · rename_i o hv
    refine .pure ?_
    rw [List.getD_eq_getElem?_getD] at hv
    cases h : operands[v.source]? with
    | none => simp [h] at hv
    | some os =>
      rw [h] at hv
      exact ho os (List.mem_of_getElem? h) o (List.mem_of_getElem? hv)
  · exact .fails (Fails.throw _)

/-- The values given to a function are scalars. -/
lemma givenArguments_keeps (ho : AllScalar operands) : ∀ (as : List Param) (vs : List PairValue),
    Keeps env (givenArguments operands as vs) AreScalar
  | [], [] | _ :: _, [] => .pure areScalar_nil
  | [], _ :: _ => .fails (Fails.throw _)
  | a :: as, v :: vs => by
    have rest : ∀ {o : Operand}, o.IsScalar → Keeps env (do
        return o :: (← givenArguments operands as vs)) AreScalar := fun ho' =>
      .bind (givenArguments_keeps ho as vs) fun _ hos => .pure (.cons ho' hos)
    refine .bind (valueOf_keeps ho v) fun o ho' => ?_
    dsimp only
    split
    · exact .bind (.bind (.newSlot ..) fun s hs => .bind (store_keeps hs (Layouts.leads_none _) ho')
        fun _ _ => .pure hs) fun s hs => rest hs
    · exact .bind (.pure ho') fun _ ho' => rest ho'

/-- A pair is written. -/
lemma pair_keeps (ho : AllScalar operands) (q : Pair) :
    Keeps env (pair operands q) fun _ => True := by
  have target : Keeps env (targetPlace q.target) (Place.Regular env.layouts) :=
    targetPlace_keeps q.target
  have value : ∀ v, Keeps env (valueOf operands v) Operand.IsScalar := valueOf_keeps ho
  unfold pair
  split
  · split
    · exact .bind (bindLocal_keeps _) fun _ _ => .pure trivial
    · exact .pure trivial
  · exact .pure trivial
  · exact .bind target fun _ hq => put_keeps hq (lanes_code _)
  · exact .bind target fun _ hq => .bind (value _) fun _ hv => put_keeps hq hv
  · exact .bind target fun _ hq => .bind (value _) fun _ hv => put_keeps hq hv
  · exact .bind target fun _ hq => .bind (value _) fun _ hv =>
      copyContainer_keeps hq ⟨hv, Layouts.leads_none _⟩
  · exact .bind target fun _ hq => emptyContainer_keeps hq
  · exact .bind target fun _ hq => .bind (value _) fun _ hv => allocContainer_keeps hq hv
  · exact .bind target fun _ hq => .bind (address_keeps hq) fun _ ha =>
      .bind (givenArguments_keeps ho _ _) fun _ has => invoke_keeps _ ha has
  · exact .fails (Fails.throw _)
  · exact .fails (Fails.throw _)

/-- Pairs are written. -/
lemma pairs_keep (ho : AllScalar operands) : ∀ qs : List Pair,
    Keeps env (pairs operands qs) fun _ => True
  | [] => .pure trivial
  | q :: qs => .bind (pair_keeps ho q) fun _ _ => pairs_keep ho qs

/-- The storage of new locals is given to the expressions on the right. -/
def AllGiven (dests : List (Nat × List (Option Operand))) : Prop :=
  ∀ n, AreGiven ((dests.lookup n).getD [])

/-- One more destination is given. -/
lemma AreGiven.setEntry {ds : List (Option Operand)} (h : AreGiven ds) (i : Nat) {o : Operand}
    (ho : o.IsScalar) : AreGiven (setEntry ds i o) := by
  intro d hd
  obtain hd | hd := List.mem_or_eq_of_mem_set hd
  · obtain hd | hd := List.mem_append.1 hd
    · exact h d hd
    · cases List.eq_of_mem_replicate hd
  · exact Option.some.inj hd ▸ ho

/-- The destinations of pairs are scalars. -/
lemma destinations_keep : ∀ (qs : List Pair) {dests : List (Nat × List (Option Operand))},
    AllGiven dests → Keeps env (destinations qs dests) AllGiven
  | [], _, h => .pure h
  | q :: qs, dests, h => by
    unfold destinations
    split
    · rename_i l v vs _ _ _
      refine .bind (bindLocal_keeps l) fun s hs => ?_
      split
      · refine destinations_keep qs fun n => ?_
        rw [List.lookup_cons]
        split
        · exact (h v.source).setEntry _ hs
        · exact h n
      · exact destinations_keep qs h
    · exact destinations_keep qs h

/-- Copies of scalars are scalars. -/
lemma snapshot_keeps : ∀ {os : List Operand}, AreScalar os →
    Keeps env (snapshot os) AreScalar
  | [], _ => .pure areScalar_nil
  | o :: os, h => by
    obtain ⟨ho, hos⟩ := List.forall_mem_cons.1 h
    have rest : ∀ {r : Operand}, r.IsScalar →
        Keeps env (do return r :: (← snapshot os)) AreScalar :=
      fun hr => .bind (snapshot_keeps hos) fun _ hrs => .pure (.cons hr hrs)
    cases o with
    | var v => exact .bind (compute_keeps ho (by simpa using ho)) fun _ hr => rest hr
    | _ => exact rest ho

/-- The values of an assignment are scalars. -/
lemma evaluate_keeps {dests : List (Nat × List (Option Operand))} (hd : AllGiven dests) :
    ∀ (source : Nat) (xs : List TExpr), Keeps env (evaluate ps dests source xs) AllScalar
  | _, [] => .pure (List.forall_mem_nil _)
  | source, x :: xs => by
    have copies : ∀ {os : List Operand}, AreScalar os → Keeps env (do
        let os ← if ps.length > 1 then snapshot os else pure os
        return os :: (← evaluate ps dests (source + 1) xs)) AllScalar := by
      intro os hos
      have rest : ∀ {os : List Operand}, AreScalar os → Keeps env (do
          return os :: (← evaluate ps dests (source + 1) xs)) AllScalar := fun hos =>
        .bind (evaluate_keeps hd (source + 1) xs) fun _ hrest =>
          .pure (List.forall_mem_cons.2 ⟨hos, hrest⟩)
      split
      · exact .bind (snapshot_keeps hos) fun _ hos => rest hos
      · exact .bind (.pure hos) fun _ hos => rest hos
    unfold evaluate
    dsimp only
    split
    · exact .bind (expr_keeps env x).place fun q hq => .bind (address_keeps hq) fun a ha =>
        .bind (.pure (AreScalar.cons ha areScalar_nil)) fun _ hos => copies hos
    · exact .bind ((expr_keeps env x).values _ (hd source)) fun os hos => copies hos

/-- Calls whose results are dropped. -/
lemma discard_keeps : ∀ xs : List TExpr, Keeps env (discard xs) fun _ => True
  | [] => .pure trivial
  | x :: xs => .bind ((expr_keeps env x).values [] nofun) fun _ _ => discard_keeps xs

/-- **The code of assignments** is regular. -/
theorem assign_keeps (vs : List TExpr) (ps : List Pair) (ds : List TExpr) :
    Keeps env (assign vs ps ds) fun _ => True := by
  refine .bind (discard_keeps ds) fun _ _ => .bind (destinations_keep ps nofun) fun dests hd => ?_
  have indirect : Keeps env (do
      let operands ← evaluate ps dests 0 vs
      pairs operands ps) fun _ => True :=
    .bind (evaluate_keeps hd 0 vs) fun operands ho => pairs_keep ho ps
  split
  · rename_i f g ws
    split
    · refine .bind (targetPlace_keeps g) fun q hq => .bind (address_keeps hq) fun a ha =>
        .bind (arguments_keeps f.sig.params fun x hx => ?_) fun r hr =>
        .bind (invoke_keeps f ha hr.1) fun _ _ => .bind (writeBack_keeps hr.2)
          fun _ _ => .pure trivial
      obtain ⟨v, -, hv⟩ := List.mem_filterMap.1 hx
      obtain ⟨e, -, rfl⟩ := Option.map_eq_some_iff.1 hv
      exact expr_keeps env e
    · exact indirect
  · exact indirect

end Assignments

/-! ## Statements -/

section Statements

variable {env : Env}

/-- A block of regular code. -/
lemma inBlock_keeps {m : Lower Unit} (hm : Keeps env m fun _ => True) :
    Keeps env (inBlock m) fun _ => True :=
  .get fun _ hb => .bind hm fun _ _ => .modifyGet (fun _ => ⟨rfl, rfl, fun _ => hb⟩)
    fun _ => trivial

/-- Labels and jumps are regular. -/
lemma jump_keeps {i : Instr} (h : i.operands = []) : Keeps env (emit i) fun _ => True := by
  cases i with
  | label | goto | params | results =>
    exact .emit ⟨List.forall_mem_nil _, List.forall_mem_nil _, Layouts.leads_none _⟩ rfl
  | call d ins outs =>
    obtain ⟨rfl, rfl⟩ := List.append_eq_nil_iff.1 h
    exact emitCall_keeps d (List.forall_mem_nil _)
  | _ => cases h

/-- A branch on a scalar. -/
lemma branch_keeps {c : Operand} (hc : c.IsScalar) (yes no : Label) :
    Keeps env (emit (.branch c yes no)) fun _ => True :=
  .emit ⟨by simpa [Instr.operands] using hc, by simp [Instr.fresh], Layouts.leads_none _⟩ rfl

mutual

/-- **The code of statements** is regular. -/
theorem statement_keeps (env : Env) (flow : Option Flow) : ∀ s : TStmt,
    Keeps env (statement flow s) fun _ => True
  | .assign .. => assign_keeps ..
  | .ifThen _ c _ b =>
    .bind (expr_keeps env c).value fun _ hc => .bind (.newLabel _) fun _ _ =>
      .bind (.newLabel _) fun _ _ => .bind (branch_keeps hc ..) fun _ _ =>
      .bind (jump_keeps rfl) fun _ _ =>
      .bind (inBlock_keeps (statements_keep env flow b)) fun _ _ =>
      jump_keeps rfl
  | .ifElse _ c _ b _ o =>
    .bind (expr_keeps env c).value fun _ hc => .bind (.newLabel _) fun _ _ =>
      .bind (.newLabel _) fun _ _ => .bind (.newLabel _) fun _ _ =>
      .bind (branch_keeps hc ..) fun _ _ => .bind (jump_keeps rfl) fun _ _ =>
      .bind (inBlock_keeps (statements_keep env flow b)) fun _ _ =>
      .bind (jump_keeps rfl) fun _ _ =>
      .bind (jump_keeps rfl) fun _ _ =>
      .bind (inBlock_keeps (statements_keep env flow o)) fun _ _ =>
      jump_keeps rfl
  | .whileLoop _ c _ b =>
    .bind (.newLabel _) fun _ _ => .bind (.newLabel _) fun _ _ => .bind (.newLabel _) fun _ _ =>
      .bind (jump_keeps rfl) fun _ _ => .bind (expr_keeps env c).value fun _ hc =>
      .bind (branch_keeps hc ..) fun _ _ => .bind (jump_keeps rfl) fun _ _ =>
      .bind (inBlock_keeps (statements_keep env _ b)) fun _ _ => .bind (jump_keeps rfl) fun _ _ =>
      jump_keeps rfl
  | .repeatUntil _ _ b c => by
    refine .bind (.newLabel _) fun loop _ => .bind (.newLabel _) fun out _ =>
      .bind (.newLabel _) fun next _ => .bind (jump_keeps rfl) fun _ _ => ?_
    refine .bind (inBlock_keeps (.bind (statements_keep env _ b) fun _ _ => ?_)) fun _ _ =>
      jump_keeps rfl
    have cond : Keeps env (do
        let c ← (expr c).value
        emit (.branch c out loop)) fun _ => True :=
      .bind (expr_keeps env c).value fun _ hc => branch_keeps hc ..
    split
    · exact .bind (jump_keeps rfl) fun _ _ => cond
    · exact cond
  | .block _ _ b => inBlock_keeps (statements_keep env flow b)
  | .ret _ => jump_keeps rfl
  | .brk _ => .bind (.need fun _ _ => trivial) fun _ (_ : True) => jump_keeps rfl
  | .cont _ => .bind (.need fun _ _ => trivial) fun _ (_ : True) => jump_keeps rfl

/-- The code of several statements is regular. -/
theorem statements_keep (env : Env) (flow : Option Flow) : ∀ ss : List TStmt,
    Keeps env (statements flow ss) fun _ => True
  | [] => .pure trivial
  | s :: ss => .bind (statement_keeps env flow s) fun _ _ => statements_keep env flow ss

end

end Statements

/-! ## Functions -/

section Functions

variable {env : Env}

/-- The same is done for each element of a list. -/
lemma forM_keeps {α : Type} {g : α → Lower Unit} (h : ∀ a, Keeps env (g a) fun _ => True) :
    ∀ l : List α, Keeps env (l.forM g) fun _ => True
  | [] => .pure trivial
  | a :: l => .bind (h a) fun _ _ => forM_keeps h l

/-- Variables for scalars. -/
def AreVars (os : List Operand) : Prop := ∀ o ∈ os, o.IsScalar ∧ ∃ v, o = .var v

/-- Lists of variables in sequence. -/
lemma AreVars.append {os ps : List Operand} (ho : AreVars os) (hp : AreVars ps) :
    AreVars (os ++ ps) :=
  List.forall_mem_append.2 ⟨ho, hp⟩

/-- A variable is made for each element of a list. -/
lemma mapM_keeps {α : Type} {g : α → Lower Operand}
    (h : ∀ a, Keeps env (g a) fun o => o.IsScalar ∧ ∃ v, o = .var v) :
    ∀ l : List α, Keeps env (l.mapM g) AreVars
  | [] => .pure (List.forall_mem_nil _)
  | a :: l => by
    rw [List.mapM_cons]
    exact .bind (h a) fun _ ho => .bind (mapM_keeps h l) fun _ hos =>
      .pure (List.forall_mem_cons.2 ⟨ho, hos⟩)

/-- What is passed by address comes in a variable. -/
lemma bindAddress_keeps (a : Param) :
    Keeps env (bindAddress a) fun o => o.IsScalar ∧ ∃ v, o = .var v :=
  .bind (.newVar _ rfl) fun v hv => .bind (.setStorage _ hv) fun _ _ => .pure ⟨hv, v, rfl⟩

/-- What is passed by value comes in a variable. -/
lemma bindValue_keeps (a : Param) :
    Keeps env (bindValue a) fun o => o.IsScalar ∧ ∃ v, o = .var v :=
  .bind (.newVar _ (lanes_code _)) fun v hv => .bind (.setStorage _ hv) fun _ _ =>
  .pure ⟨hv, v, rfl⟩

/-- The place of a parameter is regular. -/
lemma paramPlace_keeps (a : Param) : Keeps env (paramPlace a) (Place.Regular env.layouts) := by
  refine .get fun b hb => ?_
  split
  · exact .pure (Place.regular_ofStorage (isScalar_of_lookup hb ‹_›) _)
  · exact .fails (Fails.throw _)

/-- A parameter is copied. -/
lemma ownCopy_keeps (a : Param) : Keeps env (ownCopy a) fun _ => True :=
  .bind (paramPlace_keeps a) fun _ hq => .bind (slotFor_keeps ..) fun _ ho =>
    .bind (copyValue_keeps ⟨ho, Layouts.leads_none _⟩ hq) fun _ _ => .setStorage _ ho

/-- The prologue makes variables for parameters and results. -/
lemma prologue_keeps (f : MemberFunction) :
    Keeps env (prologue f) fun q => AreVars q.1 ∧ AreVars q.2 := by
  have rest : ∀ {self : List Operand}, AreVars self → Keeps env (do
      let ins ← f.sig.params.mapM fun p =>
        if isByAddress p.type then bindAddress p else bindValue p
      let hidden ← f.sig.hiddenResults.mapM bindAddress
      let outs ← f.sig.valueResults.mapM bindValue
      (f.sig.params.filter fun p => !p.type.isAtomic && p.type.modifier == .var).forM ownCopy
      f.sig.hiddenResults.forM fun p => do defaultValue (← paramPlace p)
      return (self ++ ins ++ hidden, outs)) fun q => AreVars q.1 ∧ AreVars q.2 := by
    intro self hself
    refine .bind (mapM_keeps (fun a => ?_) _) fun ins hins =>
      .bind (mapM_keeps bindAddress_keeps _) fun hidden hhidden =>
      .bind (mapM_keeps bindValue_keeps _) fun outs houts =>
      .bind (forM_keeps ownCopy_keeps _) fun _ _ =>
      .bind (forM_keeps (fun a => .bind (paramPlace_keeps a) fun _ hq => defaultValue_keeps hq) _)
        fun _ _ => .pure ⟨(hself.append hins).append hhidden, houts⟩
    split
    · exact bindAddress_keeps a
    · exact bindValue_keeps a
  unfold prologue
  split
  · refine .bind (.newVar _ rfl) fun v hv => .bind (.setStorage _ hv) fun _ _ =>
      .bind (R := AreVars) (.pure ?_) fun _ hself => rest hself
    simpa [AreVars] using hv
  · exact .bind (R := AreVars) (.pure (List.forall_mem_nil _)) fun _ hself => rest hself

/-- The code of generated functions. -/
lemma generated_keeps (f : MemberFunction) : Keeps env (generated f) fun _ => True := by
  refine .get fun b hb => ?_
  cases hself : b.locals.lookup f.selfId with
  | none => exact .fails (Fails.bind (Fails.throw _))
  | some s =>
    simp only [pure_bind]
    have hself := Place.regular_ofStorage (l := env.layouts) (isScalar_of_lookup hb hself)
      (.ofClass f.cls)
    refine .read ?_
    split
    · exact forM_keeps (fun v => .bind (memberOf_keeps v) fun m hm =>
        defaultValue_keeps (hself.field hm v.type)) _
    · refine .bind (paramPlace_keeps _) fun other ho => forM_keeps (fun v => ?_) _
      refine .bind (memberOf_keeps v) fun m hm => ?_
      split
      · exact assignValue_keeps (hself.field hm v.type) (ho.field hm v.type)
      · exact copyValue_keeps (hself.field hm v.type) (ho.field hm v.type)
    · exact .fails (Fails.throw _)

/-- The code of a function is regular. -/
lemma build_keeps (e : Elaborated) (f : MemberFunction) :
    Keeps env (build e f) fun q => AreVars q.1 ∧ AreVars q.2 := by
  have body : Keeps env (bodyOf e f) fun _ => True := by
    unfold bodyOf
    split
    · exact generated_keeps f
    · exact statements_keep env none _
  exact .bind (prologue_keeps f) fun _ hq => .bind body fun _ _ => .pure hq

end Functions

end Lane.Lowering

namespace Lane.Code

open Lowering

/-- **Functions of regular code**: no register is assigned twice, not by calls either. -/
structure Function.Regular (l : Layouts) (f : Function) : Prop where
  instrs : ∀ i ∈ f.instrs, Lowering.Regular l i
  regs_nodup : ((f.instrs.flatMap Instr.defines).map Reg.id).Nodup
  params_vars : AreVars f.params
  results_vars : AreVars f.results

/-- The instructions of a body stand at the front of those that the frame was put around. -/
lemma Function.instrs_isPrefix {f : Function} {code : List Instr} (hf : f.body = frame code) :
    f.instrs <+: code := by
  unfold instrs
  rw [hf]
  have hdrop : ((frame code).dropWhile fun i => !i.isParams).drop 1 =
      code ++ [.label .epilogue, .results] := rfl
  rw [hdrop]
  clear hf hdrop
  induction code with
  | nil => simp [Instr.isLabelOf]
  | cons i code ih =>
    rw [List.cons_append, List.takeWhile_cons]
    split
    · exact List.cons_prefix_cons.2 ⟨rfl, ih⟩
    · exact List.nil_prefix

/-- The instruction that assigns a register. -/
lemma Function.Regular.eq_of_defines {l : Layouts} {f : Function} (h : f.Regular l) {i j : Instr}
    (hi : i ∈ f.instrs) (hj : j ∈ f.instrs) {r : Reg} (hr : r ∈ i.defines) (hr' : r ∈ j.defines) :
    i = j := by
  have hnodup := (List.Nodup.of_map _ h.regs_nodup)
  rw [List.nodup_flatMap] at hnodup
  by_contra hne
  have : Std.Symm fun i j : Instr => List.Disjoint i.defines j.defines :=
    ⟨fun _ _ h _ ha hb => h hb ha⟩
  exact hnodup.2.forall hi hj hne hr hr'

end Lane.Code

namespace Lane.Lowering

open Code

/-- **The code of functions** is regular. -/
theorem regular_of_function {env : Env} {e : Elaborated} {f : MemberFunction} {fn : Function}
    (h : function env e f = .ok fn) : fn.Regular env.layouts := by
  obtain ⟨q, b, hrun, rfl⟩ := of_function_eq_ok h
  obtain ⟨⟨is, his⟩, hps, hrs⟩ := (build_keeps e f).of_run {} q b (List.forall_mem_nil _) hrun
  obtain rfl : b.code = is := his.code_eq
  obtain ⟨tail, htail⟩ := Function.instrs_isPrefix (f := ⟨env.current, q.1, q.2, b.vars, b.slots,
    Function.frame b.code⟩) rfl
  refine ⟨fun i hi => his.regular i (htail ▸ List.mem_append_left _ hi), ?_, hps, hrs⟩
  have hnodup := his.regs_nodup
  rw [← htail, List.flatMap_append, List.map_append] at hnodup
  exact hnodup.of_append_left

end Lane.Lowering
