import Lane.Proofs.Calls.Expr
import Lane.Proofs.Lowering.Program
import Lane.Proofs.Protection.Program

set_option relaxedAutoImplicit false
set_option autoImplicit false

/-!
# Calls that programs emit

The calls in the code of an accepted program: those of the opening of a function, which constructs
results and copies parameters, and those of the call sites in its body, each of them once and in
order. No call is made twice, and none is lost but those in expression statements that are no calls
by their form.

## Main definitions

* `Lane.Lowering.openingSites`: what the opening of a function constructs.
* `Lane.Lowering.functionSites`: the call sites of a function.

## Main results

* `Lane.Lowering.assign_makes`, `Lane.Lowering.statement_makes`: statements emit their calls.
* `Lane.Accepted.callees_eq`: which calls the functions of accepted programs make.
-/

namespace Lane

open Code

section Direct

variable {p : Program} {Γ : List Local} {vs ds : List TExpr}

/-- The first results of the expressions on the right are in the order of the expressions. -/
lemma filterMap_resultsFrom : ∀ {source : Nat} {xs : List TExpr}, vs.drop source = xs →
    (∀ x ∈ xs, x.types ≠ []) → (∀ v ∈ resultsFrom source xs, v.result = 0) →
    (resultsFrom source xs).filterMap (fun v => vs[v.source]?) = xs
  | _, [], _, _, _ => rfl
  | source, x :: xs, hxs, htypes, hfirst => by
    obtain ⟨hx, htypes⟩ := List.forall_mem_cons.1 htypes
    obtain ⟨t, ht⟩ : ∃ t, x.types = [t] := by
      match h : x.types with
      | [] => exact absurd h hx
      | [t] => exact ⟨t, rfl⟩
      | t :: u :: ts =>
        -- A second value would have the number one.
        have hsecond := hfirst ⟨source, x.pos, 1, u⟩ (by simp [resultsFrom, h])
        cases hsecond
    have hsource : vs[source]? = some x := by rw [← List.head?_drop, hxs, List.head?_cons]
    have hrest : vs.drop (source + 1) = xs := by
      rw [← List.drop_drop, hxs, List.drop_one, List.tail_cons]
    have ih := filterMap_resultsFrom hrest htypes fun v hv =>
      hfirst v (List.mem_append_right _ hv)
    simp [resultsFrom, ht, hsource, ih]

/-- The expressions on the right are the arguments of a create or assign that takes them
directly. -/
lemma AssignTyped.filterMap_eq {q : Pair} (ha : AssignTyped p Γ vs [q] ds)
    (hall : ∀ v ∈ q.values, v.result = 0) : q.values.filterMap (fun v => vs[v.source]?) = vs := by
  have hvalues : q.values = resultsFrom 0 vs := by simpa using ha.values_eq
  rw [hvalues]
  exact filterMap_resultsFrom rfl (fun x hx => (ha.values_typed x hx).2) (hvalues ▸ hall)

end Direct

namespace Lowering

variable {env : Env} {p : Program} {Γ D : List Local} {ss : List CallSite} {vs : List TExpr}
  {ps : List Pair} {ds : List TExpr}

/-! ## Pairs -/

/-- A target makes the calls of its expression. -/
lemma targetPlace_makes {g : TTarget} {t : Ty} (hg : g.Typed p Γ D t) :
    Makes env (targetPlace g) (CallSite.ofExprs g.expr?.toList) fun _ => True := by
  cases hg with
  | decl => exact ((bindLocal_noCalls _).map _).makes
  | expr hx => exact (expr_makes hx).place

/-- A value on the right was evaluated before, so that it makes no calls. -/
lemma valueOf_noCalls (operands : List (List Operand)) (v : PairValue) :
    NoCalls env (valueOf operands v) := by
  unfold valueOf
  split
  · exact .pure _
  · exact .fails (Fails.throw _)

/-- The arguments of a create or an assign make no calls. -/
lemma givenArguments_noCalls (operands : List (List Operand)) :
    ∀ (as : List Param) (vs : List PairValue), NoCalls env (givenArguments operands as vs)
  | as, [] => by
    unfold givenArguments
    exact .pure _
  | [], _ :: _ => .fails (Fails.throw _)
  | a :: as, v :: vs => by
    refine .bind (valueOf_noCalls operands v) fun o => ?_
    have rest : ∀ o, NoCalls env (do return o :: (← givenArguments operands as vs)) :=
      fun o => .map (givenArguments_noCalls operands as vs) _
    split
    · refine .bind (?_ : NoCalls env (spillValue o)) rest
      exact .bind (.newSlot ..) fun _ => .bind (.emit rfl) fun _ => .pure _
    · exact .bind (.pure _) rest

/-- A pair emits the calls in its target, and its own. -/
lemma pair_makes (operands : List (List Operand)) {q : Pair} (hq : q.Typed p Γ D vs) :
    Makes env (pair operands q) q.sites fun _ => True := by
  -- All but creates and assigns call nothing themselves.
  have target : ∀ {g : TTarget} {t : Ty} {k : PairKind} {vs : List PairValue}
      {m : Place → Lower Unit}, g.Typed p Γ D t → (∀ f, k ≠ .user f) →
      (∀ dst, NoCalls env (m dst)) →
      Makes env (targetPlace g >>= m) (Pair.sites ⟨k, g, vs⟩) fun _ => True := by
    intro g t k vs m hg hk hm
    refine ((targetPlace_makes hg).noCalls hm).congr ?_
    cases k with
    | user f => exact absurd rfl (hk f)
    | _ => simp [Pair.sites, Pair.targetSites, Pair.ownSites, Pair.place?_eq]
  unfold pair
  cases hq with
  | zero hg => exact target hg (by simp) fun dst => put_noCalls ..
  | copy hg | address hg =>
    exact target hg (by simp) fun dst => .bind (valueOf_noCalls ..) fun _ => put_noCalls ..
  | containerCopy hg =>
    exact target hg (by simp) fun dst => .bind (valueOf_noCalls ..) fun _ =>
      copyContainer_noCalls ..
  | containerEmpty hg => exact target hg (by simp) fun dst => emptyContainer_noCalls _
  | containerAlloc hg =>
    exact target hg (by simp) fun dst => .bind (valueOf_noCalls ..) fun _ =>
      allocContainer_noCalls ..
  | user hg =>
    rw [Pair.sites, Pair.targetSites, Pair.place?_eq]
    refine .bind (targetPlace_makes hg) fun _ _ => (address_noCalls _).seq fun _ =>
      (givenArguments_noCalls ..).seq fun _ => invoke_makes ..
  | initializedByCaller => exact .pure trivial

/-- Pairs make their calls in order. -/
lemma pairs_makes (operands : List (List Operand)) : ∀ {qs : List Pair},
    (∀ q ∈ qs, q.Typed p Γ D vs) →
    Makes env (pairs operands qs) (qs.flatMap Pair.sites) fun _ => True
  | [], _ => .pure trivial
  | q :: qs, h => by
    obtain ⟨hq, hqs⟩ := List.forall_mem_cons.1 h
    exact .bind (pair_makes operands hq) fun _ _ => pairs_makes operands hqs

/-! ## Assignments -/

/-- Destinations of pairs make no calls. -/
lemma destinations_noCalls : ∀ (qs : List Pair) (dests : List (Nat × List (Option Operand))),
    NoCalls env (destinations qs dests)
  | [], _ => .pure _
  | q :: qs, dests => by
    unfold destinations
    split
    · refine .bind (bindLocal_noCalls _) fun s => ?_
      split <;> exact destinations_noCalls qs _
    · exact destinations_noCalls qs dests

/-- A snapshot makes no calls. -/
lemma snapshot_noCalls : ∀ os : List Operand, NoCalls env (snapshot os)
  | [] => .pure _
  | o :: os => by
    cases o with
    | var v => exact .bind (compute_noCalls ..) fun _ => .map (snapshot_noCalls os) _
    | _ => exact .map (snapshot_noCalls os) _

/-- The expressions on the right emit their calls, whether as values or as places. -/
lemma evaluate_makes (dests : List (Nat × List (Option Operand))) :
    ∀ (source : Nat) {xs : List TExpr}, (∀ x ∈ xs, x.Typed p Γ) →
    Makes env (evaluate ps dests source xs) (CallSite.ofExprs xs) fun _ => True
  | _, [], _ => .pure trivial
  | source, x :: xs, h => by
    obtain ⟨hx, hxs⟩ := List.forall_mem_cons.1 h
    have hx : (expr x).Makes env (CallSite.ofExprs [x]) := expr_makes hx
    have copies : ∀ os, Makes env (do
        let os ← if ps.length > 1 then snapshot os else pure os
        return os :: (← evaluate ps dests (source + 1) xs)) (CallSite.ofExprs xs)
          fun _ => True := by
      intro os
      have rest : ∀ os, Makes env (do return os :: (← evaluate ps dests (source + 1) xs))
          (CallSite.ofExprs xs) fun _ => True :=
        fun os => (evaluate_makes dests (source + 1) hxs).noCalls fun _ => .pure _
      split
      · exact (snapshot_noCalls os).seq rest
      · exact (NoCalls.pure os).seq rest
    rw [CallSite.ofExprs_cons]
    unfold evaluate
    dsimp only
    split
    · exact .bind hx.place fun q _ => (address_noCalls q).seq fun a => (NoCalls.pure [a]).seq copies
    · exact .bind (hx.values _) fun os _ => copies os

/-- Values that nothing takes are evaluated in order. -/
lemma discard_makes : ∀ {xs : List TExpr}, (∀ x ∈ xs, x.Typed p Γ) →
    Makes env (discard xs) (CallSite.ofExprs xs) fun _ => True
  | [], _ => .pure trivial
  | x :: xs, h => by
    obtain ⟨hx, hxs⟩ := List.forall_mem_cons.1 h
    rw [CallSite.ofExprs_cons]
    exact .bind ((expr_makes hx).values []) fun _ _ => discard_makes hxs

/-- A create or assign that takes its arguments directly emits the calls in its target, those in its
arguments, and its own. -/
lemma direct_makes {f : MemberFunction} {g : TTarget} {ws : List PairValue}
    (ha : AssignTyped p Γ vs [⟨.user f, g, ws⟩] ds) (hall : ws.all fun v => v.result == 0) :
    Makes env (do
      let self ← address (← targetPlace g)
      let (args, back) ← arguments f.sig.params (ws.filterMap fun v => vs[v.source]?.map expr)
      invoke f self args
      writeBack back
      return) ([⟨.user f, g, ws⟩].flatMap Pair.targetSites ++ CallSite.ofExprs vs ++
        [⟨.user f, g, ws⟩].flatMap Pair.ownSites) fun _ => True := by
  have hpair := ha.pairs_typed _ (List.mem_singleton_self _)
  have hargs : ws.filterMap (fun v => vs[v.source]?) = vs := ha.filterMap_eq (by simpa using hall)
  rw [← List.map_filterMap, hargs, ← exprs_eq_map]
  cases hpair with
  | user hg _ _ hcs =>
    have hlen : f.sig.params.length = vs.length := by
      have hdirect := ha.direct rfl (by simpa using hall) (List.Subset.refl ws)
      rw [hcs.length_eq, hdirect.length_eq, hargs]
    have htarget : [Pair.mk (.user f) g ws].flatMap Pair.targetSites =
        CallSite.ofExprs g.expr?.toList := by simp [Pair.targetSites, Pair.place?_eq]
    rw [List.append_assoc, htarget]
    exact .bind (targetPlace_makes hg) fun _ _ => (address_noCalls _).seq fun self =>
      .bind (arguments_makes hlen fun x hx => expr_makes (ha.values_typed x hx).1) fun q _ =>
      (invoke_makes f self q.1).noCalls fun _ => .bind (writeBack_noCalls _) fun _ => .pure _

/-- **Assignments emit their calls.** -/
theorem assign_makes (ha : AssignTyped p Γ vs ps ds) :
    Makes env (assign vs ps ds) (assignSites vs ps ds) fun _ => True := by
  refine .bind (discard_makes ha.discarded_typed) fun _ _ =>
    (destinations_noCalls ps []).seq fun dests => ?_
  have indirect : Makes env (do
      let operands ← evaluate ps dests 0 vs
      pairs operands ps) (CallSite.ofExprs vs ++ ps.flatMap Pair.sites) fun _ => True :=
    .bind (evaluate_makes dests 0 fun x hx => (ha.values_typed x hx).1)
      fun operands _ => pairs_makes operands ha.pairs_typed
  split
  · rename_i f g ws
    split
    · rename_i hall
      exact (direct_makes ha hall).congr (if_pos hall).symm
    · rename_i hall
      exact indirect.congr (if_neg hall).symm
  · rename_i hno
    have hnot : isDirect ps = false := by
      unfold isDirect
      split
      · rename_i f g ws
        exact (hno f g ws rfl).elim
      · rfl
    exact indirect.congr (if_neg (by simp [hnot])).symm

/-! ## Statements -/

/-- A block makes the calls of its statements. -/
lemma inBlock_makes {m : Lower Unit} (hm : Makes env m ss fun _ => True) :
    Makes env (inBlock m) ss fun _ => True :=
  .get fun _ => hm.noCalls fun _ => .modifyGet fun _ => rfl

mutual

/-- **Statements emit their calls.** -/
theorem statement_makes (flow : Option Flow) : ∀ {s : TStmt} {Γ : List Local} {inLoop : Bool},
    s.Typed p Γ inLoop → Makes env (statement flow s) s.sites fun _ => True
  | .assign .., _, _, h => assign_makes h
  | .ifThen .., _, _, ⟨hc, hb⟩ =>
    .bind (expr_makes hc.1).value fun _ _ => (NoCalls.newLabel _).seq fun _ =>
      (NoCalls.newLabel _).seq fun _ => (NoCalls.emit rfl).seq fun _ =>
      (NoCalls.emit rfl).seq fun _ =>
      (inBlock_makes (statements_makes flow hb)).noCalls fun _ => .emit rfl
  | .ifElse .., _, _, ⟨hc, hb, ho⟩ => by
    rw [TStmt.sites, List.append_assoc]
    refine .bind (expr_makes hc.1).value fun _ _ => (NoCalls.newLabel _).seq fun _ =>
      (NoCalls.newLabel _).seq fun _ => (NoCalls.newLabel _).seq fun _ =>
      (NoCalls.emit rfl).seq fun _ => (NoCalls.emit rfl).seq fun _ => ?_
    refine .bind (inBlock_makes (statements_makes flow hb)) fun _ _ =>
      (NoCalls.emit rfl).seq fun _ => (NoCalls.emit rfl).seq fun _ => ?_
    exact (inBlock_makes (statements_makes flow ho)).noCalls fun _ => .emit rfl
  | .whileLoop .., _, _, ⟨hc, hb⟩ =>
    (NoCalls.newLabel _).seq fun _ => (NoCalls.newLabel _).seq fun _ =>
      (NoCalls.newLabel _).seq fun _ => (NoCalls.emit rfl).seq fun _ =>
      .bind (expr_makes hc.1).value fun _ _ => (NoCalls.emit rfl).seq fun _ =>
      (NoCalls.emit rfl).seq fun _ => (inBlock_makes (statements_makes _ hb)).noCalls fun _ =>
      .bind (.emit rfl) fun _ => .emit rfl
  | .repeatUntil _ _ b c, _, _, ⟨hb, hc⟩ => by
    refine (NoCalls.newLabel _).seq fun _ => (NoCalls.newLabel _).seq fun _ =>
      (NoCalls.newLabel _).seq fun _ => (NoCalls.emit rfl).seq fun _ => ?_
    refine (inBlock_makes (.bind (statements_makes _ hb) fun _ _ => ?_)).noCalls fun _ => .emit rfl
    have cond : ∀ loop out : Label, Makes env (do
        let c ← (expr c).value
        emit (.branch c out loop)) (CallSite.ofExprs [c]) fun _ => True :=
      fun _ _ => (expr_makes hc.1).value.noCalls fun _ => .emit rfl
    split
    · exact (NoCalls.emit rfl).seq fun _ => cond _ _
    · exact cond _ _
  | .block .., _, _, h => inBlock_makes (statements_makes flow h)
  | .ret _, _, _, _ => (NoCalls.emit rfl).makes
  | .brk _, _, _, _ => (NoCalls.bind (.need flow) fun _ => .emit rfl).makes
  | .cont _, _, _, _ => (NoCalls.bind (.need flow) fun _ => .emit rfl).makes

/-- Several statements emit their calls in order. -/
theorem statements_makes (flow : Option Flow) : ∀ {ss : List TStmt} {Γ : List Local}
    {inLoop : Bool}, TStmt.TypedAll p Γ inLoop ss →
    Makes env (statements flow ss) (TStmt.sitesAll ss) fun _ => True
  | [], _, _, _ => .pure trivial
  | _ :: _, _, _, h => .bind (statement_makes flow h.1) fun _ _ => statements_makes flow h.2

end

/-! ## Functions -/

/-- The sites in the opening of a function: it copies parameters that may be changed, and constructs
the results that are passed by address. -/
def openingSites (p : Program) (f : MemberFunction) : List CallSite :=
  ((f.sig.params.filter fun a => !a.type.isAtomic && a.type.modifier == .var).flatMap
      fun a => CallSite.ofCopy p a.type) ++
    f.sig.hiddenResults.flatMap fun a => CallSite.ofDefault p a.type

/-- The sites of a function that the compiler added: one for each member variable. -/
def generatedSites (p : Program) (f : MemberFunction) : List CallSite :=
  (p.classOf f.cls).vars.flatMap fun v =>
    if f.isCopy then if f.kind = .assign then CallSite.ofAssign p v.type else
      CallSite.ofCopy p v.type
    else CallSite.ofDefault p v.type

/-- **The call sites of a function**: those of its opening, then those of its body. -/
def functionSites (e : Elaborated) (f : MemberFunction) : List CallSite :=
  openingSites e.program f ++
    if f.isGenerated then generatedSites e.program f
    else TStmt.sitesAll (((e.body? f).map FuncBody.body).getD [])

/-- A loop over a list makes the calls of each round, in order. -/
lemma forM_makes {α : Type} {g : α → Lower Unit} {sites : α → List CallSite}
    (h : ∀ a, Makes env (g a) (sites a) fun _ => True) :
    ∀ l : List α, Makes env (l.forM g) (l.flatMap sites) fun _ => True
  | [] => .pure trivial
  | a :: l => .bind (h a) fun _ _ => forM_makes h l

/-- A loop without calls makes none. -/
lemma mapM_noCalls {α β : Type} {g : α → Lower β} (h : ∀ a, NoCalls env (g a)) :
    ∀ l : List α, NoCalls env (l.mapM g)
  | [] => .pure _
  | a :: l => by
    rw [List.mapM_cons]
    exact .bind (h a) fun _ => .map (mapM_noCalls h l) _

/-- A parameter passed by address is bound without a call. -/
lemma bindAddress_noCalls (a : Param) : NoCalls env (bindAddress a) :=
  .bind (.newVar ..) fun _ => .bind (.setStorage ..) fun _ => .pure _

/-- A parameter passed by value is bound without a call. -/
lemma bindValue_noCalls (a : Param) : NoCalls env (bindValue a) :=
  .bind (.newVar ..) fun _ => .bind (.setStorage ..) fun _ => .pure _

/-- The place of a parameter makes no calls, and has its type. -/
lemma paramPlace_makes (a : Param) : Makes env (paramPlace a) [] fun q => q.type = a.type := by
  refine .get fun b => ?_
  split
  · rename_i s hs
    exact .pure (by cases s <;> rfl)
  · exact .fails (Fails.throw _)

/-- A parameter that the function owns is copied by a create. -/
lemma ownCopy_makes (a : Param) :
    Makes env (ownCopy a) (CallSite.ofCopy env.program a.type) fun _ => True :=
  (paramPlace_makes a).bind fun src _ => (slotFor_noCalls "tmp" _).seq fun addr =>
    (copyValue_makes (.memory addr none a.type) src).noCalls fun _ => .setStorage ..

/-- The opening copies parameters and constructs results. -/
lemma prologue_makes (f : MemberFunction) :
    Makes env (prologue f) (openingSites env.program f) fun _ => True := by
  have rest : ∀ self : List Operand, Makes env (do
      let ins ← f.sig.params.mapM fun p =>
        if isByAddress p.type then bindAddress p else bindValue p
      let hidden ← f.sig.hiddenResults.mapM bindAddress
      let outs ← f.sig.valueResults.mapM bindValue
      (f.sig.params.filter fun p => !p.type.isAtomic && p.type.modifier == .var).forM ownCopy
      f.sig.hiddenResults.forM fun p => do defaultValue (← paramPlace p)
      return (self ++ ins ++ hidden, outs)) (openingSites env.program f) fun _ => True := by
    intro self
    refine (mapM_noCalls (fun a => ?_) _).seq fun ins =>
      (mapM_noCalls bindAddress_noCalls _).seq fun hidden =>
      (mapM_noCalls bindValue_noCalls _).seq fun outs => ?_
    · split
      · exact bindAddress_noCalls a
      · exact bindValue_noCalls a
    refine .bind (forM_makes ownCopy_makes _) fun _ _ => ?_
    refine (forM_makes (fun a => ?_) _).noCalls fun _ => .pure _
    exact (paramPlace_makes a).bind fun q hq => hq ▸ defaultValue_makes q
  unfold prologue
  split
  · exact (NoCalls.newVar ..).seq fun v => (NoCalls.setStorage ..).seq fun _ =>
      (NoCalls.pure _).seq rest
  · exact (NoCalls.pure _).seq rest

/-- A function that the compiler added constructs, copies or assigns all member variables. -/
lemma generated_makes (f : MemberFunction) :
    Makes env (generated f) (generatedSites env.program f) fun _ => True := by
  refine .get fun b => ?_
  cases b.locals.lookup f.selfId with
  | none => exact .fails (Fails.bind (Fails.throw _))
  | some s =>
    simp only [pure_bind]
    refine .read ?_
    unfold generatedSites
    split
    · rename_i hcopy
      simp only [hcopy, Bool.false_eq_true, if_false]
      refine forM_makes (fun v => ?_) _
      exact (memberOf_noCalls v).seq fun m => defaultValue_makes (Place.field _ m v.type)
    · rename_i a as hcopy _
      simp only [hcopy, if_true]
      refine (paramPlace_makes a).bind fun other _ => forM_makes (fun v => ?_) _
      refine (memberOf_noCalls v).seq fun m => ?_
      split
      · exact assignValue_makes ..
      · exact copyValue_makes ..
    · exact .fails (Fails.throw _)

/-- **Functions emit the calls of their sites.** -/
theorem build_makes {e : Elaborated} {f : MemberFunction} (hprogram : env.program = e.program)
    (hbody : ∀ b, e.body? f = some b → TStmt.TypedAll e.program f.rootLocals false b.body) :
    Makes env (build e f) (functionSites e f) fun _ => True := by
  have body : Makes env (bodyOf e f) (if f.isGenerated then generatedSites e.program f
      else TStmt.sitesAll (((e.body? f).map FuncBody.body).getD [])) fun _ => True := by
    unfold bodyOf
    split
    · exact hprogram ▸ generated_makes f
    · cases hb : e.body? f with
      | none => exact .pure trivial
      | some b => exact statements_makes none (hbody b hb)
  exact (hprogram ▸ prologue_makes f).bind fun q _ => body.noCalls fun _ => .pure q

/-- The marks around a body call nothing. -/
lemma callees_frame (code : List Instr) : callees (Function.frame code) = callees code := by
  simp [callees, Function.frame, List.filterMap_cons, callee?]

/-- The functions that the code of a function calls are those of its sites. -/
theorem callees_of_function {e : Elaborated} {f : MemberFunction} {fn : Function}
    (hprogram : env.program = e.program)
    (hbody : ∀ b, e.body? f = some b → TStmt.TypedAll e.program f.rootLocals false b.body)
    (h : function env e f = .ok fn) :
    callees fn.body = (functionSites e f).filterMap (CallSite.callee? env) ∧
      AreDeclared env (functionSites e f) := by
  obtain ⟨q, b, hrun, rfl⟩ := of_function_eq_ok h
  obtain ⟨hcode, hdeclared, -⟩ := (build_makes hprogram hbody).of_run _ _ _ hrun
  refine ⟨?_, hdeclared⟩
  rw [callees_frame, hcode]
  rfl

end Lowering

/-! ## Programs -/

namespace Accepted

open Lowering

variable {file name : String} {text : List Rune} {e : Elaborated} {width : Int} {ds : Diagnostics}
  {p : LoweredProgram}

/-- The functions of accepted programs call what their sites say. -/
lemma exists_sites (h : Accepted file text e) (hp : (e.lower name width ds).2 = .ok p)
    (hok : p.isOk) {fn : Function} (hfn : fn ∈ p.module.functions) :
    ∃ f n, e.program.Declares f ∧ fn.decl = memberDecl e f n ∧
      callees fn.body =
        (functionSites e f).filterMap (CallSite.callee? (envOf e p.layouts p.width fn.decl)) ∧
      AreDeclared (envOf e p.layouts p.width fn.decl) (functionSites e f) := by
  obtain ⟨f, hf, -, n, hfunction⟩ := h.exists_isCodeOf hp hok hfn
  have hdecl : fn.decl = memberDecl e f n := decl_of_function_eq_ok hfunction
  refine ⟨f, n, hf, hdecl, hdecl ▸ callees_of_function rfl (fun b hb => ?_) hfunction⟩
  obtain ⟨htyped, rfl⟩ := typed_of_body? h.typed hf hb
  exact htyped.typed

end Accepted

end Lane
