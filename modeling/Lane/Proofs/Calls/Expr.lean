import Lane.Proofs.Calls.Sites
import Lane.Proofs.Evaluation.Lowered

set_option relaxedAutoImplicit false
set_option autoImplicit false

/-!
# Calls that expressions emit

Reasoning about the calls in the code that a computation adds. Most computations add none; the code
of an expression has one for each call in the expression, in the order of evaluation.

## Main definitions

* `Lane.Lowering.callees`: the functions that code calls.
* `Lane.Lowering.AreDeclared`: the functions that are called at sites have declarations.
* `Lane.Lowering.Makes`: computations that emit the calls of some sites.
* `Lane.Lowering.NoCalls`: computations that emit no call.

## Main results

* `Lane.Lowering.Makes.bind`: computations one after the other.
* `Lane.Lowering.call_makes`: a call is emitted after those in its arguments.
* `Lane.Lowering.expr_makes`: the calls in an expression are emitted.
-/

namespace Lane.Lowering

open Code

/-- The function that an instruction calls. -/
def callee? : Instr → Option FuncDecl
  | .call d _ _ => some d
  | _ => none

/-- The functions that code calls, in the order of the calls. -/
def callees (is : List Instr) : List FuncDecl := is.filterMap callee?

/-- The functions that are called at the sites all have a declaration. -/
def AreDeclared (env : Env) (ss : List CallSite) : Prop := ∀ s ∈ ss, (s.decl? env).isSome

/-- **Computations that emit calls**: if they succeed, the calls in the code that they add are those
of the sites `ss`, all of which have a declaration, and the result satisfies `R`. -/
structure Makes {α : Type} (env : Env) (m : Lower α) (ss : List CallSite) (R : α → Prop) :
    Prop where
  of_run : ∀ b a b', (m.run env).run b = .ok (a, b') →
    callees b'.code = callees b.code ++ ss.filterMap (CallSite.callee? env) ∧ AreDeclared env ss ∧
      R a

/-- **Computations that emit no call.** -/
structure NoCalls {α : Type} (env : Env) (m : Lower α) : Prop where
  makes : Makes env m [] fun _ => True

section Makes

variable {α β γ : Type} {env : Env} {m : Lower α} {f : α → Lower β} {ss ts : List CallSite}
  {R R' : α → Prop} {S : β → Prop}

/-! ## Sites with declarations -/

/-- Where nothing is called, all that is called is declared. -/
lemma AreDeclared.nil : AreDeclared env [] := fun _ h => absurd h List.not_mem_nil

/-- What is called in one part and then in another is declared. -/
lemma AreDeclared.append (hs : AreDeclared env ss) (ht : AreDeclared env ts) :
    AreDeclared env (ss ++ ts) := fun s h => (List.mem_append.1 h).elim (hs s) (ht s)

/-- A single call whose function is declared. -/
lemma AreDeclared.singleton {s : CallSite} {d : FuncDecl} (h : s.decl? env = some d) :
    AreDeclared env [s] := fun _ hs => List.mem_singleton.1 hs ▸ h ▸ rfl

/-! ## Computations one after the other -/

/-- A result makes no calls. -/
lemma Makes.pure {a : α} (h : R a) : Makes env (pure a) [] R where
  of_run b a' b' hrun := by
    obtain ⟨rfl, rfl⟩ := Prod.mk.inj (Except.ok.inj hrun)
    exact ⟨by simp, .nil, h⟩

/-- One computation after the other makes the calls of both, in order. -/
lemma Makes.bind (hm : Makes env m ss R) (hf : ∀ a, R a → Makes env (f a) ts S) :
    Makes env (m >>= f) (ss ++ ts) S where
  of_run b c b'' hrun := by
    obtain ⟨a, b', hm', hf'⟩ := of_run_bind hrun
    obtain ⟨hcode, hss, hR⟩ := hm.of_run b a b' hm'
    obtain ⟨hcode', hts, hS⟩ := (hf a hR).of_run b' c b'' hf'
    exact ⟨by rw [hcode', hcode, List.filterMap_append, List.append_assoc], hss.append hts, hS⟩

/-- Less may be said about the result. -/
lemma Makes.weaken (hm : Makes env m ss R') (h : ∀ a, R' a → R a) : Makes env m ss R where
  of_run b a b' hrun := (hm.of_run b a b' hrun).imp_right fun hR => hR.imp_right (h a)

/-- The same calls, written in another way. -/
lemma Makes.congr (hm : Makes env m ss R) (h : ss = ts) : Makes env m ts R := h ▸ hm

/-- Declared sites with the same calls are as good. -/
lemma Makes.of_callees (hm : Makes env m ss R)
    (h : ss.filterMap (CallSite.callee? env) = ts.filterMap (CallSite.callee? env))
    (hts : AreDeclared env ts) : Makes env m ts R where
  of_run b a b' hrun := by
    obtain ⟨hcode, -, hR⟩ := hm.of_run b a b' hrun
    exact ⟨h ▸ hcode, hts, hR⟩

/-- Nothing is to be shown of a computation that does not succeed. -/
lemma Makes.fails (h : Fails env m) : Makes env m ss R where
  of_run b a b' hrun := by
    obtain ⟨x, hx⟩ := h b
    cases hrun.symm.trans hx

/-- The builder is looked at. -/
lemma Makes.get {g : Builder → Lower β} (hg : ∀ b, Makes env (g b) ss S) :
    Makes env (get >>= g) ss S :=
  ⟨fun b => (hg b).of_run b⟩

/-- The environment is read. -/
lemma Makes.read {g : Env → Lower β} (hg : Makes env (g env) ss S) : Makes env (read >>= g) ss S :=
  ⟨fun b => hg.of_run b⟩

/-- The builder changes, but not its code. -/
lemma Makes.modifyGet {g : Builder → α × Builder} (h : ∀ b, (g b).2.code = b.code)
    (hR : ∀ b, R (g b).1) : Makes env (modifyGet g) [] R where
  of_run b a b' hrun := by
    obtain ⟨ha, hb⟩ := Prod.mk.inj (Except.ok.inj hrun)
    exact ⟨by rw [← hb, h b]; simp, .nil, ha ▸ hR b⟩

/-- An instruction makes the call that it is, or none. -/
lemma Makes.emit {i : Instr} (h : (callee? i).toList = ss.filterMap (CallSite.callee? env))
    (hss : AreDeclared env ss) : Makes env (emit i) ss fun _ => True where
  of_run b a b' hrun := by
    obtain ⟨-, rfl⟩ := Prod.mk.inj (Except.ok.inj hrun)
    refine ⟨?_, hss, trivial⟩
    rw [← h]
    show (b.code ++ [i]).filterMap callee? = _
    rw [List.filterMap_append]
    cases hi : callee? i <;> simp [callees, hi]

/-! ## Computations without calls -/

/-- What comes before the calls emits none. -/
lemma NoCalls.seq (hm : NoCalls env m) (hf : ∀ a, Makes env (f a) ss S) :
    Makes env (m >>= f) ss S :=
  Makes.bind hm.makes fun a _ => hf a

/-- What comes after the calls emits none. -/
lemma Makes.noCalls (hm : Makes env m ss R) (hf : ∀ a, NoCalls env (f a)) :
    Makes env (m >>= f) ss fun _ => True :=
  (Makes.bind hm fun a _ => (hf a).makes).congr (List.append_nil ss)

/-- A result needs no calls. -/
lemma NoCalls.pure (a : α) : NoCalls env (pure a) := ⟨Makes.pure trivial⟩

/-- Computations without calls, one after the other. -/
lemma NoCalls.bind (hm : NoCalls env m) (hf : ∀ a, NoCalls env (f a)) : NoCalls env (m >>= f) :=
  ⟨hm.seq fun a => (hf a).makes⟩

/-- A result that is changed afterwards. -/
lemma NoCalls.map (hm : NoCalls env m) (g : α → β) : NoCalls env (do return g (← m)) :=
  .bind hm fun _ => .pure _

/-- A computation that fails makes no calls. -/
lemma NoCalls.fails (h : Fails env m) : NoCalls env m := ⟨Makes.fails h⟩

/-- The builder is looked at without a call. -/
lemma NoCalls.get {g : Builder → Lower β} (hg : ∀ b, NoCalls env (g b)) : NoCalls env (get >>= g) :=
  ⟨Makes.get fun b => (hg b).makes⟩

/-- The environment is looked at without a call. -/
lemma NoCalls.read {g : Env → Lower β} (hg : NoCalls env (g env)) : NoCalls env (read >>= g) :=
  ⟨Makes.read hg.makes⟩

/-- A step that leaves the code alone makes no calls. -/
lemma NoCalls.modifyGet {g : Builder → α × Builder} (h : ∀ b, (g b).2.code = b.code) :
    NoCalls env (modifyGet g) :=
  ⟨Makes.modifyGet h fun _ => trivial⟩

/-- An instruction that is no call. -/
lemma NoCalls.emit {i : Instr} (h : callee? i = none) : NoCalls env (emit i) :=
  ⟨Makes.emit (by simp [h]) .nil⟩

/-- What has to be there is there, or the computation fails. -/
lemma NoCalls.need (a : Option α) : NoCalls env (need a) := by
  cases a with
  | none => exact .fails (Fails.throw _)
  | some a => exact .pure a

/-- A new register is made without a call. -/
lemma NoCalls.newReg (t : VType) : NoCalls env (newReg t) := .modifyGet fun _ => rfl

/-- A new variable is made without a call. -/
lemma NoCalls.newVar (name : String) (t : VType) : NoCalls env (newVar name t) :=
  .modifyGet fun _ => rfl

/-- A new slot is made without a call. -/
lemma NoCalls.newSlot (name : String) (size align : Int64) (struct : Option String) :
    NoCalls env (newSlot name size align struct) :=
  .modifyGet fun _ => rfl

/-- A new label is made without a call. -/
lemma NoCalls.newLabel (hint : String) : NoCalls env (newLabel hint) := .modifyGet fun _ => rfl

/-- Storage is given to a local without a call. -/
lemma NoCalls.setStorage (id : Nat) (s : Storage) : NoCalls env (setStorage id s) :=
  .modifyGet fun _ => rfl

/-! ## Places and containers -/

variable {t : VType}

/-- A computation of scalars makes no calls. -/
lemma compute_noCalls (kind : AssignKind) (t : VType) (args : List Operand) :
    NoCalls env (compute kind t args) :=
  .bind (.newReg t) fun _ => .bind (.emit rfl) fun _ => .pure _

/-- The member for a variable is found without a call. -/
lemma memberOf_noCalls (v : MemberVar) : NoCalls env (memberOf v) := by
  refine .read ?_
  split
  · exact .fails (Fails.throw _)
  · exact .need _

/-- The size of a type is found without a call. -/
lemma sizeOf_noCalls (t : Ty) : NoCalls env (sizeOf t) := by
  unfold sizeOf
  split
  · refine .read ?_
    split
    · exact .pure _
    · exact .fails (Fails.throw _)
  · exact .pure _
  · exact .pure _

/-- The slot of a value is made without a call. -/
lemma slotFor_noCalls (name : String) (t : Ty) : NoCalls env (slotFor name t) :=
  .bind (sizeOf_noCalls t) fun _ => .read (.newSlot ..)

/-- The storage of a local is found without a call. -/
lemma storageOf_noCalls (l : Local) : NoCalls env (storageOf l) := by
  refine .get fun b => ?_
  split
  · exact .pure _
  · exact .fails (Fails.bug _)

/-- A local gets its storage without a call. -/
lemma bindLocal_noCalls (l : Local) : NoCalls env (bindLocal l) := by
  have bound : ∀ s, NoCalls env (do
      setStorage l.id s
      return s) := fun s => .bind (.setStorage ..) fun _ => .pure s
  refine .get fun b => ?_
  split
  · exact .pure _
  · split
    · exact .bind (.newVar ..) fun _ => bound _
    · exact .bind (slotFor_noCalls ..) fun _ => bound _

/-- The address of a place is computed without a call. -/
lemma address_noCalls (p : Place) : NoCalls env (address p) := by
  unfold address
  split
  · exact .fails (Fails.bug _)
  · split
    · exact .pure _
    · exact .bind (.newReg _) fun _ => .bind (.emit rfl) fun _ => .pure _

/-- The addresses of places are computed without a call. -/
lemma addresses_noCalls : ∀ ps : List Place, NoCalls env (addresses ps)
  | [] => .pure _
  | p :: ps => .bind (address_noCalls p) fun _ => .map (addresses_noCalls ps) _

/-- A place is read without a call. -/
lemma fetch_noCalls (p : Place) : NoCalls env (fetch p) := by
  unfold fetch
  split
  · exact .pure _
  · split
    · exact address_noCalls _
    · exact .bind (.newReg _) fun _ => .bind (.emit rfl) fun _ => .pure _

/-- A place is written without a call. -/
lemma put_noCalls (p : Place) (src : Operand) : NoCalls env (put p src) := by
  unfold put
  split <;> exact .emit rfl

/-- A field of a container is read without a call. -/
lemma loadField_noCalls (p : Place) (m : StructMember) : NoCalls env (loadField p m) :=
  .bind (.newReg _) fun _ => .bind (.emit rfl) fun _ => .pure _

/-- A field of a container is written without a call. -/
lemma storeField_noCalls (p : Place) (m : StructMember) (src : Operand) :
    NoCalls env (storeField p m src) :=
  .emit rfl

/-- A container is emptied without a call. -/
lemma emptyContainer_noCalls (p : Place) : NoCalls env (emptyContainer p) :=
  .bind (storeField_noCalls ..) fun _ => storeField_noCalls ..

/-- The bytes of an array are counted without a call. -/
lemma byteSize_noCalls (kind : SeqKind) (inner : Ty) (n : Operand) :
    NoCalls env (byteSize kind inner n) := by
  have size : ∀ count, NoCalls env (do
      let s ← sizeOf inner
      if s.1 = 1 then return count
      compute .mul .index [count, .const (.ofInt .index s.1.toUInt64)]) := by
    intro count
    refine .bind (sizeOf_noCalls inner) fun s => ?_
    split
    · exact .pure _
    · exact compute_noCalls ..
  refine .read ?_
  cases kind with
  | simd => exact .bind (compute_noCalls ..) fun _ => .bind (compute_noCalls ..) size
  | array => exact .bind (.pure n) size

/-- An array is allocated without a call of a function of the program. -/
lemma allocContainer_noCalls (p : Place) (n : Operand) : NoCalls env (allocContainer p n) := by
  unfold allocContainer
  split
  · exact .bind (.newReg _) fun _ => .bind (byteSize_noCalls ..) fun _ =>
      .bind (.emit rfl) fun _ => .bind (storeField_noCalls ..) fun _ => storeField_noCalls ..
  · exact .fails (Fails.throw _)

/-- A container is copied without a call of a function of the program. -/
lemma copyContainer_noCalls (p q : Place) : NoCalls env (copyContainer p q) := by
  unfold copyContainer
  split
  · exact .bind (loadField_noCalls ..) fun _ => .bind (loadField_noCalls ..) fun _ =>
      .bind (byteSize_noCalls ..) fun _ => .bind (.newReg _) fun _ => .bind (.emit rfl) fun _ =>
      .bind (.emit rfl) fun _ => .bind (storeField_noCalls ..) fun _ => storeField_noCalls ..
  · exact .fails (Fails.throw _)

/-! ## Creates and assigns -/

/-- The declaration of a member function is what is found. -/
lemma declOf_makes (f : MemberFunction) :
    Makes env (declOf f) [] fun d => env.decls.lookup (f.cls.id, f.index) = some d := by
  refine Makes.read ?_
  split
  · rename_i d hd
    exact Makes.pure hd
  · exact .fails (Fails.bug _)

/-- A create or assign is called, unless it has nothing to do. -/
lemma unless_trivial_makes {f : MemberFunction} {d : FuncDecl} {m : Lower Unit}
    (hd : env.decls.lookup (f.cls.id, f.index) = some d)
    (hm : ∀ {ss : List CallSite}, ss.filterMap (CallSite.callee? env) = [d] → AreDeclared env ss →
      Makes env m ss fun _ => True) :
    Makes env (if !d.isTrivial then m else return) [.value f] fun _ => True := by
  have hsite : [CallSite.value f].filterMap (CallSite.callee? env) =
      if !d.isTrivial then [d] else [] := by
    rw [CallSite.filterMap_singleton, CallSite.callee?, hd, Option.filter_some,
      apply_ite Option.toList]
    rfl
  split
  · rename_i ht
    exact hm (hsite.trans (if_pos ht)) (.singleton hd)
  · rename_i ht
    exact .of_callees (.pure trivial) (hsite.trans (if_neg ht)).symm (.singleton hd)

/-- A call by value makes one call, if its function has code. -/
lemma invoke_makes (f : MemberFunction) (self : Operand) (args : List Operand) :
    Makes env (invoke f self args) [.value f] fun _ => True :=
  .bind (declOf_makes f) fun _ hd =>
    unless_trivial_makes hd fun h hss => .emit (by simp [callee?, h]) hss

/-- A call on places makes one call, if its function has code. -/
lemma invokeAt_makes (f : MemberFunction) (self : Place) (args : List Place) :
    Makes env (invokeAt f self args) [.value f] fun _ => True :=
  .bind (declOf_makes f) fun _ hd => unless_trivial_makes hd fun h hss =>
    (addresses_noCalls args).seq fun _ => (address_noCalls self).seq fun _ =>
      .emit (by simp [callee?, h]) hss

/-- The selected create or assign, if there is one, is called. -/
lemma selectAt_makes (c : ClassRef) (kind : FuncKind) (ts : List Ty) (self : Place)
    (args : List Place) :
    Makes env (do
      match ← select c kind ts with
      | some f => invokeAt f self args
      | none => return) ((env.program.select c kind ts).toList.map .value) fun _ => True := by
  refine .read ?_
  show Makes env (match env.program.select c kind ts with
    | some f => invokeAt f self args
    | none => pure ()) _ _
  split
  · rename_i h
    exact h ▸ invokeAt_makes ..
  · rename_i h
    exact h ▸ .pure trivial

/-- The copy of a value calls the create that copies, for classes only. -/
lemma copyValue_makes (p q : Place) :
    Makes env (copyValue p q) (CallSite.ofCopy env.program p.type) fun _ => True := by
  unfold copyValue CallSite.ofCopy
  generalize p.type = t
  cases t with
  | container => exact (copyContainer_noCalls p q).makes
  | cls m c => exact selectAt_makes ..
  | _ => exact (fetch_noCalls q).seq fun _ => (put_noCalls p _).makes

/-- A value is constructed by the create without arguments, for classes only. -/
lemma defaultValue_makes (p : Place) :
    Makes env (defaultValue p) (CallSite.ofDefault env.program p.type) fun _ => True := by
  unfold defaultValue CallSite.ofDefault
  generalize p.type = t
  cases t with
  | container => exact (emptyContainer_noCalls p).makes
  | cls m c => exact selectAt_makes ..
  | _ => exact (put_noCalls p _).makes

/-- A value is assigned by the assign of its class, if it has one. -/
lemma assignValue_makes (p q : Place) :
    Makes env (assignValue p q) (CallSite.ofAssign env.program p.type) fun _ => True := by
  have hcopy : Makes env (copyValue p q) (CallSite.ofCopy env.program p.type) fun _ => True :=
    copyValue_makes p q
  unfold assignValue CallSite.ofAssign
  unfold CallSite.ofCopy at hcopy
  generalize p.type = t at hcopy
  cases t with
  | cls m c => exact selectAt_makes ..
  | _ => exact hcopy

/-! ## Expressions -/

/-- Both ways of lowering an expression emit the calls of some sites. -/
structure Lowered.Makes (env : Env) (x : Lowered) (ss : List CallSite) : Prop where
  place : Lowering.Makes env x.place ss fun _ => True
  values : ∀ dests, Lowering.Makes env (x.values dests) ss fun _ => True

/-- The type of an expression is found without a call. -/
lemma typeOf_noCalls (x : TExpr) : NoCalls env (typeOf x) := by
  unfold typeOf
  split
  · exact .pure _
  · exact .fails (Fails.bug _)

/-- The value of an expression makes its calls. -/
lemma Lowered.Makes.value {x : Lowered} (hx : x.Makes env ss) :
    Lowering.Makes env x.value ss fun _ => True := by
  refine (hx.values []).noCalls fun os => ?_
  split
  · exact .pure _
  · exact .fails (Fails.bug _)

/-- The object of an expression makes its calls. -/
lemma Lowered.Makes.object {x : Lowered} (hx : x.Makes env ss) :
    Lowering.Makes env x.object ss fun _ => True := by
  unfold Lowered.object
  split
  · exact hx.place
  · exact hx.value.noCalls fun _ => .map (typeOf_noCalls _) _

/-- The receiver of a call makes the calls of its expression. -/
lemma Lowered.Makes.receiver {x : Lowered} (hx : x.Makes env ss) :
    Lowering.Makes env x.receiver ss fun _ => True := by
  refine (typeOf_noCalls _).seq fun t => ?_
  split
  · exact hx.value
  · exact hx.object.noCalls fun _ => address_noCalls _

/-- An expression that is a place makes the calls of the place. -/
lemma makes_ofPlace {x : TExpr} {place : Lower Place}
    (h : Makes env place ss fun _ => True) : (Lowered.ofPlace x place).Makes env ss where
  place := h
  values _ := h.noCalls fun _ => .map (fetch_noCalls _) _

/-- An expression with several values makes their calls. -/
lemma makes_ofValues {x : TExpr} {values : List (Option Operand) → Lower (List Operand)}
    (h : ∀ dests, Makes env (values dests) ss fun _ => True) :
    (Lowered.ofValues x values).Makes env ss where
  place := .fails (Fails.of_bind fun _ => Fails.bug _)
  values := h

/-- An expression that is a value makes the calls of the value. -/
lemma makes_ofValue {x : TExpr} {value : Lower Operand} (h : Makes env value ss fun _ => True) :
    (Lowered.ofValue x value).Makes env ss :=
  makes_ofValues fun _ => h.noCalls fun _ => .pure _

/-! ## Calls -/

/-- Arguments are written back without a call. -/
lemma writeBack_noCalls : ∀ back : List (Operand × Var), NoCalls env (writeBack back)
  | [] => .pure _
  | _ :: back => .bind (.newReg _) fun _ => .bind (.emit rfl) fun _ => .bind (.emit rfl) fun _ =>
      writeBack_noCalls back

/-- An argument makes the calls of its expression. -/
lemma argument_makes (a : Param) {x : Lowered} (hx : x.Makes env ss) :
    Makes env (argument a x) ss fun _ => True := by
  unfold argument
  split
  · exact hx.object.noCalls fun _ => .map (address_noCalls _) _
  · split
    · refine hx.place.noCalls fun q => ?_
      split
      · exact .bind (.bind (.newSlot ..) fun _ => .bind (.emit rfl) fun _ => .pure _)
          fun _ => .pure _
      · exact .map (address_noCalls _) _
    · exact hx.value.noCalls fun _ => .pure _

/-- As many arguments as parameters are lowered in order. -/
lemma arguments_makes : ∀ {as : List Param} {xs : List TExpr}, as.length = xs.length →
    (∀ x ∈ xs, (expr x).Makes env (CallSite.ofExprs [x])) →
    Makes env (arguments as (exprs xs)) (CallSite.ofExprs xs) fun _ => True
  | [], [], _, _ => Makes.pure trivial
  | a :: as, x :: xs, hlen, hxs => by
    obtain ⟨hx, hxs⟩ := List.forall_mem_cons.1 hxs
    rw [CallSite.ofExprs_cons]
    refine .bind (argument_makes a hx) fun _ _ => ?_
    exact (arguments_makes (Nat.succ.inj hlen) hxs).noCalls fun _ => .pure _

/-- The values returned are the results that are not passed by address. -/
lemma resultStorage_makes (dests : List (Option Operand)) : ∀ (i : Nat) (rs : List Param),
    Makes env (resultStorage dests i rs) [] fun q =>
      q.2.2.isEmpty = (rs.filter fun r => !r.isHidden).isEmpty
  | _, [] => .pure rfl
  | i, r :: rs => by
    have rest := resultStorage_makes dests (i + 1) rs
    unfold resultStorage
    split
    · rename_i hr
      have hidden : ∀ a, Makes env (do
          let q ← resultStorage dests (i + 1) rs
          return (a :: q.1, a :: q.2.1, q.2.2)) [] fun q =>
            q.2.2.isEmpty = ((r :: rs).filter fun r => !r.isHidden).isEmpty :=
        fun a => .bind rest fun q hq => .pure (by simpa [hr] using hq)
      split
      · exact NoCalls.seq (.pure _) hidden
      · exact (slotFor_noCalls "tmp" _).seq hidden
    · rename_i hr
      exact (NoCalls.newReg _).seq fun _ => .bind rest fun q hq => .pure (by simp [hr])

/-- **A call** is emitted after the calls in the instance and in the arguments. -/
lemma call_makes {s : Signature} {decl : Option FuncDecl} {self : Lower (List Operand)}
    {xs : List TExpr} (dests : List (Option Operand)) {site : CallSite}
    (hsite : site.callee? env = neededDecl decl s) (hdecl : site.decl? env = decl)
    (hself : Makes env self ss fun _ => True) (hlen : s.params.length = xs.length)
    (hxs : ∀ x ∈ xs, (expr x).Makes env (CallSite.ofExprs [x])) :
    Makes env (call s decl self (exprs xs) dests) (ss ++ (CallSite.ofExprs xs ++ [site]))
      fun _ => True := by
  unfold call
  split
  · exact .fails (Fails.bug _)
  · rename_i d
    refine .bind hself fun _ _ => .bind (arguments_makes hlen hxs) fun q _ => ?_
    refine (Makes.bind (resultStorage_makes dests 0 s.results) fun r hr => ?_).congr
      (List.nil_append _)
    have hcallee : [site].filterMap (CallSite.callee? env) =
        if !d.isTrivial || !r.2.2.isEmpty then [d] else [] := by
      rw [CallSite.filterMap_singleton, hsite, neededDecl, Option.filter_some,
        apply_ite Option.toList, hr]
      rfl
    dsimp only
    split
    · rename_i hneeded
      rw [if_pos hneeded] at hcallee
      exact Makes.noCalls (.emit hcallee.symm (.singleton hdecl)) fun _ =>
        .bind (writeBack_noCalls _) fun _ => .pure _
    · rename_i hneeded
      rw [if_neg hneeded] at hcallee
      exact .of_callees ((writeBack_noCalls _).map _).makes hcallee.symm (.singleton hdecl)

/-- A call of a member makes the calls of its instance and its arguments, and then its own. -/
lemma callMember_makes {f : MemberFunction} {self : Lower (List Operand)} {xs : List TExpr}
    (dests : List (Option Operand)) {x : TExpr}
    (hx : x.callee? env = neededDecl (env.decls.lookup (f.cls.id, f.index)) f.sig)
    (hd : x.decl? env = env.decls.lookup (f.cls.id, f.index))
    (hself : Makes env self ss fun _ => True) (ha : f.sig.Takes xs)
    (hxs : ∀ x ∈ xs, (expr x).Makes env (CallSite.ofExprs [x])) :
    Makes env (callMember f self (exprs xs) dests)
      (ss ++ (CallSite.ofExprs xs ++ [.expr x])) fun _ => True :=
  .read (call_makes dests hx hd hself ha.length_eq hxs)

/-- A call of a routine makes the calls of its arguments, and then its own. -/
lemma callRoutine_makes {f : MemberFunction} {xs : List TExpr} (dests : List (Option Operand))
    {x : TExpr} (hx : x.callee? env = neededDecl (env.decls.lookup (f.cls.id, f.index)) f.sig)
    (hd : x.decl? env = env.decls.lookup (f.cls.id, f.index)) (ha : f.sig.Takes xs)
    (hxs : ∀ x ∈ xs, (expr x).Makes env (CallSite.ofExprs [x])) :
    Makes env (callRoutine f (exprs xs) dests) (CallSite.ofExprs xs ++ [.expr x])
      fun _ => True := by
  have hself : Makes env (if f.hasSelf then bug (f.qualifiedName ++ " called without an instance")
      else return []) [] fun _ : List Operand => True := by
    split
    · exact .fails (Fails.bug _)
    · exact .pure trivial
  exact (callMember_makes dests hx hd hself ha hxs).noCalls fun _ => .pure _

/-- A create that is called makes the calls of its arguments, and then its own. -/
lemma callCreate_makes {f : MemberFunction} {xs : List TExpr} (dests : List (Option Operand))
    {x : TExpr} (hx : x.callee? env = neededDecl (env.decls.lookup (f.cls.id, f.index)) f.sig)
    (hd : x.decl? env = env.decls.lookup (f.cls.id, f.index)) (ha : f.sig.Takes xs)
    (hxs : ∀ x ∈ xs, (expr x).Makes env (CallSite.ofExprs [x])) :
    Makes env (callCreate f (exprs xs) dests) (CallSite.ofExprs xs ++ [.expr x])
      fun _ => True := by
  rw [← List.nil_append (CallSite.ofExprs xs ++ [CallSite.expr x])]
  refine (callMember_makes dests hx hd ?_ ha hxs).noCalls fun _ => .pure _
  split
  · exact .pure trivial
  · exact ((slotFor_noCalls "tmp" _).map _).makes

/-! ## All expressions -/

/-- A local is a place without a call. -/
lemma localPlace_noCalls (x : TExpr) (l : Option Local) : NoCalls env (localPlace x l) := by
  refine .bind (typeOf_noCalls x) fun t => ?_
  split
  · exact .map (storageOf_noCalls _) _
  · exact .fails (Fails.bug _)

/-- A member makes the calls of what it is a member of. -/
lemma memberPlace_makes {y : TExpr} {x : Lowered} (v : MemberVar) (hx : x.Makes env ss) :
    Makes env (memberPlace y x v) ss fun _ => True := by
  refine (typeOf_noCalls y).seq fun t => (memberOf_noCalls v).seq fun m =>
    (typeOf_noCalls x.expr).seq fun u => ?_
  split
  · exact hx.value.noCalls fun _ => .pure _
  · exact hx.object.noCalls fun _ => .pure _

/-- An element makes the calls of the container and of the index. -/
lemma elementPlace_makes {y : TExpr} {x i : Lowered} (hx : x.Makes env ss) (hi : i.Makes env ts) :
    Makes env (elementPlace y x i) (ss ++ ts) fun _ => True := by
  refine (typeOf_noCalls y).seq fun t => (typeOf_noCalls x.expr).seq fun u => ?_
  split
  · refine .bind hx.object fun header _ => (loadField_noCalls ..).seq fun data => ?_
    refine hi.value.noCalls fun n => .bind (sizeOf_noCalls _) fun s => ?_
    dsimp only
    split
    · exact .bind (.pure n) fun _ => .map (compute_noCalls ..) _
    · exact .bind (compute_noCalls ..) fun _ => .map (compute_noCalls ..) _
  · exact .fails (Fails.throw _)

/-- The size of a container makes the calls of the container. -/
lemma sizeAccess_makes {y : TExpr} {x : Lowered} (hx : x.Makes env ss) :
    Makes env (sizeAccess y x) ss fun _ => True := by
  refine (typeOf_noCalls x.expr).seq fun u => ?_
  split
  · exact hx.object.noCalls fun _ => loadField_noCalls ..
  · exact .fails (Fails.of_bind fun _ => Fails.bug _)

/-- **Expressions emit their calls**: the code of a typed expression, to its place or to its values,
has one call for each call in the expression, in the order of evaluation.

**Proof sketch.** Induction on the typing, which says that arguments agree in number with the
parameters; arguments that are left over would not be lowered. -/
theorem expr_makes {p : Program} {Γ : List Local} {x : TExpr} (hx : x.Typed p Γ) :
    (expr x).Makes env (CallSite.ofExprs [x]) := by
  induction hx with
  | ident | self => exact makes_ofPlace (localPlace_noCalls ..).makes
  | literal => exact makes_ofValue (.pure trivial)
  | unary _ _ _ ih =>
    rw [CallSite.ofExprs_of_not_calls rfl]
    exact makes_ofValue (ih.value.noCalls fun _ => .bind (typeOf_noCalls _) fun _ =>
      compute_noCalls ..)
  -- A call adds itself after the calls of its arguments; everything else only passes calls on.
  | @unaryCall _ _ x f _ _ _ ha ih =>
    rw [CallSite.ofExprs_of_calls rfl]
    refine makes_ofValues fun dests => ?_
    show Makes env (callRoutine f (exprs [x]) dests) _ _
    exact callRoutine_makes dests rfl rfl ha (by simpa using ih)
  | binary _ _ _ _ _ ihx ihy =>
    rw [CallSite.ofExprs_of_not_calls rfl, TExpr.parts, CallSite.ofExprs_cons]
    exact makes_ofValue (.bind ihx.value fun _ _ => ihy.value.noCalls fun _ =>
      .bind (typeOf_noCalls _) fun _ => compute_noCalls ..)
  | @binaryCall _ _ x y f _ _ _ _ ha ihx ihy =>
    rw [CallSite.ofExprs_of_calls rfl]
    refine makes_ofValues fun dests => ?_
    show Makes env (callRoutine f (exprs [x, y]) dests) _ _
    exact callRoutine_makes dests rfl rfl ha (by simpa using ⟨ihx, ihy⟩)
  | size _ _ ih =>
    rw [CallSite.ofExprs_of_not_calls rfl]
    exact makes_ofValue (sizeAccess_makes ih)
  | member _ _ _ _ ih =>
    rw [CallSite.ofExprs_of_not_calls rfl]
    exact makes_ofPlace (memberPlace_makes _ ih)
  | index _ _ _ _ ihx ihi =>
    rw [CallSite.ofExprs_of_not_calls rfl, TExpr.parts, CallSite.ofExprs_cons]
    exact makes_ofPlace (elementPlace_makes ihx ihi)
  | deref _ _ ih =>
    rw [CallSite.ofExprs_of_not_calls rfl]
    exact makes_ofPlace ((typeOf_noCalls _).seq fun _ => ih.value.noCalls fun _ => .pure _)
  | method _ _ _ _ _ _ ha ihx ihargs =>
    rw [CallSite.ofExprs_of_calls rfl, TExpr.parts, CallSite.ofExprs_cons, List.append_assoc]
    refine makes_ofValues fun dests => ?_
    exact (callMember_makes dests rfl rfl (ihx.receiver.noCalls fun _ => .pure _) ha ihargs).noCalls
      fun _ => .pure _
  | convert _ _ _ _ ih =>
    rw [CallSite.ofExprs_of_not_calls rfl]
    exact makes_ofValues fun _ => ih.value.noCalls fun _ => .map (compute_noCalls ..) _
  | routine _ _ _ ha ih =>
    rw [CallSite.ofExprs_of_calls rfl]
    exact makes_ofValues fun dests => callRoutine_makes dests rfl rfl ha ih
  | construct _ _ _ ha ih =>
    rw [CallSite.ofExprs_of_calls rfl]
    exact makes_ofValues fun dests => callCreate_makes dests rfl rfl ha ih
  | ccall _ _ ha ih =>
    rw [CallSite.ofExprs_of_calls rfl]
    refine makes_ofValues fun dests => .read ?_
    exact (call_makes dests rfl (by rfl) (.pure trivial) ha.length_eq ih).noCalls fun _ => .pure _

end Makes

end Lane.Lowering
