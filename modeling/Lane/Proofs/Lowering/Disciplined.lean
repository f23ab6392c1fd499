import Lane.Proofs.Analysis.Parts
import Lane.Proofs.Lowering.Discipline
import Lane.Proofs.Lowering.Function

set_option relaxedAutoImplicit false
set_option autoImplicit false

/-!
# Disciplines of whole functions

Every discipline holds of the code of all expressions whose names it admits. A discipline that also
has rules for labels, jumps, sizes of containers and the binding of locals holds of the code of all
statements, and of functions.

## Main definitions

* `Lane.Lowering.Lowered.Gives`: a discipline of both ways of lowering an expression.
* `Lane.Lowering.ValueDiscipline`: a discipline with a rule for the sizes of containers.
* `Lane.Lowering.BodyDiscipline`: a discipline with rules for statements.

## Main results

* `Lane.Lowering.Discipline.call_gives`: calls.
* `Lane.Lowering.Discipline.expr_gives`: expressions.
* `Lane.Lowering.ValueDiscipline.evaluate_gives`: the right of an assignment.
* `Lane.Lowering.BodyDiscipline.assign_gives`, `Lane.Lowering.BodyDiscipline.statement_holds`:
  statements.
* `Lane.Lowering.BodyDiscipline.build_holds`: functions.
-/

namespace Lane.Lowering

open Code

/-- Storage that the caller gives to results may be read. -/
def Discipline.HasGiven {env : Env} (D : Discipline env) (w : D.World)
    (dests : List (Option Operand)) : Prop :=
  ∀ d, some d ∈ dests → D.Has w d

/-- **Both ways of lowering an expression** follow a discipline, wherever they stand. -/
structure Lowered.Gives {env : Env} (D : Discipline env) (x : Lowered) : Prop where
  place : ∀ w, D.Gives w x.place D.HasPlace
  values : ∀ w dests, D.HasGiven w dests → D.Gives w (x.values dests) D.HasAll

namespace Discipline

variable {env : Env} {D : Discipline env} {w : D.World} {x i : Lowered} {o : Operand}
  {os : List Operand} {dests : List (Option Operand)}

/-- Destinations that are had in a world are had later. -/
lemma HasGiven.mono {w' : D.World} (h : D.HasGiven w dests) (hle : D.Le w w') :
    D.HasGiven w' dests :=
  fun d hd => D.has_mono hle (h d hd)

/-- A single operand is had. -/
lemma hasAll_singleton (ho : D.Has w o) : D.HasAll w [o] := .cons ho hasAll_nil

/-- Two operands are had. -/
lemma hasAll_pair {o' : Operand} (ho : D.Has w o) (ho' : D.Has w o') : D.HasAll w [o, o'] :=
  .cons ho (hasAll_singleton ho')

/-! ## Expressions that have one value -/

/-- The type of an expression is found under the discipline. -/
lemma typeOf_gives (x : TExpr) : D.Gives w (typeOf x) fun _ _ => True := by
  unfold typeOf
  split
  · exact .pure trivial
  · exact .bug _

/-- The value of an expression is had. -/
lemma value_gives (hx : x.Gives D) (w : D.World) : D.Gives w x.value D.Has := by
  refine .bind (hx.values w [] nofun) fun w' os _ hos => ?_
  split
  · exact .pure (hos _ (List.mem_singleton_self _))
  · exact .bug _

/-- The object of an expression is had. -/
lemma object_gives (hx : x.Gives D) (w : D.World) : D.Gives w x.object D.HasPlace := by
  unfold Lowered.object
  split
  · exact hx.place w
  · exact .bind (value_gives hx w) fun _ _ _ hv => .bind (typeOf_gives _) fun _ _ h _ =>
      .pure (D.has_mono h hv)

/-- The receiver of a call is had. -/
lemma receiver_gives (hx : x.Gives D) (w : D.World) : D.Gives w x.receiver D.Has := by
  refine .bind (typeOf_gives _) fun w' _ _ _ => ?_
  split
  · exact value_gives hx w'
  · exact .bind (object_gives hx w') fun _ _ _ hq => address_gives hq

/-- An expression gives the place that it is. -/
lemma gives_ofPlace {e : TExpr} {place : Lower Place} (h : ∀ w, D.Gives w place D.HasPlace) :
    (Lowered.ofPlace e place).Gives D where
  place := h
  values w _ _ := .bind (h w) fun _ _ _ hq => .bind (fetch_gives hq) fun _ _ _ ho =>
    .pure (hasAll_singleton ho)

/-- An expression gives its values. -/
lemma gives_ofValues {e : TExpr} {values : List (Option Operand) → Lower (List Operand)}
    (h : ∀ w dests, D.HasGiven w dests → D.Gives w (values dests) D.HasAll) :
    (Lowered.ofValues e values).Gives D where
  place _ := .bind (typeOf_gives e) fun _ _ _ _ => .bug _
  values := h

/-- An expression gives the value that it is. -/
lemma gives_ofValue {e : TExpr} {value : Lower Operand} (h : ∀ w, D.Gives w value D.Has) :
    (Lowered.ofValue e value).Gives D :=
  gives_ofValues fun w _ _ => .bind (h w) fun _ _ _ ho => .pure (hasAll_singleton ho)

/-! ## Calls -/

/-- Slots to which variables are copied may be read. -/
def HasSpilled (D : Discipline env) (w : D.World) (back : List (Operand × Var)) : Prop :=
  ∀ q ∈ back, D.Has w q.1

/-- What was spilled is had later. -/
lemma HasSpilled.mono {w' : D.World} {back : List (Operand × Var)} (h : D.HasSpilled w back)
    (hle : D.Le w w') : D.HasSpilled w' back :=
  fun q hq => D.has_mono hle (h q hq)

/-- What was spilled is written back under the discipline. -/
lemma writeBack_gives : ∀ {back : List (Operand × Var)} {w : D.World}, D.HasSpilled w back →
    D.Gives w (writeBack back) fun _ _ => True
  | [], _, _ => .pure trivial
  | (slot, v) :: back, w, h => by
    obtain ⟨hs, hback⟩ := List.forall_mem_cons.1 h
    refine .define (fun _ => ⟨rfl, rfl, rfl⟩) (fun _ => hasAll_singleton hs) fun w₁ r h₁ hr =>
      .bind (move_gives v hr) fun w₂ _ h₂ _ => writeBack_gives ?_
    exact HasSpilled.mono hback (D.le_trans h₁ h₂)

/-- An operand is copied to a slot. -/
lemma spill_gives (name : String) (size align : Int64) (ho : D.Has w o) : D.Gives w (do
      let slot ← newSlot name size align none
      emit (.store slot none o)
      return slot) D.Has := by
  refine .bind (D.holds_newSlot ..) fun w₁ q h₁ hq => ?_
  obtain ⟨s, rfl⟩ := hq
  exact .bind (store_gives (has_slot s) (D.has_mono h₁ ho)) fun _ _ _ _ => .pure (has_slot s)

/-- An argument is had, and so is what it spills. -/
lemma argument_gives (a : Param) (hx : x.Gives D) (w : D.World) :
    D.Gives w (argument a x) fun w' q => D.Has w' q.1 ∧ D.HasSpilled w' q.2 := by
  unfold argument
  split
  · exact .bind (object_gives hx w) fun _ _ _ hq => .bind (address_gives hq) fun _ _ _ ho =>
      .pure ⟨ho, List.forall_mem_nil _⟩
  · split
    · refine .bind (hx.place w) fun _ q _ hq => ?_
      split
      · exact .bind (spill_gives _ _ _ (has_var _)) fun _ _ _ hs =>
          .pure ⟨hs, List.forall_mem_singleton.2 hs⟩
      · exact .bind (address_gives hq) fun _ _ _ ho => .pure ⟨ho, List.forall_mem_nil _⟩
    · exact .bind (value_gives hx w) fun _ _ _ ho => .pure ⟨ho, List.forall_mem_nil _⟩

/-- Arguments are had, and so is what they spill. -/
lemma arguments_gives : ∀ (as : List Param) {xs : List Lowered} (w : D.World),
    (∀ x ∈ xs, x.Gives D) →
    D.Gives w (arguments as xs) fun w' q => D.HasAll w' q.1 ∧ D.HasSpilled w' q.2
  | [], _, _, _ => .pure ⟨hasAll_nil, List.forall_mem_nil _⟩
  | _ :: _, [], _, _ => .throw _
  | a :: as, x :: xs, w, h => by
    obtain ⟨hx, hxs⟩ := List.forall_mem_cons.1 h
    exact .bind (argument_gives a hx w) fun w₁ q _ hq =>
      .bind (arguments_gives as w₁ hxs) fun w₂ r h₂ hr =>
      .pure ⟨.cons (D.has_mono h₂ hq.1) hr.1, List.forall_mem_append.2 ⟨hq.2.mono h₂, hr.2⟩⟩

/-- The results of a call may be read once its outputs may be. -/
structure HasResults (D : Discipline env) (w : D.World)
    (q : List Operand × List Operand × List Operand) : Prop where
  hidden : D.HasAll w q.2.1
  outs : ∀ o ∈ q.2.2, ∃ r, o = .reg r
  results : ∀ {w'}, D.Le w w' → D.HasAll w' q.2.2 → D.HasAll w' q.1

/-- The storage of results is had. -/
lemma resultStorage_gives : ∀ (rs : List Param) {n : Nat} {w : D.World}, D.HasGiven w dests →
    D.Gives w (resultStorage dests n rs) D.HasResults
  | [], _, _, _ => .pure ⟨hasAll_nil, nofun, fun _ _ => hasAll_nil⟩
  | r :: rs, n, w, hd => by
    unfold resultStorage
    split
    · have hidden : ∀ {w₁ : D.World} {a : Operand}, D.Le w w₁ → D.Has w₁ a → D.Gives w₁ (do
          let q ← resultStorage dests (n + 1) rs
          return (a :: q.1, a :: q.2.1, q.2.2)) D.HasResults := fun h₁ ha =>
        .bind (resultStorage_gives rs (hd.mono h₁)) fun _ _ h₂ hq => .pure
          ⟨.cons (D.has_mono h₂ ha) hq.hidden, hq.outs, fun h₃ ho =>
            .cons (D.has_mono (D.le_trans h₂ h₃) ha) (hq.results h₃ ho)⟩
      dsimp only
      split
      · exact .bind (.pure (hd _ (List.mem_of_getElem? ‹_›))) fun _ _ => hidden
      · refine .bind (slotFor_gives ..) fun _ a h₁ ha => ?_
        obtain ⟨s, rfl⟩ := ha
        exact hidden h₁ (has_slot s)
    · refine .bind (D.holds_newReg _) fun w₁ o h₁ ho =>
        .bind (resultStorage_gives rs (hd.mono h₁)) fun w₂ q h₂ hq => .pure ⟨hq.hidden, ?_, ?_⟩
      · exact List.forall_mem_cons.2 ⟨ho, hq.outs⟩
      · intro w' h₃ hos
        obtain ⟨hr, hrs⟩ := List.forall_mem_cons.1 hos
        exact .cons hr (hq.results h₃ hrs)

/-- **A call** gives its results to be read. -/
lemma call_gives (s : Signature) {decl decl' : Option FuncDecl}
    (hdecl : Option.Rel D.Matches decl decl') {self : Lower (List Operand)} {xs : List Lowered}
    (hself : D.Gives w self D.HasAll) (hxs : ∀ x ∈ xs, x.Gives D) (hd : D.HasGiven w dests) :
    D.Pairs w (call s decl self xs dests) (call s decl' self xs dests) fun w' q =>
      D.HasAll w' q.1 ∧ D.HasAll w' q.2 := by
  obtain @⟨d, d', hdd⟩ | _ := hdecl
  swap
  · exact .bug _
  · refine .bind hself fun w₁ ss h₁ hss => .bind (arguments_gives s.params w₁ hxs)
      fun w₂ q h₂ hq => .bind (resultStorage_gives s.results (hd.mono (D.le_trans h₁ h₂)))
      fun w₃ r h₃ hr => ?_
    have back : ∀ {w₄ : D.World}, D.Le w₃ w₄ → D.HasAll w₄ r.2.2 → D.Gives w₄ (do
        writeBack q.2
        return (ss, r.1)) fun w' q => D.HasAll w' q.1 ∧ D.HasAll w' q.2 := by
      intro w₄ h₄ houts
      refine .bind (writeBack_gives (hq.2.mono (D.le_trans h₃ h₄))) fun w₅ _ h₅ _ => .pure ⟨?_, ?_⟩
      · exact hss.mono (D.le_trans h₂ (D.le_trans h₃ (D.le_trans h₄ h₅)))
      · exact (hr.results h₄ houts).mono h₅
    dsimp only
    rw [hdd.2]
    split
    · refine .bind (D.holds_emit (.call hdd.1) rfl ?_) fun w₄ _ h₄ hdef => back h₄ fun o ho => ?_
      · exact (((hss.mono h₂).append hq.1).mono h₃).append hr.hidden
      · obtain ⟨t, rfl⟩ := hr.outs o ho
        exact hdef t (List.mem_filterMap.2 ⟨_, ho, rfl⟩)
    · rename_i hempty
      have hnil : r.2.2 = [] := by simp_all
      exact back (D.le_refl w₃) (hnil ▸ hasAll_nil)

/-- A call of a member gives its results. -/
lemma callMember_gives (f : MemberFunction) {self : Lower (List Operand)} {xs : List Lowered}
    (hself : D.Gives w self D.HasAll) (hxs : ∀ x ∈ xs, x.Gives D) (hd : D.HasGiven w dests) :
    D.Gives w (callMember f self xs dests) fun w' q => D.HasAll w' q.1 ∧ D.HasAll w' q.2 :=
  .ofRead (call_gives f.sig (D.matches_decls _) hself hxs hd)

/-- A call of a routine gives its results. -/
lemma callRoutine_gives (f : MemberFunction) {xs : List Lowered} (hxs : ∀ x ∈ xs, x.Gives D)
    (hd : D.HasGiven w dests) : D.Gives w (callRoutine f xs dests) D.HasAll := by
  have hself : D.Gives w (if f.hasSelf then bug (f.qualifiedName ++ " called without an instance")
      else return []) D.HasAll := by
    split
    · exact .bug _
    · exact .pure hasAll_nil
  exact .bind (callMember_gives f hself hxs hd) fun _ _ _ hq => .pure hq.2

/-- A create that is called gives its instance. -/
lemma callCreate_gives (f : MemberFunction) {xs : List Lowered} (hxs : ∀ x ∈ xs, x.Gives D)
    (hd : D.HasGiven w dests) : D.Gives w (callCreate f xs dests) D.HasAll := by
  refine .bind (callMember_gives f ?_ hxs hd) fun _ _ _ hq => .pure hq.1
  split
  · exact .pure (hasAll_singleton (hd _ List.mem_cons_self))
  · refine .bind (slotFor_gives ..) fun _ a _ ha => ?_
    obtain ⟨s, rfl⟩ := ha
    exact .pure (hasAll_singleton (has_slot s))

/-- A conversion gives its value. -/
lemma convert_gives (k : ScalarKind) {xs : List Lowered} (hxs : ∀ x ∈ xs, x.Gives D)
    (w : D.World) : D.Gives w (convert k xs) D.HasAll := by
  unfold convert
  split
  · exact .bind (value_gives (hxs _ List.mem_cons_self) w) fun _ _ _ ho =>
      .bind (compute_gives (hasAll_singleton ho)) fun _ _ _ hr => .pure (hasAll_singleton hr)
  · exact .throw _

/-! ## All expressions -/

/-- A local that is admitted has a place. -/
lemma localPlace_gives (e : TExpr) {l : Option Local} (hl : ∀ x, l = some x → D.Admits x)
    (w : D.World) : D.Gives w (localPlace e l) D.HasPlace := by
  refine .bind (typeOf_gives e) fun _ t _ _ => ?_
  split
  · exact .bind (D.holds_storageOf (hl _ rfl)) fun _ _ _ hs => .pure (hs t)
  · exact .bug _

/-- A member of what is given has a place. -/
lemma memberPlace_gives (e : TExpr) (v : MemberVar) (hx : x.Gives D) (w : D.World) :
    D.Gives w (memberPlace e x v) D.HasPlace := by
  refine .bind (typeOf_gives e) fun _ t _ _ => .bind (memberOf_gives v) fun _ m _ _ =>
    .bind (typeOf_gives x.expr) fun w' u _ _ => ?_
  split
  · exact .bind (value_gives hx w') fun _ _ _ ho => .pure ho
  · exact .bind (object_gives hx w') fun _ _ _ hq => .pure hq

/-- An element of what is given has a place. -/
lemma elementPlace_gives (e : TExpr) (hx : x.Gives D) (hi : i.Gives D) (w : D.World) :
    D.Gives w (elementPlace e x i) D.HasPlace := by
  refine .bind (typeOf_gives e) fun _ t _ _ => .bind (typeOf_gives x.expr) fun w₁ u _ _ => ?_
  split
  · refine .bind (object_gives hx w₁) fun w₂ q _ hq => .bind (loadField_gives hq _)
      fun w₃ data _ hdata => .bind (value_gives hi w₃) fun w₄ n h₄ hn =>
      .bind (sizeOf_gives _) fun w₅ s h₅ _ => ?_
    have hdata := D.has_mono (D.le_trans h₄ h₅) hdata
    have hn := D.has_mono h₅ hn
    have element : ∀ {w₆ : D.World} {n : Operand}, D.Le w₅ w₆ → D.Has w₆ n → D.Gives w₆ (do
        let addr ← compute .ptrAdd .ptr [data, n]
        return .memory addr none t) D.HasPlace := fun h₆ hn =>
      .bind (compute_gives (hasAll_pair (D.has_mono h₆ hdata) hn)) fun _ _ _ ha => .pure ha
    dsimp only
    split
    · exact .bind (.pure hn) fun _ _ => element
    · exact .bind (compute_gives (hasAll_pair hn (has_const _))) fun _ _ => element
  · exact .throw _

/-- The size of a container is given. -/
lemma sizeAccess_gives (e : TExpr) (hx : x.Gives D) (w : D.World) :
    D.Gives w (sizeAccess e x) D.Has := by
  refine .bind (typeOf_gives x.expr) fun w₁ u _ _ => ?_
  split
  · exact .bind (object_gives hx w₁) fun _ _ _ hq => loadField_gives hq _
  · exact .bind (typeOf_gives e) fun _ _ _ _ => .bug _

/-- What was not resolved fails under the discipline. -/
lemma unresolved_gives (e : TExpr) : (unresolved e).Gives D :=
  gives_ofValues fun _ _ _ => .bug _

mutual

/-- **Disciplines hold of the code of expressions**, if they admit the locals that are named. -/
theorem expr_gives (D : Discipline env) : ∀ {x : TExpr}, x.NamesIn D.Admits → (expr x).Gives D
  | .ident .., h | .self .., h => gives_ofPlace (localPlace_gives _ h.binding)
  | .literal _ _ l, _ => gives_ofValue fun _ => .pure (has_const _)
  | .unary _ _ _ (some f) x, h =>
    have hx := expr_gives D (h.part (List.mem_singleton_self x))
    gives_ofValues fun _ _ hd => callRoutine_gives f (by simpa using hx) hd
  | .unary _ _ _ none x, h =>
    have hx := expr_gives D (h.part (List.mem_singleton_self x))
    gives_ofValue fun w => .bind (value_gives hx w) fun _ _ _ ha =>
      .bind (typeOf_gives _) fun _ _ h _ => compute_gives (hasAll_singleton (D.has_mono h ha))
  | .binary _ _ _ (some f) x y, h =>
    have hx := expr_gives D (h.part (y := x) List.mem_cons_self)
    have hy := expr_gives D (h.part (y := y) (List.mem_cons_of_mem _ List.mem_cons_self))
    gives_ofValues fun _ _ hd => callRoutine_gives f (by simpa using ⟨hx, hy⟩) hd
  | .binary _ _ _ none x y, h =>
    have hx := expr_gives D (h.part (y := x) List.mem_cons_self)
    have hy := expr_gives D (h.part (y := y) (List.mem_cons_of_mem _ List.mem_cons_self))
    gives_ofValue fun w => .bind (value_gives hx w) fun w₁ _ _ ha =>
      .bind (value_gives hy w₁) fun _ _ h₂ hb => .bind (typeOf_gives _) fun _ _ h₃ _ =>
      compute_gives (hasAll_pair (D.has_mono (D.le_trans h₂ h₃) ha) (D.has_mono h₃ hb))
  | .member _ _ x _ (some v) _, h =>
    have hx := expr_gives D (h.part (List.mem_singleton_self x))
    gives_ofPlace (memberPlace_gives _ v hx)
  | .member _ _ x _ none _, h =>
    have hx := expr_gives D (h.part (List.mem_singleton_self x))
    gives_ofValue (sizeAccess_gives _ hx)
  | .index _ _ x i, h =>
    have hx := expr_gives D (h.part (y := x) List.mem_cons_self)
    have hi := expr_gives D (h.part (y := i) (List.mem_cons_of_mem _ List.mem_cons_self))
    gives_ofPlace (elementPlace_gives _ hx hi)
  | .deref _ _ x, h =>
    have hx := expr_gives D (h.part (List.mem_singleton_self x))
    gives_ofPlace fun _ => .bind (typeOf_gives _) fun w _ _ _ => .bind (value_gives hx w)
      fun _ _ _ ho => .pure ho
  | .method _ _ x _ args (some f), h =>
    have hx := expr_gives D (h.part (y := x) List.mem_cons_self)
    have hargs := exprs_give D args fun y hy => h.part (List.mem_cons_of_mem x hy)
    gives_ofValues fun w _ hd => .bind (callMember_gives f (.bind (receiver_gives hx w)
      fun _ _ _ ho => .pure (hasAll_singleton ho)) hargs hd) fun _ _ _ hq => .pure hq.2
  | .routine _ _ _ _ args (some (.convert k)), h =>
    have hargs := exprs_give D args fun _ => h.part
    gives_ofValues fun w _ _ => convert_gives k hargs w
  | .routine _ _ _ _ args (some (.routine f)), h =>
    have hargs := exprs_give D args fun _ => h.part
    gives_ofValues fun _ _ hd => callRoutine_gives f hargs hd
  | .routine _ _ _ _ args (some (.construct f)), h =>
    have hargs := exprs_give D args fun _ => h.part
    gives_ofValues fun _ _ hd => callCreate_gives f hargs hd
  | .ccall _ _ _ args (some f), h =>
    have hargs := exprs_give D args fun _ => h.part
    gives_ofValues fun _ _ hd => .ofRead
      (.bind (call_gives f.sig (D.matches_foreigns _) (.pure hasAll_nil) hargs hd)
        fun _ _ _ hq => .pure hq.2)
  | .method _ _ _ _ _ none, _ | .routine _ _ _ _ _ none, _ | .ccall _ _ _ _ none, _ =>
    unresolved_gives _

/-- Disciplines hold of the code of several expressions. -/
theorem exprs_give (D : Discipline env) : ∀ xs : List TExpr,
    (∀ x ∈ xs, x.NamesIn D.Admits) → ∀ y ∈ exprs xs, y.Gives D
  | [], _ => List.forall_mem_nil _
  | x :: xs, h => by
    obtain ⟨hx, hxs⟩ := List.forall_mem_cons.1 h
    exact List.forall_mem_cons.2 ⟨expr_gives D hx, exprs_give D xs hxs⟩

end

end Discipline

/-! ## Disciplines with a rule for the sizes of containers -/

/-- **Disciplines of values**, whose code may depend on the number of instances that packed code
works on. -/
structure ValueDiscipline (env : Env) extends Discipline env where
  holds_byteSize : ∀ {w} (kind inner) {n}, Has w n →
    Relates w (byteSize kind inner n) (byteSize kind inner n) fun w' o => Le w w' ∧ Has w' o

namespace ValueDiscipline

open Discipline

variable {env : Env} {D : ValueDiscipline env} {w : D.World} {p q : Place}
  {operands : List (List Operand)} {ps : List Pair}

/-! ## Containers -/

/-- A container is allocated under the discipline. -/
lemma allocContainer_gives (hp : D.HasPlace w p) {n : Operand} (hn : D.Has w n) :
    D.Gives w (allocContainer p n) fun _ _ => True := by
  unfold allocContainer
  split
  · exact .defineAfter (P := D.Has) (fun _ h => D.holds_byteSize _ _ (D.has_mono h hn))
      (fun _ _ _ _ ha => ⟨rfl, rfl, rfl, HasAll.cons ha hasAll_nil⟩)
      (fun _ _ _ h _ hr => storeHeader_gives (hp.mono h) hr (D.has_mono h hn))
      fun _ _ _ => D.has_mono
  · exact .throw _

/-- A container is copied under the discipline. -/
lemma copyContainer_gives (hp : D.HasPlace w p) (hq : D.HasPlace w q) :
    D.Gives w (copyContainer p q) fun _ _ => True := by
  unfold copyContainer
  split
  · refine .bind (loadField_gives hq _) fun w₁ data h₁ hdata =>
      .bind (loadField_gives (hq.mono h₁) _) fun w₂ n h₂ hn =>
      .bind (D.holds_byteSize _ _ hn) fun w₃ bytes h₃ hbytes =>
      .define (fun _ => ⟨rfl, rfl, rfl⟩) (fun _ => HasAll.cons hbytes hasAll_nil)
        fun w₄ r h₄ hr => ?_
    have h₂₄ := D.le_trans h₃ h₄
    refine .bind (.emit rfl rfl (HasAll.cons hr (.cons (D.has_mono (D.le_trans h₂ h₂₄) hdata)
      (.cons (D.has_mono h₄ hbytes) hasAll_nil)))) fun w₅ _ h₅ _ => ?_
    have h₂₅ := D.le_trans h₂₄ h₅
    exact storeHeader_gives (hp.mono (D.le_trans h₁ (D.le_trans h₂ h₂₅))) (D.has_mono h₅ hr)
      (D.has_mono h₂₅ hn)
  · exact .throw _

/-- A value is copied under the discipline. -/
lemma copyValue_gives (hp : D.HasPlace w p) (hq : D.HasPlace w q) :
    D.Gives w (copyValue p q) fun _ _ => True := by
  unfold copyValue
  split
  · exact copyContainer_gives hp hq
  · exact selectAt_gives _ _ _ hp (by simpa using hq)
  · exact .bind (fetch_gives hq) fun _ _ h ho => put_gives (hp.mono h) ho

/-- A value is assigned under the discipline. -/
lemma assignValue_gives (hp : D.HasPlace w p) (hq : D.HasPlace w q) :
    D.Gives w (assignValue p q) fun _ _ => True := by
  unfold assignValue
  split
  · exact selectAt_gives _ _ _ hp (by simpa using hq)
  · exact copyValue_gives hp hq

/-! ## Values of assignments -/

/-- The operands of all expressions on the right may be read. -/
def AllHave (D : Discipline env) (w : D.World) (operands : List (List Operand)) : Prop :=
  ∀ os ∈ operands, D.HasAll w os

/-- Operands that are had in a world are had later. -/
lemma AllHave.mono {w' : D.World} (h : AllHave D.toDiscipline w operands) (hle : D.Le w w') :
    AllHave D.toDiscipline w' operands :=
  fun os hos => (h os hos).mono hle

/-- A value on the right is had. -/
lemma valueOf_gives (ho : AllHave D.toDiscipline w operands) (v : PairValue) :
    D.Gives w (valueOf operands v) D.Has := by
  unfold valueOf
  split
  · rename_i o hv
    refine .pure ?_
    rw [List.getD_eq_getElem?_getD] at hv
    cases h : operands[v.source]? with
    | none => simp [h] at hv
    | some os =>
      rw [h] at hv
      exact ho os (List.mem_of_getElem? h) o (List.mem_of_getElem? hv)
  · exact .throw _

/-- The arguments of a create or an assign are had. -/
lemma givenArguments_gives : ∀ (as : List Param) (vs : List PairValue) {w : D.World},
    AllHave D.toDiscipline w operands → D.Gives w (givenArguments operands as vs) D.HasAll
  | [], [], _, _ | _ :: _, [], _, _ => .pure hasAll_nil
  | [], _ :: _, _, _ => .throw _
  | a :: as, v :: vs, w, ho => by
    refine .bind (valueOf_gives ho v) fun w₁ o h₁ ho' => ?_
    have rest : ∀ {w₂ : D.World} {o : Operand}, D.Le w₁ w₂ → D.Has w₂ o → D.Gives w₂ (do
        return o :: (← givenArguments operands as vs)) D.HasAll := fun h₂ ho' =>
      .bind (givenArguments_gives as vs (ho.mono (D.le_trans h₁ h₂))) fun _ _ h₃ hos =>
        .pure (.cons (D.has_mono h₃ ho') hos)
    dsimp only
    split
    · exact .bind (spill_gives _ _ _ ho') fun _ _ => rest
    · exact .bind (.pure ho') fun _ _ => rest

/-- The storage of new locals that is given to the expressions on the right may be read. -/
def AllGiven (D : Discipline env) (w : D.World) (dests : List (Nat × List (Option Operand))) :
    Prop :=
  ∀ n, D.HasGiven w ((dests.lookup n).getD [])

/-- Destinations that are given in a world are given later. -/
lemma AllGiven.mono {w' : D.World} {dests : List (Nat × List (Option Operand))}
    (h : AllGiven D.toDiscipline w dests) (hle : D.Le w w') : AllGiven D.toDiscipline w' dests :=
  fun n => (h n).mono hle

/-- One more destination is given. -/
lemma hasGiven_setEntry {ds : List (Option Operand)} (h : D.HasGiven w ds) (i : Nat) {o : Operand}
    (ho : D.Has w o) : D.HasGiven w (setEntry ds i o) := by
  intro d hd
  obtain hd | hd := List.mem_or_eq_of_mem_set hd
  · obtain hd | hd := List.mem_append.1 hd
    · exact h d hd
    · cases List.eq_of_mem_replicate hd
  · exact Option.some.inj hd ▸ ho

/-- A snapshot of operands is had. -/
lemma snapshot_gives : ∀ {os : List Operand} {w : D.World}, D.HasAll w os →
    D.Gives w (snapshot os) D.HasAll
  | [], _, _ => .pure hasAll_nil
  | o :: os, w, h => by
    obtain ⟨ho, hos⟩ := List.forall_mem_cons.1 h
    have rest : ∀ {w₁ : D.World} {r : Operand}, D.Le w w₁ → D.Has w₁ r →
        D.Gives w₁ (do return r :: (← snapshot os)) D.HasAll := fun h₁ hr =>
      .bind (snapshot_gives (HasAll.mono hos h₁)) fun _ _ h₂ hrs =>
      .pure (.cons (D.has_mono h₂ hr) hrs)
    cases o with
    | var v => exact .bind (compute_gives (hasAll_singleton ho)) fun _ _ => rest
    | _ => exact rest (D.le_refl w) ho

/-- Values are evaluated under the discipline. -/
lemma evaluate_gives {dests : List (Nat × List (Option Operand))} :
    ∀ (source : Nat) {xs : List TExpr} {w : D.World}, (∀ x ∈ xs, x.NamesIn D.Admits) →
    AllGiven D.toDiscipline w dests →
    D.Gives w (evaluate ps dests source xs) (AllHave D.toDiscipline)
  | _, [], _, _, _ => .pure (List.forall_mem_nil _)
  | source, x :: xs, w, hn, hd => by
    obtain ⟨hx, hxs⟩ := List.forall_mem_cons.1 hn
    have copies : ∀ {w₁ : D.World} {os : List Operand}, D.Le w w₁ → D.HasAll w₁ os → D.Gives w₁ (do
        let os ← if ps.length > 1 then snapshot os else pure os
        return os :: (← evaluate ps dests (source + 1) xs)) (AllHave D.toDiscipline) := by
      intro w₁ os h₁ hos
      have rest : ∀ {w₂ : D.World} {os : List Operand}, D.Le w₁ w₂ → D.HasAll w₂ os →
          D.Gives w₂ (do
            return os :: (← evaluate ps dests (source + 1) xs)) (AllHave D.toDiscipline) :=
        fun h₂ hos => .bind (evaluate_gives (source + 1) hxs (hd.mono (D.le_trans h₁ h₂)))
          fun _ _ h₃ hrest => .pure (List.forall_mem_cons.2 ⟨hos.mono h₃, hrest⟩)
      split
      · exact .bind (snapshot_gives hos) fun _ _ => rest
      · exact .bind (.pure hos) fun _ _ => rest
    unfold evaluate
    dsimp only
    split
    · exact .bind ((expr_gives _ hx).place w) fun _ _ h₁ hq => .bind (address_gives hq)
        fun _ _ h₂ ha => .bind (.pure (hasAll_singleton ha)) fun _ _ h₃ =>
        copies (D.le_trans h₁ (D.le_trans h₂ h₃))
    · exact .bind ((expr_gives _ hx).values w _ (hd source)) fun _ _ => copies

/-- Values that nothing takes are evaluated under the discipline. -/
lemma discard_gives : ∀ {xs : List TExpr} (w : D.World), (∀ x ∈ xs, x.NamesIn D.Admits) →
    D.Gives w (discard xs) fun _ _ => True
  | [], _, _ => .pure trivial
  | x :: xs, w, hn => by
    obtain ⟨hx, hxs⟩ := List.forall_mem_cons.1 hn
    exact .bind ((expr_gives _ hx).values w [] nofun) fun w' _ _ _ => discard_gives w' hxs

end ValueDiscipline

/-! ## Disciplines with rules for statements -/

/-- **Disciplines of bodies** admit all locals. What is known of registers may be lost at labels and
jumps. -/
structure BodyDiscipline (env : Env) extends ValueDiscipline env where
  admits : ∀ l, Admits l
  holds_locals : ∀ {α : Type} {w} {g : Builder → Lower α} {R},
    (∀ b b', b.locals = b'.locals → g b = g b') →
    (∀ b, b.AreSettled → Relates w (g b) (g b) R) → Relates w (get >>= g) (get >>= g) R
  holds_setStorage : ∀ {w} (id) {s : Storage}, s.IsSettled →
    Relates w (setStorage id s) (setStorage id s) fun w' _ => Le w w'
  holds_newLabel : ∀ {w} (hint),
    Relates w (newLabel hint) (newLabel hint) fun w' _ => Le w w'
  holds_jump : ∀ {w} {i : Instr}, i.isCall = false → (∀ o ∈ i.uses, Has w o) → i.defines = [] →
    i.isOfFrame = false → Relates w (emit i) (emit i) fun _ _ => True
  holds_inBlock : ∀ {w} {m : Lower Unit}, Relates w m m (fun _ _ => True) →
    Relates w (inBlock m) (inBlock m) fun _ _ => True

namespace BodyDiscipline

open Discipline ValueDiscipline

variable {env : Env} {D : BodyDiscipline env} {w : D.World} {p q : Place}
  {operands : List (List Operand)} {ps : List Pair}

/-- The storage of locals is looked up under the discipline. -/
lemma locals_gives {α : Type} {g : Builder → Lower α} {R : D.World → α → Prop}
    (hn : ∀ b b', b.locals = b'.locals → g b = g b')
    (hg : ∀ b, b.AreSettled → D.Gives w (g b) R) : D.Gives w (get >>= g) R :=
  D.holds_locals hn hg

/-- All expressions are admitted. -/
lemma namesIn (D : BodyDiscipline env) (x : TExpr) : x.NamesIn D.Admits := fun _ l _ _ => D.admits l

/-- Settled storage is given to a local. -/
lemma setStorage_gives (id : Nat) {s : Storage} (hs : s.IsSettled) :
    D.Gives w (setStorage id s) fun _ _ => True :=
  weaken (D.holds_setStorage id hs) fun _ _ h => ⟨h, trivial⟩

/-- A new variable keeps the discipline. -/
lemma newVar_gives (name : String) (t : VType) : D.Gives w (newVar name t) fun _ _ => True :=
  weaken (D.holds_newVar name t) fun _ _ h => ⟨h, trivial⟩

/-! ## Assignments -/

/-- A local gets settled storage. -/
lemma bindLocal_gives (l : Local) : D.Gives w (bindLocal l) fun _ s => s.IsSettled := by
  refine locals_gives (fun b b' h => by rw [h]) fun b hb => ?_
  split
  · exact .pure (isSettled_of_lookup hb ‹_›)
  · have bound : ∀ {w : D.World} {s : Storage}, s.IsSettled → D.Gives w (do
        setStorage l.id s
        return s) fun _ s => s.IsSettled := fun hs =>
      .bind (setStorage_gives l.id hs) fun _ _ _ _ => .pure hs
    dsimp only
    split
    · exact .bind (newVar_gives _ _) fun _ v _ _ => .bind (R := fun _ s => s.IsSettled)
        (.pure trivial) fun _ _ _ hs => bound hs
    · refine .bind (slotFor_gives ..) fun _ a _ ha => ?_
      obtain ⟨s, rfl⟩ := ha
      exact .bind (R := fun _ s => s.IsSettled) (.pure nofun) fun _ _ _ hs => bound hs

/-- The place of a target is had. -/
lemma targetPlace_gives (g : TTarget) (w : D.World) : D.Gives w (targetPlace g) D.HasPlace := by
  cases g with
  | decl _ l => exact .bind (bindLocal_gives l) fun _ _ _ hs => .pure (hasPlace_ofStorage hs _)
  | expr e => exact (expr_gives _ (D.namesIn e)).place w

/-- A pair is lowered under the discipline. -/
lemma pair_gives (ho : AllHave D.toDiscipline w operands) (q : Pair) :
    D.Gives w (pair operands q) fun _ _ => True := by
  have target : D.Gives w (targetPlace q.target) D.HasPlace := targetPlace_gives q.target w
  have value : ∀ {w' : D.World} v, D.Le w w' → D.Gives w' (valueOf operands v) D.Has :=
    fun v h => valueOf_gives (ho.mono h) v
  unfold pair
  split
  · split
    · exact .bind (bindLocal_gives _) fun _ _ _ _ => .pure trivial
    · exact .pure trivial
  · exact .pure trivial
  · exact .bind target fun _ _ _ hq => put_gives hq (has_const _)
  · exact .bind target fun _ _ h hq => .bind (value _ h) fun _ _ h' hv => put_gives (hq.mono h') hv
  · exact .bind target fun _ _ h hq => .bind (value _ h) fun _ _ h' hv => put_gives (hq.mono h') hv
  · exact .bind target fun _ _ h hq => .bind (value _ h) fun _ _ h' hv =>
      copyContainer_gives (hq.mono h') hv
  · exact .bind target fun _ _ _ hq => emptyContainer_gives hq
  · exact .bind target fun _ _ h hq => .bind (value _ h) fun _ _ h' hv =>
      allocContainer_gives (hq.mono h') hv
  · exact .bind target fun _ _ h₁ hq => .bind (address_gives hq) fun _ _ h₂ ha =>
      .bind (givenArguments_gives _ _ (ho.mono (D.le_trans h₁ h₂))) fun _ _ h₃ has =>
      invoke_gives _ (D.has_mono h₃ ha) has
  · exact .throw _
  · exact .throw _

/-- Pairs are lowered under the discipline. -/
lemma pairs_give : ∀ (qs : List Pair) {w : D.World}, AllHave D.toDiscipline w operands →
    D.Gives w (pairs operands qs) fun _ _ => True
  | [], _, _ => .pure trivial
  | q :: qs, _, ho => .bind (pair_gives ho q) fun _ _ h _ => pairs_give qs (ho.mono h)

/-- Pairs give their destinations. -/
lemma destinations_give : ∀ (qs : List Pair) {w : D.World}
    {dests : List (Nat × List (Option Operand))}, AllGiven D.toDiscipline w dests →
    D.Gives w (destinations qs dests) (AllGiven D.toDiscipline)
  | [], _, _, h => .pure h
  | q :: qs, w, dests, h => by
    unfold destinations
    split
    · rename_i l v vs _ _ _
      refine .bind (bindLocal_gives l) fun w₁ s h₁ hs => ?_
      split
      · refine destinations_give qs fun n => ?_
        rw [List.lookup_cons]
        split
        · exact hasGiven_setEntry ((h v.source).mono h₁) _ (D.has_of_ne_reg hs)
        · exact (h n).mono h₁
      · exact destinations_give qs (h.mono h₁)
    · exact destinations_give qs h

/-- **Disciplines hold of the code of assignments**. -/
theorem assign_gives (vs : List TExpr) (ps : List Pair) (ds : List TExpr) (w : D.World) :
    D.Gives w (assign vs ps ds) fun _ _ => True := by
  refine .bind (discard_gives w fun x _ => D.namesIn x) fun w₁ _ _ _ =>
    .bind (destinations_give ps nofun)
    fun w₂ dests _ hd => ?_
  have indirect : D.Gives w₂ (do
      let operands ← evaluate ps dests 0 vs
      pairs operands ps) fun _ _ => True :=
    .bind (evaluate_gives 0 (fun x _ => D.namesIn x) hd) fun _ _ _ ho => pairs_give ps ho
  split
  · rename_i f g ws
    split
    · refine .bind (targetPlace_gives g w₂) fun _ q _ hq => .bind (address_gives hq)
        fun w₃ a _ ha => .bind (arguments_gives f.sig.params w₃ fun x hx => ?_) fun _ r h₄ hr =>
        .bind (invoke_gives f (D.has_mono h₄ ha) hr.1) fun _ _ h₅ _ =>
        .bind (writeBack_gives (hr.2.mono h₅)) fun _ _ _ _ => .pure trivial
      obtain ⟨v, -, hv⟩ := List.mem_filterMap.1 hx
      obtain ⟨e, -, rfl⟩ := Option.map_eq_some_iff.1 hv
      exact expr_gives _ (D.namesIn e)
    · exact indirect
  · exact indirect

/-! ## Statements -/

/-- Code after which nothing is known about registers. -/
abbrev Ends (D : BodyDiscipline env) (m : Lower Unit) : Prop :=
  ∀ w, D.Holds w m fun _ _ => True

/-- Code ends under the discipline if both its parts do. -/
lemma Ends.bind {m m' : Lower Unit} (h : D.Ends m) (h' : D.Ends m') :
    D.Ends (m >>= fun _ => m') :=
  fun w => D.holds_bind (h w) fun w' _ _ => h' w'

/-- What keeps the discipline ends under it. -/
lemma ends_of_gives {m : Lower Unit} (h : ∀ w, D.Gives w m fun _ _ => True) : D.Ends m :=
  fun w => weaken (h w) fun _ _ _ => trivial

/-- A label ends what is known. -/
lemma label_ends (l : Label) : D.Ends (emit (.label l)) :=
  fun _ => D.holds_jump rfl (List.forall_mem_nil _) rfl rfl

/-- A jump ends what is known. -/
lemma goto_ends (l : Label) : D.Ends (emit (.goto l)) :=
  fun _ => D.holds_jump rfl (List.forall_mem_nil _) rfl rfl

/-- Labels are made. -/
lemma newLabel_ends {hint : String} {f : Label → Lower Unit} (h : ∀ l, D.Ends (f l)) :
    D.Ends (newLabel hint >>= f) :=
  fun _ => D.holds_bind (D.holds_newLabel hint) fun w' l _ => h l w'

/-- A block ends if what is in it does. -/
lemma inBlock_ends {m : Lower Unit} (h : D.Ends m) : D.Ends (inBlock m) :=
  fun w => D.holds_inBlock (h w)

/-- Code branches on an operand. -/
lemma branch_holds {c : Operand} {w : D.World} (hc : D.Has w c) (yes no : Label) :
    D.Holds w (emit (.branch c yes no)) fun _ _ => True :=
  D.holds_jump rfl (List.forall_mem_singleton.2 hc) rfl rfl

/-- Code branches on the value of an expression. -/
lemma condition_ends (x : TExpr) (yes no : Label) : D.Ends (do
    let c ← (expr x).value
    emit (.branch c yes no)) :=
  fun w => D.holds_bind (value_gives (expr_gives _ (D.namesIn x)) w) fun _ _ hc =>
    branch_holds hc.2 yes no

mutual

/-- **Disciplines hold of the code of statements**. -/
theorem statement_holds (D : BodyDiscipline env) (flow : Option Flow) : ∀ s : TStmt,
    D.Ends (statement flow s)
  | .assign _ _ vs ps ds => ends_of_gives (assign_gives vs ps ds)
  | .ifThen _ c _ b => fun w => by
    have body : ∀ yes next, D.Ends (do
        emit (.label yes)
        inBlock (statements flow b)
        emit (.label next)) := fun yes next =>
      (label_ends yes).bind ((inBlock_ends (statements_hold D flow b)).bind (label_ends next))
    refine D.holds_bind (value_gives (expr_gives _ (D.namesIn c)) w) fun w₁ o hc =>
      D.holds_bind (D.holds_newLabel _) fun w₂ yes h₂ =>
      D.holds_bind (D.holds_newLabel _) fun w₃ next h₃ => ?_
    exact D.holds_bind (branch_holds (D.has_mono (D.le_trans h₂ h₃) hc.2) yes next) fun w₄ _ _ =>
      body yes next w₄
  | .ifElse _ c _ b _ o => fun w => by
    have body : ∀ yes next no, D.Ends (do
        emit (.label yes)
        inBlock (statements flow b)
        emit (.goto next)
        emit (.label no)
        inBlock (statements flow o)
        emit (.label next)) := fun yes next no =>
      (label_ends yes).bind ((inBlock_ends (statements_hold D flow b)).bind ((goto_ends next).bind
        ((label_ends no).bind ((inBlock_ends (statements_hold D flow o)).bind (label_ends next)))))
    refine D.holds_bind (value_gives (expr_gives _ (D.namesIn c)) w) fun w₁ o hc =>
      D.holds_bind (D.holds_newLabel _) fun w₂ yes h₂ =>
      D.holds_bind (D.holds_newLabel _) fun w₃ next h₃ =>
      D.holds_bind (D.holds_newLabel _) fun w₄ no h₄ => ?_
    have h₁₄ := D.le_trans h₂ (D.le_trans h₃ h₄)
    exact D.holds_bind (branch_holds (D.has_mono h₁₄ hc.2) yes no) fun w₅ _ _ => body yes next no w₅
  | .whileLoop _ c _ b => by
    refine newLabel_ends fun header => newLabel_ends fun loop => newLabel_ends fun out =>
      (label_ends header).bind fun w => ?_
    refine D.holds_bind (value_gives (expr_gives _ (D.namesIn c)) w) fun w₁ o hc =>
      D.holds_bind (branch_holds hc.2 loop out) fun w₂ _ _ => ?_
    exact (label_ends loop).bind ((inBlock_ends (statements_hold D _ b)).bind
      ((goto_ends header).bind (label_ends out))) w₂
  | .repeatUntil _ _ b c => by
    refine newLabel_ends fun loop => newLabel_ends fun out => newLabel_ends fun next =>
      (label_ends loop).bind ((inBlock_ends ((statements_hold D _ b).bind ?_)).bind
        (label_ends out))
    split
    · exact (label_ends next).bind (condition_ends c out loop)
    · exact condition_ends c out loop
  | .block _ _ b => inBlock_ends (statements_hold D flow b)
  | .ret _ => goto_ends _
  | .brk _ | .cont _ => fun w =>
    D.holds_bind (Pairs.need (R := fun _ _ => True) fun _ _ => trivial) fun w' _ _ => goto_ends _ w'

/-- Disciplines hold of the code of several statements. -/
theorem statements_hold (D : BodyDiscipline env) (flow : Option Flow) : ∀ ss : List TStmt,
    D.Ends (statements flow ss)
  | [] => ends_of_gives fun _ => .pure trivial
  | s :: ss => (statement_holds D flow s).bind (statements_hold D flow ss)

end

/-! ## Functions -/

/-- Each element of a list keeps the discipline. -/
lemma forM_gives {α : Type} {g : α → Lower Unit} (h : ∀ a w, D.Gives w (g a) fun _ _ => True) :
    ∀ (l : List α) (w : D.World), D.Gives w (l.forM g) fun _ _ => True
  | [], _ => .pure trivial
  | a :: l, w => .bind (h a w) fun w' _ _ _ => forM_gives h l w'

/-- The operands for the elements of a list are had. -/
lemma mapM_gives {α : Type} {g : α → Lower Operand} (h : ∀ a w, D.Gives w (g a) fun _ _ => True) :
    ∀ (l : List α) (w : D.World), D.Gives w (l.mapM g) fun _ _ => True
  | [], _ => .pure trivial
  | a :: l, w => by
    rw [List.mapM_cons]
    exact .bind (h a w) fun w₁ _ _ _ => .bind (mapM_gives h l w₁) fun _ _ _ _ => .pure trivial

/-- A parameter is bound to a new variable. -/
lemma bindVar_gives (name : String) (t : VType) (id : Nat) {g : Var → Storage}
    (hg : ∀ v, (g v).IsSettled) (w : D.World) : D.Gives w (do
      let v ← newVar name t
      setStorage id (g v)
      return Operand.var v) fun _ _ => True :=
  .bind (newVar_gives name t) fun _ v _ _ => .bind (setStorage_gives id (hg v)) fun _ _ _ _ =>
    .pure trivial

/-- A parameter passed by address is bound under the discipline. -/
lemma bindAddress_gives (a : Param) (w : D.World) :
    D.Gives w (bindAddress a) fun _ _ => True :=
  bindVar_gives a.name .ptr a.localId (g := fun v => .memory (.var v)) (fun _ => nofun) w

/-- A parameter passed by value is bound under the discipline. -/
lemma bindValue_gives (a : Param) (w : D.World) : D.Gives w (bindValue a) fun _ _ => True :=
  bindVar_gives a.name a.type.code a.localId (g := .var) (fun _ => trivial) w

/-- The place of a parameter is had in every world. -/
lemma paramPlace_gives (a : Param) (w : D.World) :
    D.Gives w (paramPlace a) fun _ p => ∀ w, D.HasPlace w p := by
  refine locals_gives (fun b b' h => by rw [h]) fun b hb => ?_
  split
  · exact .pure fun _ => hasPlace_ofStorage (isSettled_of_lookup hb ‹_›) _
  · exact .throw _

/-- A parameter that the function owns is copied under the discipline. -/
lemma ownCopy_gives (a : Param) (w : D.World) : D.Gives w (ownCopy a) fun _ _ => True := by
  refine .bind (paramPlace_gives a w) fun _ _ _ hq => .bind (slotFor_gives ..) fun _ o _ ho => ?_
  obtain ⟨s, rfl⟩ := ho
  exact .bind (copyValue_gives (has_slot s) (hq _)) fun _ _ _ _ => setStorage_gives _ nofun

/-- A prologue keeps the discipline. -/
lemma prologue_gives (f : MemberFunction) (w : D.World) :
    D.Gives w (prologue f) fun _ _ => True := by
  have rest : ∀ (self : List Operand) (w : D.World), D.Gives w (do
      let ins ← f.sig.params.mapM fun p =>
        if isByAddress p.type then bindAddress p else bindValue p
      let hidden ← f.sig.hiddenResults.mapM bindAddress
      let outs ← f.sig.valueResults.mapM bindValue
      (f.sig.params.filter fun p => !p.type.isAtomic && p.type.modifier == .var).forM ownCopy
      f.sig.hiddenResults.forM fun p => do defaultValue (← paramPlace p)
      return (self ++ ins ++ hidden, outs)) fun _ _ => True := by
    intro self w
    refine .bind (mapM_gives (fun a w => ?_) _ w) fun w₁ _ _ _ =>
      .bind (mapM_gives bindAddress_gives _ w₁) fun w₂ _ _ _ =>
      .bind (mapM_gives bindValue_gives _ w₂) fun w₃ _ _ _ =>
      .bind (forM_gives ownCopy_gives _ w₃) fun w₄ _ _ _ =>
      .bind (forM_gives (fun a w => .bind (paramPlace_gives a w) fun _ _ _ hq =>
        defaultValue_gives (hq _)) _ w₄) fun _ _ _ _ => .pure trivial
    split
    · exact bindAddress_gives a w
    · exact bindValue_gives a w
  unfold prologue
  split
  · exact .bind (newVar_gives _ _) fun _ v _ _ => .bind (setStorage_gives _ nofun) fun _ _ _ _ =>
      .bind (R := fun _ _ => True) (.pure trivial) fun w' self _ _ => rest self w'
  · exact .bind (R := fun _ _ => True) (.pure trivial) fun w' self _ _ => rest self w'

/-- A generated body keeps the discipline. -/
lemma generated_gives (f : MemberFunction) (w : D.World) :
    D.Gives w (generated f) fun _ _ => True := by
  refine locals_gives (fun b b' h => by rw [h]) fun b hb => ?_
  cases hself : b.locals.lookup f.selfId with
  | none => exact .bind (R := fun _ _ => False) (.throw _) fun _ _ _ h => h.elim
  | some s =>
    simp only [pure_bind]
    have hself : ∀ w m t, D.HasPlace w (Place.field (.ofStorage (.ofClass f.cls) s) m t) :=
      fun w _ _ => hasPlace_ofStorage (w := w) (isSettled_of_lookup hb hself) (.ofClass f.cls)
    refine .readSame ?_ (by simp only [D.similar.classOf_eq])
    split
    · exact forM_gives (fun v w => .bind (memberOf_gives v) fun w' m _ _ =>
        defaultValue_gives (hself w' m v.type)) _ w
    · refine .bind (paramPlace_gives _ w) fun w₁ other _ ho => forM_gives (fun v w => ?_) _ w₁
      have hother : ∀ w m t, D.HasPlace w (other.field m t) := fun w _ _ => ho w
      refine .bind (memberOf_gives v) fun w₂ m _ _ => ?_
      split
      · exact assignValue_gives (hself w₂ m v.type) (hother w₂ m v.type)
      · exact copyValue_gives (hself w₂ m v.type) (hother w₂ m v.type)
    · exact .throw _

/-- **Disciplines hold of the code of functions**. -/
theorem build_holds (D : BodyDiscipline env) (e : Elaborated) (f : MemberFunction) (w : D.World) :
    D.Holds w (build e f) fun _ _ => True := by
  have body : D.Ends (bodyOf e f) := by
    unfold bodyOf
    split
    · exact ends_of_gives (generated_gives f)
    · exact statements_hold D none _
  exact D.holds_bind (prologue_gives f w) fun w₁ q _ =>
    D.holds_bind (body w₁) fun _ _ _ => D.holds_pure trivial

end BodyDiscipline

end Lane.Lowering
