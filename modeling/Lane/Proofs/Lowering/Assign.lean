import Lane.Proofs.Analysis.Assign
import Lane.Proofs.Lowering.Expr
import Mathlib.Data.List.Sigma

set_option relaxedAutoImplicit false
set_option autoImplicit false

/-!
# Typed assignments are lowered

A typed assignment is lowered, and gives storage to the locals that it declares. There is one thing
that the typing does not promise: a create or assign that is the only pair of an assignment takes
its arguments directly, and an argument for a `ref` parameter with an atomic type then has to stand
for a place.

## Main definitions

* `Lane.isReady`: whether the arguments that an assignment passes directly can be lowered.
* `Lane.Lowering.Admits`: storage for visible locals, and for some of those that are declared.

## Main results

* `Lane.Lowering.assign_lowers`: typed assignments that are ready are lowered.
* `Lane.Lowering.assign_fails`: assignments that are not ready are not lowered.
-/

namespace Lane

/-! ## Arguments that are passed directly -/

/-- Whether an argument stands for a place, in case that its parameter is a `ref` with an atomic
type. -/
def Param.isFilled (a : Param) (x : TExpr) : Bool :=
  !(a.type.isAtomic && a.type.modifier == .ref) || x.isAddressable

/-- The arguments that an assignment passes directly, with the parameters: those of a create or
assign that is its only pair, if every expression on the right yields one value. -/
def directArguments (values : List TExpr) : List Pair → List (Param × TExpr)
  | [⟨.user f, _, vs⟩] =>
    if vs.all fun v => v.result == 0 then
      f.sig.params.zip (vs.filterMap fun v => values[v.source]?)
    else []
  | _ => []

/-- **Ready assignments**: every argument that is passed directly can be lowered. -/
def isReady (values : List TExpr) (ps : List Pair) : Bool :=
  (directArguments values ps).all fun (a, x) => a.isFilled x

namespace TStmt

mutual

/-- Whether all assignments in a statement are ready. -/
def isReady : TStmt → Bool
  | .assign _ _ vs ps _ => Lane.isReady vs ps
  | .ifThen _ _ _ b | .whileLoop _ _ _ b | .repeatUntil _ _ b _ | .block _ _ b => areReady b
  | .ifElse _ _ _ b _ o => areReady b && areReady o
  | .ret _ | .brk _ | .cont _ => true

/-- Whether all assignments in statements are ready. -/
def areReady : List TStmt → Bool
  | [] => true
  | s :: ss => isReady s && areReady ss

end

end TStmt

/-! ## Values on the right -/

section Values

variable {p : Program} {Γ D : List Local} {values : List TExpr} {ps : List Pair}
  {ds : List TExpr}

/-- The results on the right are all different. -/
lemma nodup_resultsFrom (es : List TExpr) : ∀ source, (resultsFrom source es).Nodup := by
  induction es with
  | nil => exact fun _ => List.nodup_nil
  | cons e es ih =>
    intro source
    rw [resultsFrom, List.nodup_append']
    refine ⟨.of_map PairValue.result ?_, ih _, fun v hv hv' => ?_⟩
    · rw [List.map_map]
      exact List.nodup_zipIdx_map_snd e.types
    · obtain ⟨q, -, rfl⟩ := List.mem_map.1 hv
      obtain ⟨i, -, hs, -⟩ := Analysis.mem_resultsFrom hv'
      simp only at hs
      omega

/-- A value on the right is told by the number of its expression and its own. -/
lemma eq_of_mem_resultsFrom {es : List TExpr} {source : Nat} {v w : PairValue}
    (hv : v ∈ resultsFrom source es) (hw : w ∈ resultsFrom source es)
    (hs : v.source = w.source) (hr : v.result = w.result) : v = w := by
  obtain ⟨i, x, hi, hx, hpos, ht⟩ := Analysis.mem_resultsFrom hv
  obtain ⟨j, y, hj, hy, hpos', ht'⟩ := Analysis.mem_resultsFrom hw
  obtain rfl : i = j := by omega
  obtain rfl := Option.some.inj (hx.symm.trans hy)
  rw [hr] at ht
  cases v
  cases w
  simp_all

/-- Every result of an expression on the right is a value. -/
lemma mem_resultsFrom_of {es : List TExpr} {x : TExpr} {j : Nat} {t : Ty} :
    ∀ (source : Nat) {i : Nat}, es[i]? = some x → x.types[j]? = some t →
      ⟨source + i, x.pos, j, t⟩ ∈ resultsFrom source es := by
  induction es with
  | nil => simp
  | cons e es ih =>
    intro source i hx ht
    rw [resultsFrom, List.mem_append]
    cases i with
    | zero =>
      obtain rfl := Option.some.inj hx
      exact .inl (List.mem_map.2 ⟨(t, j), List.mem_zipIdx_iff_getElem?.2 ht, rfl⟩)
    | succ i =>
      have h := ih (source + 1) hx ht
      rw [Nat.add_assoc, Nat.add_comm 1 i] at h
      exact .inr h

/-- What is in memory is addressable. -/
lemma TExpr.isAddressable_of_isInMemory {x : TExpr} (h : x.isInMemory) : x.isAddressable := by
  cases x <;> first | rfl | exact h

/-- A value of a typed assignment is a value on the right. -/
lemma AssignTyped.mem_resultsFrom (ha : AssignTyped p Γ values ps ds) {q : Pair} (hq : q ∈ ps)
    {v : PairValue} (hv : v ∈ q.values) : v ∈ resultsFrom 0 values :=
  ha.values_eq ▸ List.mem_flatMap.2 ⟨q, hq, hv⟩

/-- No value belongs to two pairs. -/
lemma AssignTyped.pair_eq (ha : AssignTyped p Γ values ps ds) {q r : Pair} (hq : q ∈ ps)
    (hr : r ∈ ps) {v : PairValue} (hv : v ∈ q.values) (hv' : v ∈ r.values) : q = r := by
  have hnodup : (ps.flatMap Pair.values).Nodup := ha.values_eq ▸ nodup_resultsFrom values 0
  by_contra hne
  have : Std.Symm (Function.onFun List.Disjoint Pair.values) := ⟨fun _ _ h _ ha hb => h hb ha⟩
  exact (List.nodup_flatMap.1 hnodup).2.forall hq hr hne hv hv'

/-- The expression that a pointer is pointed at yields one value, stands for a place in memory, and
is used for nothing else. -/
lemma AssignTyped.of_isPointee (ha : AssignTyped p Γ values ps ds) {source : Nat}
    (h : Lowering.isPointee ps source) {x : TExpr} (hx : values[source]? = some x) :
    x.isInMemory ∧ (∃ t, x.types = [t]) ∧
      ∀ q ∈ ps, ∀ v ∈ q.values, v.source = source → q.kind = .addressOf := by
  obtain ⟨q, hq, hp⟩ := List.any_eq_true.1 h
  obtain ⟨hkind, hvals⟩ := Bool.and_eq_true_iff.1 hp
  have hkind : q.kind = .addressOf := by simpa using hkind
  have hmem : ∀ v ∈ q.values, v ∈ resultsFrom 0 values := fun v hv => ha.mem_resultsFrom hq hv
  cases ha.pairs_typed q hq with
  | @address g m t v hg hm =>
    obtain ⟨hs, hat⟩ := Bool.and_eq_true_iff.1 hvals
    obtain rfl : v.source = source := by simpa using hs
    have hin := hm hat x hx
    refine ⟨hin, ?_⟩
    obtain ⟨t, ht⟩ := (ha.values_typed x (List.mem_of_getElem? hx)).1.types_of_isAddressable
      (TExpr.isAddressable_of_isInMemory hin)
    refine ⟨⟨t, ht⟩, fun r hr w hw hsource => ?_⟩
    -- Both values are the one result of the expression.
    have single : ∀ u ∈ resultsFrom 0 values, u.source = v.source → u.result = 0 := by
      intro u hu hsu
      obtain ⟨i, y, hi, hy, -, hty⟩ := Analysis.mem_resultsFrom hu
      rw [← hsu, hi, Nat.zero_add] at hx
      obtain rfl := Option.some.inj (hx.symm.trans hy)
      rw [ht] at hty
      exact Nat.lt_one_iff.1 (List.getElem?_eq_some_iff.1 hty).1
    have hv := hmem v List.mem_cons_self
    have hw' := ha.mem_resultsFrom hr hw
    obtain rfl : w = v := eq_of_mem_resultsFrom hw' hv hsource
      ((single w hw' hsource).trans (single v hv rfl).symm)
    exact ha.pair_eq hq hr List.mem_cons_self hw ▸ rfl
  | _ => cases hkind

/-- The expressions of arguments that are passed directly yield one value each. -/
lemma AssignTyped.direct (ha : AssignTyped p Γ values ps ds) {q : Pair} (hps : ps = [q])
    (hall : ∀ v ∈ q.values, v.result = 0) : ∀ {vs : List PairValue}, vs ⊆ q.values →
    List.Forall₂ (fun v x => x ∈ values ∧ x.types = [v.type]) vs
      (vs.filterMap fun v => values[v.source]?)
  | [], _ => .nil
  | v :: vs, hsub => by
    obtain ⟨hv, hvs⟩ := List.cons_subset.1 hsub
    have hmem : v ∈ resultsFrom 0 values :=
      ha.mem_resultsFrom (hps ▸ List.mem_singleton_self q) hv
    obtain ⟨i, x, hi, hx, -, ht⟩ := Analysis.mem_resultsFrom hmem
    obtain rfl : v.source = i := by omega
    have htypes : x.types = [v.type] := by
      rw [hall v hv] at ht
      cases hxt : x.types with
      | nil => simp [hxt] at ht
      | cons t ts =>
        cases ts with
        | nil => simpa [hxt] using ht
        | cons u ts =>
          -- A second value would have the number one.
          have hsecond := mem_resultsFrom_of (j := 1) (t := u) 0 hx (by simp [hxt])
          rw [← ha.values_eq, hps] at hsecond
          exact absurd (hall _ (by simpa using hsecond)) Nat.one_ne_zero
    rw [List.filterMap_cons_some (f := fun v : PairValue => values[v.source]?) hx]
    exact .cons ⟨List.mem_of_getElem? hx, htypes⟩ (direct ha hps hall hvs)

end Values

namespace Lowering

open Code

variable {env : Env} {e : Elaborated} {T : Prop} {L : Locals} {Γ D : List Local}
  {values : List TExpr} {ps : List Pair} {ds : List TExpr}

/-! ## Storage for declared locals -/

/-- **Storage during an assignment**: the visible locals have storage, the declared ones may have
some, and nothing else has. -/
structure Admits (T : Prop) (Γ D : List Local) (L : Locals) : Prop where
  houses : Houses T Γ L
  sound : ∀ l ∈ D, ∀ s, L.lookup l.id = some s → s.Sound T l.type
  known : ∀ i s, L.lookup i = some s → i ∈ (Γ ++ D).map Local.id

/-- Nothing loses its storage. -/
def Extends (L L' : Locals) : Prop := ∀ i s, L.lookup i = some s → L'.lookup i = some s

/-- Locals extend themselves. -/
lemma Extends.refl : Extends L L := fun _ _ h => h

/-- What extends an extension extends the first. -/
lemma Extends.trans {L' L'' : Locals} (h : Extends L L') (h' : Extends L' L'') : Extends L L'' :=
  fun i s hs => h' i s (h i s hs)

/-- Locals that have storage. -/
def HasStorage (L : Locals) (l : Local) : Prop := ∃ s, L.lookup l.id = some s

/-- A local that has storage keeps it. -/
lemma HasStorage.mono {L' : Locals} {l : Local} (h : HasStorage L l) (hL : Extends L L') :
    HasStorage L' l :=
  h.imp fun _ hs => hL _ _ hs

/-- When all declared locals have storage, they are as good as visible. -/
lemma Admits.houses_append (h : Admits T Γ D L) (hD : ∀ l ∈ D, HasStorage L l) :
    Houses T (Γ ++ D) L := by
  intro l hl
  obtain hl | hl := List.mem_append.1 hl
  · exact h.houses l hl
  · obtain ⟨s, hs⟩ := hD l hl
    exact ⟨s, hs, h.sound l hl s hs⟩

/-- Locals with numbers of their own. -/
structure Distinct (Γ D : List Local) : Prop where
  nodup : (D.map Local.id).Nodup
  new : ∀ l ∈ D, l.id ∉ Γ.map Local.id

/-- A declared local gets storage. -/
lemma Admits.cons (h : Admits T Γ D L) (hd : Distinct Γ D) {l : Local} (hl : l ∈ D)
    (hnone : L.lookup l.id = none) {s : Storage} (hs : s.Sound T l.type) :
    Admits T Γ D ((l.id, s) :: L) ∧ Extends L ((l.id, s) :: L) := by
  have hext : Extends L ((l.id, s) :: L) := by
    intro i r hr
    rw [List.lookup_cons]
    split
    · rename_i hi
      rw [beq_iff_eq.1 hi, hnone] at hr
      cases hr
    · exact hr
  refine ⟨⟨fun g hg => ?_, fun g hg r hr => ?_, fun i r hr => ?_⟩, hext⟩
  · obtain ⟨r, hr, hsound⟩ := h.houses g hg
    exact ⟨r, hext _ _ hr, hsound⟩
  · rw [List.lookup_cons] at hr
    split at hr
    · rename_i hi
      obtain rfl := Option.some.inj hr
      obtain rfl := List.inj_on_of_nodup_map hd.nodup hg hl (beq_iff_eq.1 hi)
      exact hs
    · exact h.sound g hg r hr
  · rw [List.lookup_cons] at hr
    split at hr
    · rename_i hi
      rw [beq_iff_eq.1 hi, List.map_append]
      exact List.mem_append_right _ (List.mem_map_of_mem hl)
    · exact h.known i r hr

/-- What a step of an assignment leaves behind. -/
structure Steps (T : Prop) (Γ D : List Local) (L L' : Locals) : Prop where
  admits : Admits T Γ D L'
  ext : Extends L L'

/-- Two steps are a step. -/
lemma Steps.trans {L' L'' : Locals} (h : Steps T Γ D L L') (h' : Steps T Γ D L' L'') :
    Steps T Γ D L L'' :=
  ⟨h'.admits, h.ext.trans h'.ext⟩

/-- A declared local has storage, or gets some. -/
lemma bindLocal_lowers (he : env.Sound e) (h : Admits T Γ D L) (hd : Distinct Γ D) {l : Local}
    (hl : l ∈ D) (hv : e.program.Valid l.type) :
    Lowers env T L (bindLocal l) fun s L' =>
      s.Sound T l.type ∧ Steps T Γ D L L' ∧ HasStorage L' l := by
  refine Lowers.get fun b hb => ?_
  subst hb
  split
  · rename_i s hs
    exact Lowers.pure ⟨h.sound l hl s hs, ⟨h, .refl⟩, s, hs⟩
  · rename_i hnone
    have bound : ∀ s, s.Sound T l.type → Lowers env T b.locals (do
        setStorage l.id s
        return s) fun s L' =>
          s.Sound T l.type ∧ Steps T Γ D b.locals L' ∧ HasStorage L' l := by
      intro s hs
      refine Lowers.bind (Lowers.setStorage l.id s) fun _ L' hL' => Lowers.pure ?_
      subst hL'
      obtain ⟨hadmits, hext⟩ := h.cons hd hl hnone hs
      exact ⟨hs, ⟨hadmits, hext⟩, s, by simp⟩
    split
    · rename_i hat
      refine Yields.bind (Yields.newVar _ _) fun v hv => ?_
      exact bound (.var v) (.var ⟨hat, fun _ => hv⟩)
    · rename_i hat
      refine Yields.bind (slotFor_yields he hv _) fun o ho => ?_
      obtain ⟨s, rfl⟩ := ho
      exact bound (.memory (.slot s)) (.slot fun _ => ⟨⟨nofun, rfl⟩, fun h => absurd h hat⟩)

/-- The place that a pair writes to. -/
lemma targetPlace_lowers (he : env.Sound e) (h : Admits T Γ D L) (hd : Distinct Γ D)
    (hΓ : ∀ l ∈ Γ, e.program.Valid l.type) (hD : ∀ l ∈ D, e.program.Valid l.type) {g : TTarget}
    {t : Ty} (hg : g.Typed e.program Γ D t) :
    Lowers env T L (targetPlace g) fun p L' =>
      (p.Sound T ∧ p.type = t) ∧ Steps T Γ D L L' ∧ ∀ l, g.local? = some l → HasStorage L' l := by
  cases hg with
  | @decl d l hl =>
    refine Lowers.bind (bindLocal_lowers he h hd hl (hD l hl)) fun s L' hs => Lowers.pure ?_
    refine ⟨⟨hs.1.place, by cases s <;> rfl⟩, hs.2.1, fun l' hl' => ?_⟩
    obtain rfl : l = l' := Option.some.inj hl'
    exact hs.2.2
  | @expr x _ hx ha ht =>
    have hsound := expr_sound he h.houses hΓ hx
    refine Lowers.weaken (hsound.place t (by simpa using ha) (by simpa using ht)) fun p L' hp => ?_
    obtain ⟨rfl, hp⟩ := hp
    exact ⟨⟨hp.1, hp.2.1⟩, ⟨h, .refl⟩, nofun⟩

/-! ## Evaluation -/

/-- An operand that stands for another one: the same, or a target with a copy of its value. -/
def Copies (o o' : Operand) : Prop := o' = o ∨ o'.IsTarget ∧ o'.type = o.type

/-- A copy of what denotes a value denotes it. -/
lemma Denotes.copies {o o' : Operand} {t : Ty} (h : Denotes T o t) (hc : Copies o o') :
    Denotes T o' t := by
  obtain rfl | ⟨ht, htype⟩ := hc
  · exact h
  · exact denotes_of_isTarget ht fun hT => htype.trans (h hT).1.2

/-- A copy of an address is an address. -/
lemma IsAddress.copies {o o' : Operand} (h : IsAddress T o) (hc : Copies o o') :
    IsAddress T o' := by
  obtain rfl | ⟨ht, htype⟩ := hc
  · exact h
  · exact fun hT => ⟨ht.ne_absent, htype.trans (h hT).2⟩

/-- Copies of what denotes values denote them. -/
lemma denotes_of_copies {os os' : List Operand} {ts : List Ty} (hc : List.Forall₂ Copies os os')
    (h : List.Forall₂ (Denotes T) os ts) : List.Forall₂ (Denotes T) os' ts := by
  induction hc generalizing ts with
  | nil => exact h
  | cons hoc _ ih =>
    cases h with
    | cons ho hos => exact .cons (ho.copies hoc) (ih hos)

/-- Variables among operands are copied. -/
lemma snapshot_yields : ∀ os : List Operand,
    Yields env T L (snapshot os) (List.Forall₂ Copies os)
  | [] => Yields.pure .nil
  | o :: os => by
    have kept : ∀ o, Yields env T L (do return o :: (← snapshot os))
        (List.Forall₂ Copies (o :: os)) :=
      fun o => Yields.bind (snapshot_yields os) fun rs hrs => Yields.pure (.cons (.inl rfl) hrs)
    cases o with
    | var v =>
      refine Yields.bind (compute_yields fun _ => ⟨by simp, rfl⟩) fun r hr => ?_
      exact Yields.bind (snapshot_yields os) fun rs hrs => Yields.pure (.cons (.inr hr) hrs)
    | _ => exact kept _

/-- The operands of an expression on the right: one for each value, or the address of the value that
a pointer is pointed at. -/
def Evaluated (T : Prop) (ps : List Pair) (source : Nat) (x : TExpr) (os : List Operand) : Prop :=
  if isPointee ps source then ∃ o, os = [o] ∧ IsAddress T o
  else List.Forall₂ (Denotes T) os x.types

/-- Copies of values are what was evaluated. -/
lemma Evaluated.copies {source : Nat} {x : TExpr} {os os' : List Operand}
    (h : Evaluated T ps source x os) (hc : List.Forall₂ Copies os os') :
    Evaluated T ps source x os' := by
  unfold Evaluated at h ⊢
  split
  · rename_i hp
    rw [if_pos hp] at h
    obtain ⟨o, rfl, ho⟩ := h
    obtain ⟨o', os', hoc, hos, rfl⟩ := List.forall₂_cons_left_iff.1 hc
    obtain rfl := List.forall₂_nil_left_iff.1 hos
    exact ⟨o', rfl, ho.copies hoc⟩
  · rename_i hp
    rw [if_neg hp] at h
    exact denotes_of_copies hc h

/-- What the caller provides, by the number of the expression. -/
def Provided (T : Prop) (dests : List (Nat × List (Option Operand))) : Prop :=
  ∀ q ∈ dests, Destinations T q.2

/-- Destinations that are provided are found. -/
lemma Provided.lookup {dests : List (Nat × List (Option Operand))} (h : Provided T dests)
    (i : Nat) : Destinations T ((dests.lookup i).getD []) := by
  cases hl : dests.lookup i with
  | none => exact destinations_nil
  | some d =>
    obtain ⟨l₁, l₂, hd, -⟩ := List.lookup_eq_some_iff.1 hl
    exact h (i, d) (by simp [hd])

/-- The expressions on the right are evaluated. -/
lemma evaluate_yields (ha : AssignTyped e.program Γ values ps ds)
    (hs : ∀ x ∈ values, (expr x).Sound env T L) {dests : List (Nat × List (Option Operand))}
    (hdests : Provided T dests) : ∀ (source : Nat) (es : List TExpr), values.drop source = es →
    Yields env T L (evaluate ps dests source es) fun oss => ∀ i x, es[i]? = some x →
      ∃ os, oss[i]? = some os ∧ Evaluated T ps (source + i) x os
  | _, [], _ => Yields.pure (by simp)
  | source, x :: es, hes => by
    have hx : values[source]? = some x := by
      rw [← List.head?_drop, hes, List.head?_cons]
    have hsound := hs x (List.mem_of_getElem? hx)
    have hrest := evaluate_yields ha hs hdests (source + 1) es (by
      rw [← List.drop_drop, hes, List.drop_one, List.tail_cons])
    -- The operands are copied if there are several pairs, and kept as they are otherwise.
    have first : ∀ os, Evaluated T ps source x os → Yields env T L (do
        let os ← if ps.length > 1 then snapshot os else pure os
        return os :: (← evaluate ps dests (source + 1) es)) fun oss =>
          ∀ i y, (x :: es)[i]? = some y →
            ∃ os, oss[i]? = some os ∧ Evaluated T ps (source + i) y os := by
      intro os hos
      have last : ∀ os, Evaluated T ps source x os → Yields env T L (do
          return os :: (← evaluate ps dests (source + 1) es)) fun oss =>
            ∀ i y, (x :: es)[i]? = some y →
              ∃ os, oss[i]? = some os ∧ Evaluated T ps (source + i) y os := by
        intro os hos
        refine Yields.bind hrest fun oss hoss => Yields.pure fun i y hy => ?_
        cases i with
        | zero =>
          obtain rfl := Option.some.inj hy
          exact ⟨os, rfl, hos⟩
        | succ i =>
          obtain ⟨os', ho, he⟩ := hoss i y hy
          exact ⟨os', ho, by rwa [Nat.add_assoc, Nat.add_comm 1 i] at he⟩
      split
      · exact Yields.bind (snapshot_yields os) fun os' hc => last os' (hos.copies hc)
      · exact last os hos
    unfold evaluate
    -- For a pointee it is the place that is evaluated, since its address is what is assigned.
    cases hp : isPointee ps source with
    | true =>
      obtain ⟨hm, ⟨t, ht⟩, -⟩ := ha.of_isPointee hp hx
      refine Yields.bind (hsound.place t (by simpa using TExpr.isAddressable_of_isInMemory hm)
        (by simpa using ht)) fun p hplace => ?_
      refine Yields.bind (address_yields hplace.1 (hplace.2.2 (by simpa using hm))) fun a ha => ?_
      exact first [a] (by rw [Evaluated, if_pos hp]; exact ⟨a, rfl, ha⟩)
    | false =>
      refine Yields.bind (hsound.values _ (hdests.lookup source)) fun os hos => ?_
      exact first os (by rw [Evaluated, hp]; simpa using hos)

/-- The operands of all expressions on the right. -/
def AllEvaluated (T : Prop) (values : List TExpr) (ps : List Pair) (oss : List (List Operand)) :
    Prop :=
  ∀ i x, values[i]? = some x → ∃ os, oss[i]? = some os ∧ Evaluated T ps i x os

/-- The operand of a value. The address of an atomic value belongs to a pair that points at it. -/
lemma valueOf_yields (ha : AssignTyped e.program Γ values ps ds) {oss : List (List Operand)}
    (hoss : AllEvaluated T values ps oss) {q : Pair} (hq : q ∈ ps) {v : PairValue}
    (hv : v ∈ q.values) :
    Yields env T L (valueOf oss v) fun o =>
      isPointee ps v.source = false ∧ Denotes T o v.type ∨
        q.kind = .addressOf ∧ IsAddress T o := by
  obtain ⟨i, x, hi, hx, -, ht⟩ := Analysis.mem_resultsFrom (ha.mem_resultsFrom hq hv)
  obtain rfl : v.source = i := by omega
  obtain ⟨os, hos, hev⟩ := hoss v.source x hx
  have hget : oss.getD v.source [] = os := by simp [List.getD, hos]
  unfold Evaluated at hev
  split at hev
  · rename_i hp
    obtain ⟨o, rfl, ho⟩ := hev
    obtain ⟨-, ⟨t, htypes⟩, honly⟩ := ha.of_isPointee hp hx
    rw [htypes] at ht
    have hr : v.result = 0 := Nat.lt_one_iff.1 (List.getElem?_eq_some_iff.1 ht).1
    simp only [valueOf, hget, hr, List.getElem?_cons_zero]
    exact Yields.pure (.inr ⟨honly q hq v hv rfl, ho⟩)
  · rename_i hp
    obtain ⟨o, ho, hd⟩ : ∃ o, os[v.result]? = some o ∧ Denotes T o v.type := by
      have hlen := hev.length_eq
      obtain ⟨hlt, hty⟩ := List.getElem?_eq_some_iff.1 ht
      refine ⟨os[v.result], List.getElem?_eq_getElem (hlen ▸ hlt), ?_⟩
      have := List.Forall₂.get hev (hlen ▸ hlt) hlt
      simpa [hty] using this
    simp only [valueOf, hget, ho]
    exact Yields.pure (.inl ⟨by simpa using hp, hd⟩)

/-! ## Pairs -/

/-- The locals that an assignment declares have numbers of their own. -/
lemma distinct_of_assignTyped (ha : AssignTyped e.program Γ values ps ds) :
    Distinct Γ (declaredBy ps) := ⟨ha.ids_nodup, ha.ids_new⟩

/-- The value of a pair that points at nothing. -/
lemma denotes_of_valueOf {q : Pair} {v : PairValue} {o : Operand} (hk : q.kind ≠ .addressOf)
    (h : isPointee ps v.source = false ∧ Denotes T o v.type ∨
      q.kind = .addressOf ∧ IsAddress T o) : Denotes T o v.type :=
  (h.resolve_right fun h => hk h.1).2

/-- The value of a pair that points at something. -/
lemma isAddress_of_valueOf {q : Pair} (hq : q ∈ ps) {v : PairValue} {o : Operand}
    (hk : q.kind = .addressOf) (hv : q.values = [v])
    (h : isPointee ps v.source = false ∧ Denotes T o v.type ∨
      q.kind = .addressOf ∧ IsAddress T o) : IsAddress T o := by
  obtain ⟨hp, ho⟩ | ⟨-, ho⟩ := h
  · cases hat : v.type.isAtomic with
    | false => exact ho.isAddress hat
    | true =>
      have : isPointee ps v.source = true :=
        List.any_eq_true.2 ⟨q, hq, by simp [hk, hv, hat]⟩
      rw [this] at hp
      cases hp
  · exact ho

/-- What an assignment writes to has a valid type. -/
lemma valid_of_target (he : env.Sound e) (ha : AssignTyped e.program Γ values ps ds)
    (hΓ : ∀ l ∈ Γ, e.program.Valid l.type) {g : TTarget} {t : Ty}
    (hg : g.Typed e.program Γ (declaredBy ps) t) : e.program.Valid t := by
  cases hg with
  | decl hl => exact ha.declared_valid _ hl
  | expr hx _ ht => exact hx.valid he.program_wf hΓ t (by simp [ht])

/-- The type of a value on the right is valid. -/
lemma valid_of_value (he : env.Sound e) (ha : AssignTyped e.program Γ values ps ds)
    (hΓ : ∀ l ∈ Γ, e.program.Valid l.type) {q : Pair} (hq : q ∈ ps) {v : PairValue}
    (hv : v ∈ q.values) : e.program.Valid v.type := by
  obtain ⟨i, x, -, hx, -, ht⟩ := Analysis.mem_resultsFrom (ha.mem_resultsFrom hq hv)
  exact (ha.values_typed x (List.mem_of_getElem? hx)).1.valid he.program_wf hΓ _
    (List.mem_of_getElem? ht)

/-- A number of elements is in an index. -/
lemma code_of_isIndex {t : Ty} (h : t.isIndex) : t.code = .index := by
  cases t with
  | scalar m k =>
    cases k with
    | index => rfl
    | _ => cases h
  | _ => cases h
/-- A value that is passed by value or by address. -/
lemma hasType_paramType {a : Param} {t : Ty} {o : Operand} (hva : e.program.Valid a.type)
    (hvt : e.program.Valid t) (hc : a.type.compatible t) (ho : Denotes T o t)
    (hr : ¬(a.type.isAtomic && a.type.modifier = .ref) = true) :
    T → o.HasType (paramType a.type) := by
  intro hT
  cases hat : a.type.isAtomic with
  | false =>
    rw [paramType_of_isAtomic_eq_false hat]
    exact ho.isAddress ((hva.isAtomic_eq hvt hc).symm.trans hat) hT
  | true =>
    have hm : a.type.modifier ≠ .ref := by simpa [hat] using hr
    have hcode : paramType a.type = t.code := by
      simp [paramType, hat, hm, Ty.code_eq_of_compatible hc hat hvt.isError_eq_false]
    exact hcode ▸ (ho hT).1

/-- A value is stored in a slot for a `ref` parameter. -/
lemma spillValue_yields {o : Operand} (ho : T → o ≠ .absent) :
    Yields env T L (spillValue o) (IsAddress T) := by
  refine Yields.bind (Yields.newSlot _ _ _ _) fun r hr => ?_
  obtain ⟨s, rfl, hs, hsize⟩ := hr
  exact Yields.bind (Yields.emit rfl rfl fun hT => ⟨ho hT, accesses_slot hs hsize⟩) fun _ _ =>
    Yields.pure (isAddress_slot s)

/-- The arguments of a create or assign whose values were evaluated before. -/
lemma givenArguments_yields {oss : List (List Operand)} {as : List Param} {vs : List PairValue}
    (h : List.Forall₂ (fun (a : Param) (v : PairValue) => a.type.compatible v.type) as vs)
    (has : ∀ a ∈ as, e.program.Valid a.type)
    (hvs : ∀ v ∈ vs, e.program.Valid v.type ∧
      Yields env T L (valueOf oss v) (Denotes T · v.type)) :
    Yields env T L (givenArguments oss as vs) fun os =>
      T → List.Forall₂ Operand.HasType os (passed as) := by
  induction h with
  | nil =>
    simp only [givenArguments]
    exact Yields.pure fun _ => .nil
  | @cons a v as vs hc _ ih =>
    obtain ⟨hvt, hv⟩ := hvs v List.mem_cons_self
    have hrest := ih (fun b hb => has b (List.mem_cons_of_mem a hb))
      fun w hw => hvs w (List.mem_cons_of_mem v hw)
    have given : ∀ o, (T → o.HasType (paramType a.type)) →
        Yields env T L ((o :: ·) <$> givenArguments oss as vs) fun os =>
          T → List.Forall₂ Operand.HasType os (passed (a :: as)) :=
      fun o ho => Yields.bind hrest fun os hos => Yields.pure fun hT => .cons (ho hT) (hos hT)
    unfold givenArguments
    refine Yields.bind hv fun o ho => ?_
    split
    · rename_i hr
      refine Yields.bind (spillValue_yields fun hT => (ho hT).1.1) fun o' ho' => given o' ?_
      have hptr : paramType a.type = .ptr := by
        simp only [Bool.and_eq_true, decide_eq_true_eq] at hr
        simp [paramType, hr.2]
      rw [hptr]
      exact ho'
    · rename_i hr
      exact given o (hasType_paramType (has a List.mem_cons_self) hvt hc ho hr)

/-- **Pairs are carried out.** -/
lemma pair_lowers (he : env.Sound e) (ha : AssignTyped e.program Γ values ps ds)
    (hΓ : ∀ l ∈ Γ, e.program.Valid l.type) {oss : List (List Operand)}
    (hoss : AllEvaluated T values ps oss) (h : Admits T Γ (declaredBy ps) L) {q : Pair}
    (hq : q ∈ ps) :
    Lowers env T L (pair oss q) fun _ L' => Steps T Γ (declaredBy ps) L L' ∧
      (q.kind ≠ .initializedByCaller → ∀ l, q.target.local? = some l → HasStorage L' l) := by
  have hvalid : ∀ v ∈ q.values, e.program.Valid v.type := fun v => valid_of_value he ha hΓ hq
  have hvalue : ∀ {L : Locals}, ∀ v ∈ q.values, Yields env T L (valueOf oss v) fun o =>
      isPointee ps v.source = false ∧ Denotes T o v.type ∨
        q.kind = .addressOf ∧ IsAddress T o :=
    fun v hv => valueOf_yields ha hoss hq hv
  -- Every kind but one computes the place of its target first, and then writes to it.
  have target : ∀ {t : Ty} {f : Place → Lower Unit}, q.target.Typed e.program Γ (declaredBy ps) t →
      (∀ p L', p.Sound T → p.type = t → Yields env T L' (f p) fun _ => True) →
      Lowers env T L (targetPlace q.target >>= f) fun _ L' => Steps T Γ (declaredBy ps) L L' ∧
        (q.kind ≠ .initializedByCaller → ∀ l, q.target.local? = some l → HasStorage L' l) := by
    intro t f ht hf
    refine Lowers.bind (targetPlace_lowers he h (distinct_of_assignTyped ha) hΓ
      ha.declared_valid ht)
      fun p L' hp => Lowers.weaken (hf p L' hp.1.1 hp.1.2) fun _ L'' h'' => ?_
    obtain ⟨rfl, -⟩ := h''
    exact ⟨hp.2.1, fun _ => hp.2.2⟩
  cases ha.pairs_typed q hq with
  | zero hg ht =>
    exact target hg fun p L' hp hpt => put_yields hp (hpt ▸ ht) fun _ => ⟨nofun, rfl⟩
  | @copy g t v hg ht hc =>
    refine target hg fun p L' hp hpt => ?_
    refine Yields.bind (hvalue v List.mem_cons_self) fun o ho => ?_
    refine put_yields hp (hpt ▸ ht) fun hT => ?_
    rw [hpt, Ty.code_eq_of_compatible hc ht (hvalid v List.mem_cons_self).isError_eq_false]
    exact (denotes_of_valueOf (by simp) ho hT).1
  | @address g m t v hg hm =>
    refine target hg fun p L' hp hpt => ?_
    refine Yields.bind (hvalue v List.mem_cons_self) fun o ho => ?_
    refine put_yields hp (by rw [hpt]; rfl) fun hT => ?_
    rw [hpt]
    exact isAddress_of_valueOf hq rfl rfl ho hT
  | @containerCopy g m k t v hg hc =>
    have hinner : e.program.Valid (.container m k t) := valid_of_target he ha hΓ hg
    refine target hg fun p L' hp hpt => ?_
    refine Yields.bind (hvalue v List.mem_cons_self) fun o ho => ?_
    have hvt := hvalid v List.mem_cons_self
    have hat : v.type.isAtomic = false := (hinner.isAtomic_eq hvt hc).symm
    have ho := (denotes_of_valueOf (by simp) ho).isAddress hat
    exact copyContainer_yields he hp (fun hT => ⟨ho hT, fun h => nomatch hat.symm.trans h⟩) hpt
      hinner trivial
  | containerEmpty hg =>
    exact target hg fun p L' hp hpt => emptyContainer_yields hp (hp.isMemory (by rw [hpt]; rfl))
  | @containerAlloc g m k t v hg hi =>
    have hinner : e.program.Valid (.container m k t) := valid_of_target he ha hΓ hg
    refine target hg fun p L' hp hpt => ?_
    refine Yields.bind (hvalue v List.mem_cons_self) fun o ho => ?_
    refine allocContainer_yields he hp hpt hinner fun hT => ?_
    exact code_of_isIndex hi ▸ (denotes_of_valueOf (by simp) ho hT).1
  | @user g m c f vs hg hf hk hcs =>
    refine target hg fun p L' hp hpt => ?_
    refine Yields.bind (address_yields hp (hp.isMemory (by rw [hpt]; rfl))) fun self hself => ?_
    refine Yields.bind (givenArguments_yields hcs
      (fun a ha => ((hf.validFunc he.program_wf).params_valid a ha).1)
      fun v hv => ⟨hvalid v hv, (hvalue v hv).weaken fun o ho => denotes_of_valueOf (by simp) ho⟩)
      fun args hargs => invoke_yields he hf hk hself hargs
  | initializedByCaller hl ht =>
    exact Lowers.pure ⟨⟨h, .refl⟩, fun hk => absurd rfl hk⟩

/-- Pairs are carried out in order. -/
lemma pairs_lowers (he : env.Sound e) (ha : AssignTyped e.program Γ values ps ds)
    (hΓ : ∀ l ∈ Γ, e.program.Valid l.type) {oss : List (List Operand)}
    (hoss : AllEvaluated T values ps oss) : ∀ {qs : List Pair} {L : Locals}, qs ⊆ ps →
    Admits T Γ (declaredBy ps) L →
    Lowers env T L (pairs oss qs) fun _ L' => Steps T Γ (declaredBy ps) L L' ∧
      ∀ q ∈ qs, q.kind ≠ .initializedByCaller → ∀ l, q.target.local? = some l → HasStorage L' l
  | [], L, _, h => Lowers.pure ⟨⟨h, .refl⟩, by simp⟩
  | q :: qs, L, hsub, h => by
    obtain ⟨hq, hqs⟩ := List.cons_subset.1 hsub
    refine Lowers.bind (pair_lowers he ha hΓ hoss h hq) fun _ L' h' => ?_
    refine (pairs_lowers he ha hΓ hoss hqs h'.1.admits).weaken fun _ L'' h'' => ?_
    refine ⟨h'.1.trans h''.1, List.forall_mem_cons.2 ⟨fun hk l hl => ?_, h''.2⟩⟩
    exact (h'.2 hk l hl).mono h''.1.ext

/-- Entries of a list of destinations. -/
lemma destinations_setEntry {entry : List (Option Operand)} (h : Destinations T entry) (i : Nat)
    {o : Operand} (ho : IsAddress T o) : Destinations T (setEntry entry i o) := by
  intro d hd
  obtain hd | hd := List.mem_or_eq_of_mem_set hd
  · obtain hd | hd := List.mem_append.1 hd
    · exact h d hd
    · exact nomatch (List.mem_replicate.1 hd).2
  · obtain rfl := Option.some.inj hd
    exact ho

/-- Functions on the right are given the storage of new locals. -/
lemma destinations_lowers (he : env.Sound e) (ha : AssignTyped e.program Γ values ps ds) :
    ∀ {qs : List Pair} {L : Locals} {dests : List (Nat × List (Option Operand))}, qs ⊆ ps →
    Admits T Γ (declaredBy ps) L → Provided T dests →
    Lowers env T L (destinations qs dests) fun dests L' => Provided T dests ∧
      Steps T Γ (declaredBy ps) L L' ∧
        ∀ q ∈ qs, q.kind = .initializedByCaller → ∀ l, q.target.local? = some l → HasStorage L' l
  | [], L, _, _, h, hdests => Lowers.pure ⟨hdests, ⟨h, .refl⟩, by simp⟩
  | q :: qs, L, dests, hsub, h, hdests => by
    obtain ⟨hq, hqs⟩ := List.cons_subset.1 hsub
    unfold destinations
    split
    · rename_i d l v vs hk ht hv
      have hl : l ∈ declaredBy ps := List.mem_filterMap.2 ⟨q, hq, by rw [ht]; rfl⟩
      refine Lowers.bind (bindLocal_lowers he h (distinct_of_assignTyped ha) hl
        (ha.declared_valid l hl)) fun s L' hs => ?_
      have rest : ∀ dests', Provided T dests' →
          Lowers env T L' (destinations qs dests') fun dests L'' => Provided T dests ∧
            Steps T Γ (declaredBy ps) L L'' ∧ ∀ r ∈ q :: qs, r.kind = .initializedByCaller →
              ∀ l, r.target.local? = some l → HasStorage L'' l := by
        intro dests' hdests'
        refine (destinations_lowers he ha hqs hs.2.1.admits hdests').weaken fun ds L'' h'' => ?_
        refine ⟨h''.1, hs.2.1.trans h''.2.1, List.forall_mem_cons.2 ⟨fun _ l' hl' => ?_, h''.2.2⟩⟩
        obtain rfl : l = l' := Option.some.inj ((congrArg TTarget.local? ht).symm.trans hl')
        exact hs.2.2.mono h''.2.1.ext
      split
      · rename_i addr
        refine rest _ (List.forall_mem_cons.2 ⟨?_, hdests⟩)
        exact destinations_setEntry (hdests.lookup v.source) v.result fun hT => (hs.1.place hT).1
      · exact rest dests hdests
    · rename_i hno
      refine (destinations_lowers he ha hqs h hdests).weaken fun ds L' h' => ?_
      refine ⟨h'.1, h'.2.1, List.forall_mem_cons.2 ⟨fun hk l hl => ?_, h'.2.2⟩⟩
      cases ha.pairs_typed q hq with
      | initializedByCaller hl' ht => exact (hno _ _ _ _ rfl rfl rfl).elim
      | _ => cases hk

/-- Calls are evaluated for their effect. -/
lemma discard_yields : ∀ {es : List TExpr}, (∀ x ∈ es, (expr x).Sound env T L) →
    Yields env T L (discard es) fun _ => True
  | [], _ => Yields.pure trivial
  | x :: es, h => by
    refine Yields.bind ((h x List.mem_cons_self).values [] destinations_nil) fun os _ => ?_
    exact discard_yields fun y hy => h y (List.mem_cons_of_mem x hy)

/-! ## Assignments -/

/-- Values on the right that are taken directly are values of the assignment. -/
lemma mem_of_direct {vs : List PairValue} {xs : List TExpr} {x : TExpr}
    (h : List.Forall₂ (fun (v : PairValue) (x : TExpr) => x ∈ values ∧ x.types = [v.type]) vs xs)
    (hx : x ∈ xs) : x ∈ values := by
  obtain ⟨v, -, hv⟩ := exists_of_forall₂ h.flip hx
  exact hv.1

/-- Arguments that are passed directly can be lowered if they are ready. -/
lemma fills_direct {as : List Param} {vs : List PairValue} {xs : List TExpr}
    (hcs : List.Forall₂ (fun (a : Param) (v : PairValue) => a.type.compatible v.type) as vs)
    (hxs : List.Forall₂ (fun (v : PairValue) (x : TExpr) => x ∈ values ∧ x.types = [v.type]) vs xs)
    (hready : ∀ q ∈ as.zip xs, q.1.isFilled q.2) : List.Forall₂ Fills as xs := by
  induction hcs generalizing xs with
  | nil =>
    obtain rfl := List.forall₂_nil_left_iff.1 hxs
    exact .nil
  | @cons a v as vs hc _ ih =>
    obtain ⟨x, xs, hx, hxs', rfl⟩ := List.forall₂_cons_left_iff.1 hxs
    rw [List.zip_cons_cons] at hready
    obtain ⟨ha, has⟩ := List.forall_mem_cons.1 hready
    refine .cons ⟨v.type, hx.2, hc, fun hat hm => ?_⟩ (ih hxs' has)
    simpa [Param.isFilled, hat, hm] using ha

/-- **Typed assignments that are ready are lowered**, and all locals that they declare get storage.

**Proof sketch.** If a create or assign takes its arguments directly, these are lowered against its
parameters. Otherwise the expressions on the right are evaluated first, and the pairs are carried
out in order. -/
theorem assign_lowers (he : env.Sound e) (ha : AssignTyped e.program Γ values ps ds)
    (hready : isReady values ps) (hΓ : ∀ l ∈ Γ, e.program.Valid l.type)
    (h : Admits T Γ (declaredBy ps) L) :
    Lowers env T L (assign values ps ds) fun _ L' => Steps T Γ (declaredBy ps) L L' ∧
      ∀ l ∈ declaredBy ps, HasStorage L' l := by
  refine Yields.bind (discard_yields fun x hx =>
    expr_sound he h.houses hΓ (ha.discarded_typed x hx)) fun _ _ => ?_
  have hnone : Provided T [] := nofun
  refine Lowers.bind (destinations_lowers he ha (List.Subset.refl ps) h hnone)
    fun dests L' hdests => ?_
  obtain ⟨hdests, hsteps, hcaller⟩ := hdests
  have sound : ∀ x, x.Typed e.program Γ → (expr x).Sound env T L' :=
    fun x hx => expr_sound he hsteps.admits.houses hΓ hx
  -- Unless a create or assign takes its arguments directly, all values come before all pairs.
  have indirect : Lowers env T L' (do
      let operands ← evaluate ps dests 0 values
      pairs operands ps) fun _ L'' => Steps T Γ (declaredBy ps) L L'' ∧
        ∀ l ∈ declaredBy ps, HasStorage L'' l := by
    refine Yields.bind (evaluate_yields ha (fun x hx => sound x (ha.values_typed x hx).1) hdests 0
      values rfl) fun oss hoss => ?_
    refine (pairs_lowers he ha hΓ (fun i x hx => by simpa using hoss i x hx)
      (List.Subset.refl ps) hsteps.admits).weaken fun _ L'' h'' => ?_
    refine ⟨hsteps.trans h''.1, fun l hl => ?_⟩
    obtain ⟨q, hq, hql⟩ := List.mem_filterMap.1 hl
    -- What the caller initializes has its storage from the destinations, and all else from its
    -- pair.
    by_cases hk : q.kind = .initializedByCaller
    · exact (hcaller q hq hk l hql).mono h''.1.ext
    · exact h''.2 q hq hk l hql
  split
  · rename_i f g vs
    split
    · rename_i hall
      have hpair := ha.pairs_typed _ (List.mem_singleton_self _)
      obtain ⟨hg, hf, hk, hcs⟩ : (∃ m c, g.Typed e.program Γ (declaredBy _) (.cls m c)) ∧
          e.program.Declares f ∧ (f.kind = .create ∨ f.kind = .assign) ∧
          List.Forall₂ (fun (a : Param) (v : PairValue) => a.type.compatible v.type)
            f.sig.params vs := by
        cases hpair with
        | user hg hf hk hcs => exact ⟨⟨_, _, hg⟩, hf, hk, hcs⟩
      obtain ⟨m, c, hg⟩ := hg
      have hvalid := hf.validFunc he.program_wf
      have hdirect := ha.direct rfl (by simpa using hall) (List.Subset.refl vs)
      have hfills := fills_direct hcs hdirect (by
        simpa [isReady, directArguments, hall] using hready)
      refine Lowers.bind (targetPlace_lowers he hsteps.admits (distinct_of_assignTyped ha) hΓ
        ha.declared_valid hg) fun p L'' hp => ?_
      obtain ⟨⟨hp, hpt⟩, hsteps', hbound⟩ := hp
      refine Yields.bind (address_yields hp (hp.isMemory (by rw [hpt]; rfl))) fun self hself => ?_
      rw [← List.map_filterMap]
      refine Yields.bind (arguments_yields hfills (fun a ha => (hvalid.params_valid a ha).1)
        fun x hx => ?_) fun q hargs => ?_
      · have hx := (ha.values_typed x (mem_of_direct hdirect hx)).1
        exact ⟨expr_sound he hsteps'.admits.houses hΓ hx, expr_expr x,
          hx.valid he.program_wf hΓ⟩
      refine Yields.bind (invoke_yields he hf hk hself hargs.1) fun _ _ => ?_
      refine Yields.bind (writeBack_yields hargs.2) fun _ _ => Lowers.pure ?_
      refine ⟨hsteps.trans hsteps', fun l hl => hbound l ?_⟩
      simpa [declaredBy] using hl
    · exact indirect
  · exact indirect

/-! ## Assignments that are not ready -/

/-- What does not stand for a place is not lowered to one. -/
lemma place_fails {x : TExpr} (hx : x.isAddressable = false) : Fails env (expr x).place := by
  have values : ∀ (y : TExpr) (f : List (Option Operand) → Lower (List Operand)),
      Fails env (Lowered.ofValues y f).place :=
    fun y f => Fails.of_bind fun _ => Fails.bug _
  cases x with
  | ident | self | index | deref => cases hx
  | literal => simp only [expr]; exact values _ _
  | unary _ _ _ f _ | binary _ _ _ f _ _ | method _ _ _ _ _ f | ccall _ _ _ _ f =>
    cases f <;> simp only [expr] <;> exact values _ _
  | member _ _ _ _ v _ =>
    cases v with
    | none => simp only [expr]; exact values _ _
    | some v => cases hx
  | routine _ _ _ _ _ f => rcases f with _ | ⟨_ | _ | _⟩ <;> simp only [expr] <;> exact values _ _

/-- An argument that does not stand for a place as it should is not lowered. -/
lemma arguments_fails : ∀ {as : List Param} {xs : List TExpr},
    (∃ q ∈ as.zip xs, q.1.isFilled q.2 = false) → Fails env (arguments as (xs.map expr))
  | [], _, h => by simp at h
  | _ :: _, [], h => by simp at h
  | a :: as, x :: xs, h => by
    rw [List.zip_cons_cons] at h
    obtain ⟨q, hq, hqf⟩ := h
    obtain rfl | hq := List.mem_cons.1 hq
    · refine Fails.bind ?_
      simp only [Param.isFilled, Bool.or_eq_false_iff, Bool.not_eq_false', Bool.and_eq_true,
        beq_iff_eq] at hqf
      unfold argument
      simp only [hqf.1.1, hqf.1.2, Bool.not_true, Bool.false_eq_true, if_false, if_true]
      exact Fails.bind (place_fails hqf.2)
    · exact Fails.of_bind fun _ => Fails.bind (arguments_fails ⟨q, hq, hqf⟩)

/-- **Assignments that are not ready are not lowered.** -/
theorem assign_fails (h : isReady values ps = false) : Fails env (assign values ps ds) := by
  obtain ⟨f, g, vs, rfl⟩ : ∃ f g vs, ps = [⟨.user f, g, vs⟩] := by
    unfold isReady directArguments at h
    split at h
    · exact ⟨_, _, _, rfl⟩
    · simp at h
  have hall : (vs.all fun v => v.result == 0) = true := by
    by_contra hne
    simp [isReady, directArguments, hne] at h
  refine Fails.of_bind fun _ => Fails.of_bind fun dests => ?_
  simp only [hall, if_true]
  refine Fails.of_bind fun p => Fails.of_bind fun self => ?_
  rw [← List.map_filterMap]
  refine Fails.bind (arguments_fails ?_)
  simpa [isReady, directArguments, hall, List.all_eq_false] using h

end Lowering

end Lane
