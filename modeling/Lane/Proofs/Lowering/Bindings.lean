import Lane.Proofs.Calls.Sites
import Lane.Proofs.Lowering.Points

set_option relaxedAutoImplicit false
set_option autoImplicit false

/-!
# Bindings of assignments

An assignment binds the locals that it declares: first those that functions called on the right
write to, then the others, in the order of its pairs. The points of an assignment are those at which
one of its operands is evaluated or one of its locals is bound; every local is bound at one of them
only.

## Main definitions

* `Lane.Lowering.AssignComes`: the points of an assignment.
* `Lane.Lowering.Apart`: points at which locals are bound one after the other.

## Main results

* `Lane.Lowering.AssignComes.touches`: an assignment gives storage to what it declares only.
* `Lane.Lowering.AssignComes.apart`: the points at which an assignment binds locals follow one
  another.
* `Lane.Lowering.exists_point_of_assign`: what an assignment declares is bound at a point of it.
-/

namespace Lane.Lowering

open Code

/-! ## Points of assignments -/

/-- What lowering comes to at a point: an expression is evaluated, or a declared local is bound. -/
inductive Visit where
  | evaluates (x : TExpr)
  | binds (l : Local)

/-- What lowering comes to when a target gets its value. -/
def targetVisit : TTarget → Visit
  | .decl _ l => .binds l
  | .expr x => .evaluates x

/-- The state after the discarded calls, and after the new locals are bound that functions called on
the right write to. -/
def Opens (env : Env) (ps : List Pair) (ds : List TExpr) (b : Builder)
    (entries : List (Nat × List (Option Operand))) (c : Builder) : Prop :=
  ∃ b₁, Runs env (discard ds) b () b₁ ∧ Runs env (destinations ps []) b₁ entries c

/-- **The points of an assignment** that is lowered from `b`: the discarded calls, the new locals
that functions called on the right write to, and then either the target and the arguments of a
create or assign that takes them directly, or the expressions on the right and the targets in
order. -/
inductive AssignComes (env : Env) (vs : List TExpr) (ps : List Pair) (ds : List TExpr)
    (b : Builder) : Visit → Builder → Prop
  | discarded {pre post : List TExpr} {x : TExpr} {c : Builder} (hds : ds = pre ++ x :: post)
    (h : Runs env (discard pre) b () c) : AssignComes env vs ps ds b (.evaluates x) c
  | destination {pre post : List Pair} {d : DeclSyntax} {l : Local} {v : PairValue}
    {ws : List PairValue} {b₁ c : Builder} {entries : List (Nat × List (Option Operand))}
    (hps : ps = pre ++ ⟨.initializedByCaller, .decl d l, v :: ws⟩ :: post)
    (hd : Runs env (discard ds) b () b₁) (h : Runs env (destinations pre []) b₁ entries c) :
    AssignComes env vs ps ds b (.binds l) c
  | directTarget {f : MemberFunction} {g : TTarget} {ws : List PairValue} {c : Builder}
    {entries : List (Nat × List (Option Operand))} (hps : ps = [⟨.user f, g, ws⟩])
    (hd : isDirect ps) (h : Opens env ps ds b entries c) :
    AssignComes env vs ps ds b (targetVisit g) c
  | directArgument {f : MemberFunction} {g : TTarget} {ws : List PairValue} {a : Operand}
    {x : TExpr} {c c₁ c₂ : Builder} {entries : List (Nat × List (Option Operand))}
    (hps : ps = [⟨.user f, g, ws⟩]) (hd : isDirect ps) (h : Opens env ps ds b entries c)
    (hg : Runs env (do address (← targetPlace g)) c a c₁)
    (hx : ComesAt env f.sig.params (ws.filterMap fun w => vs[w.source]?) c₁ x c₂) :
    AssignComes env vs ps ds b (.evaluates x) c₂
  | value {pre post : List TExpr} {x : TExpr} {c c₁ : Builder} {operands : List (List Operand)}
    {entries : List (Nat × List (Option Operand))} (hd : isDirect ps = false)
    (h : Opens env ps ds b entries c) (hvs : vs = pre ++ x :: post)
    (hx : Runs env (evaluate ps entries 0 pre) c operands c₁) :
    AssignComes env vs ps ds b (.evaluates x) c₁
  | target {pre post : List Pair} {q : Pair} {c c₁ c₂ : Builder} {operands : List (List Operand)}
    {entries : List (Nat × List (Option Operand))} (hd : isDirect ps = false)
    (h : Opens env ps ds b entries c) (hvs : Runs env (evaluate ps entries 0 vs) c operands c₁)
    (hps : ps = pre ++ q :: post) (hq : q.kind ≠ .initializedByCaller)
    (hg : Runs env (pairs operands pre) c₁ () c₂) :
    AssignComes env vs ps ds b (targetVisit q.target) c₂

/-- Whether a pair declares a local that a function called on the right writes to. -/
def isDestined (q : Pair) : Bool := q.kind == .initializedByCaller

/-- The locals that are bound before the expressions on the right are evaluated. -/
def destined (ps : List Pair) : List Local := declaredBy (ps.filter isDestined)

/-- The locals that are bound after it. -/
def undestined (ps : List Pair) : List Local := declaredBy (ps.filter fun q => !isDestined q)

section Assignments

variable {env : Env} {l l' : Local} {s : Storage} {b b' c c' : Builder} {ps pre post : List Pair}
  {q : Pair} {g : TTarget} {operands : List (List Operand)}

/-- Pairs declare the locals of their targets. -/
lemma mem_declaredBy : l ∈ declaredBy ps ↔ ∃ q ∈ ps, q.target.local? = some l := List.mem_filterMap

/-- A pair that declares a local. -/
lemma mem_declaredBy_of_decl {d : DeclSyntax} (hq : q ∈ ps) (ht : q.target = .decl d l) :
    l ∈ declaredBy ps :=
  mem_declaredBy.2 ⟨q, hq, by rw [ht]; rfl⟩

/-- A declared local has a pair that declares it. -/
lemma exists_of_mem_declaredBy (h : l ∈ declaredBy ps) :
    ∃ pre q post d, ps = pre ++ q :: post ∧ q.target = .decl d l := by
  obtain ⟨q, hq, ht⟩ := mem_declaredBy.1 h
  obtain ⟨pre, post, rfl⟩ := List.append_of_mem hq
  cases hg : q.target with
  | decl d l' =>
    obtain rfl : l' = l := by simpa [hg, TTarget.local?] using ht
    exact ⟨pre, q, post, d, rfl, hg⟩
  | expr x => simp [hg, TTarget.local?] at ht

/-- What two lists of pairs declare. -/
lemma declaredBy_append (ps qs : List Pair) :
    declaredBy (ps ++ qs) = declaredBy ps ++ declaredBy qs :=
  List.filterMap_append

/-- A local that one pair declares is declared by no other pair. -/
lemma ne_of_nodup {d : DeclSyntax} (hn : ((declaredBy (pre ++ q :: post)).map Local.id).Nodup)
    (hq : q.target = .decl d l) (hl' : l' ∈ declaredBy (pre ++ post)) : l.id ≠ l'.id := by
  have hperm : (declaredBy (pre ++ q :: post)).Perm (l :: declaredBy (pre ++ post)) := by
    rw [declaredBy_append, declaredBy_append, declaredBy_cons, hq]
    exact List.perm_middle
  have hn := (hperm.map Local.id).nodup_iff.1 hn
  exact fun he => (List.nodup_cons.1 hn).1 (he ▸ List.mem_map_of_mem hl')

/-! ### Binding in order -/

/-- The local that is bound from `c` has its storage before `c'`. -/
def BoundBefore (env : Env) (l : Local) (c c' : Builder) : Prop :=
  ∀ s d, Runs env (bindLocal l) c s d → d.Precedes c'

/-- A local is bound before what follows. -/
lemma BoundBefore.of_run {d : Builder} (h : Runs env (bindLocal l) c s d) (hd : d.Precedes c') :
    BoundBefore env l c c' :=
  fun _ _ hr => (hr.unique h).2 ▸ hd

/-- A local stays bound. -/
lemma BoundBefore.trans {d : Builder} (h : BoundBefore env l c c') (hd : c'.Precedes d) :
    BoundBefore env l c d :=
  fun s e hr => (h s e hr).trans hd

/-- The place of a declaration is made by binding its local. -/
lemma of_runs_targetPlace {d : DeclSyntax} {p : Place}
    (h : Runs env (targetPlace (.decl d l)) b p c) : ∃ s, Runs env (bindLocal l) b s c := by
  obtain ⟨s, b₁, hs, h⟩ := h.of_bind
  obtain ⟨-, rfl⟩ := h.of_pure
  exact ⟨s, hs⟩

/-- A target touches the local that it declares. -/
lemma targetPlace_touches (g : TTarget) : Touches env g.local?.toList (targetPlace g) := by
  cases g with
  | decl d l => exact (bindLocal_touches l).bind fun _ => .pure _
  | expr x => exact touches_of_spares (spares_of_gives ((expr_spares x).place ()))

/-- A function that was called before has written to the target of a pair. -/
lemma keeps_of_runs_pair {r : Unit} (h : Runs env (pair operands q) b r c)
    (hq : q.kind = .initializedByCaller) : b.Keeps c := by
  simp only [pair, hq] at h
  obtain ⟨-, rfl⟩ := h.of_pure
  exact .refl _

/-- Any other pair does nothing to locals, or binds its target first. -/
lemma of_runs_pair {r : Unit} (h : Runs env (pair operands q) b r c)
    (hq : q.kind ≠ .initializedByCaller) : b.Keeps c ∧ q.target.local? = none ∨
      ∃ p b₁, Runs env (targetPlace q.target) b p b₁ ∧ b₁.Keeps c := by
  have rest : ∀ {α : Type} {b₁ : Builder} {a : α} {m : Lower α} {R : Unit → α → Prop},
      Runs env m b₁ a c → (sparing env).Gives () m R → b₁.Keeps c :=
    fun hr hm => spares_of_gives hm _ _ _ hr
  have have_all : ValueDiscipline.AllHave (sparingExpr env) () operands := fun _ _ _ _ => trivial
  unfold pair at h
  split at h
  · split at h
    · rename_i d l hg
      obtain ⟨s, b₁, hs, h⟩ := h.of_bind
      obtain ⟨-, rfl⟩ := h.of_pure
      refine .inr ⟨.ofStorage l.type s, b₁, ?_, .refl _⟩
      rw [hg]
      exact (run_bind hs).trans rfl
    · rename_i x hg
      obtain ⟨-, rfl⟩ := h.of_pure
      exact .inl ⟨.refl _, by rw [hg]; rfl⟩
  · exact absurd ‹_› hq
  · obtain ⟨p, b₁, hp, h⟩ := h.of_bind
    exact .inr ⟨p, b₁, hp, rest h (Discipline.put_gives trivial trivial)⟩
  · obtain ⟨p, b₁, hp, h⟩ := h.of_bind
    exact .inr ⟨p, b₁, hp, rest h (.bind (ValueDiscipline.valueOf_gives have_all _) fun _ _ _ _ =>
      Discipline.put_gives trivial trivial)⟩
  · obtain ⟨p, b₁, hp, h⟩ := h.of_bind
    exact .inr ⟨p, b₁, hp, rest h (.bind (ValueDiscipline.valueOf_gives have_all _) fun _ _ _ _ =>
      Discipline.put_gives trivial trivial)⟩
  · obtain ⟨p, b₁, hp, h⟩ := h.of_bind
    exact .inr ⟨p, b₁, hp, rest h (.bind (ValueDiscipline.valueOf_gives have_all _) fun _ _ _ _ =>
      ValueDiscipline.copyContainer_gives trivial trivial)⟩
  · obtain ⟨p, b₁, hp, h⟩ := h.of_bind
    exact .inr ⟨p, b₁, hp, rest h (Discipline.emptyContainer_gives trivial)⟩
  · obtain ⟨p, b₁, hp, h⟩ := h.of_bind
    exact .inr ⟨p, b₁, hp, rest h (.bind (ValueDiscipline.valueOf_gives have_all _) fun _ _ _ _ =>
      ValueDiscipline.allocContainer_gives (D := sparing env) trivial trivial)⟩
  · obtain ⟨p, b₁, hp, h⟩ := h.of_bind
    exact .inr ⟨p, b₁, hp, rest h (.bind (Discipline.address_gives trivial) fun _ _ _ _ =>
      .bind (ValueDiscipline.givenArguments_gives _ _ have_all) fun _ _ _ has =>
        Discipline.invoke_gives _ trivial has)⟩
  · exact absurd h not_runs_throw
  · exact absurd h not_runs_throw

/-- A pair that declares a local which no function writes to binds it first. -/
lemma bindLocal_of_runs_pair {d : DeclSyntax} {r : Unit} (h : Runs env (pair operands q) b r c)
    (hg : q.target = .decl d l) (hk : q.kind ≠ .initializedByCaller) :
    ∃ s b₁, Runs env (bindLocal l) b s b₁ ∧ b₁.Keeps c := by
  obtain ⟨-, h⟩ | ⟨p, b₁, hp, h⟩ := of_runs_pair h hk
  · simp [hg, TTarget.local?] at h
  · obtain ⟨s, hs⟩ := of_runs_targetPlace (hg ▸ hp)
    exact ⟨s, b₁, hs, h⟩

/-- Pairs after others. -/
lemma pairs_append (ps qs : List Pair) :
    pairs operands (ps ++ qs) = pairs operands ps >>= fun _ => pairs operands qs := by
  induction ps with
  | nil => simp [pairs]
  | cons p ps ih => simp [pairs, ih]

/-- Destinations of two lists of pairs are made one after the other. -/
lemma destinations_append (ps qs : List Pair) : ∀ entries : List (Nat × List (Option Operand)),
    destinations (ps ++ qs) entries = destinations ps entries >>= destinations qs := by
  induction ps with
  | nil => simp [destinations]
  | cons p ps ih =>
    intro entries
    simp only [List.cons_append, destinations]
    split
    · rw [bind_assoc]
      congr
      funext s
      split
      · exact ih _
      · exact ih _
    · exact ih _

/-- Where a destination is bound, and what is bound after it. -/
lemma of_runs_destinations {d : DeclSyntax} {v : PairValue} {ws : List PairValue}
    {es es' : List (Nat × List (Option Operand))}
    (h : Runs env (destinations (⟨.initializedByCaller, .decl d l, v :: ws⟩ :: post) es) b es' c) :
    ∃ s b₁ fs, Runs env (bindLocal l) b s b₁ ∧ Runs env (destinations post fs) b₁ es' c := by
  obtain ⟨s, b₁, hs, h⟩ := Runs.of_bind h
  split at h
  · exact ⟨_, b₁, _, hs, h⟩
  · exact ⟨_, b₁, _, hs, h⟩

/-- What is declared by more pairs of some kind. -/
lemma declaredBy_filter_subset (f : Pair → Bool) (q : Pair) (ps : List Pair) :
    declaredBy (ps.filter f) ⊆ declaredBy ((q :: ps).filter f) :=
  List.filterMap_subset _ ((List.sublist_cons_self q ps).filter f).subset

/-- A pair that is picked declares its local. -/
lemma declaredBy_filter_of_pos {f : Pair → Bool} (hq : f q) :
    q.target.local?.toList ⊆ declaredBy ((q :: ps).filter f) := by
  rw [List.filter_cons_of_pos hq, declaredBy_cons]
  exact List.subset_append_left _ _

/-- Destinations touch the locals of pairs that have one. -/
lemma destinations_touches : ∀ (ps : List Pair) (es : List (Nat × List (Option Operand))),
    Touches env (destined ps) (destinations ps es)
  | [], es => Touches.pure es
  | q :: ps, es => by
    have hsub := declaredBy_filter_subset isDestined q ps
    unfold destinations
    split
    · rename_i d l v ws hk hg hv
      refine Touches.bind ((bindLocal_touches l).mono ?_) fun s => ?_
      · refine List.Subset.trans ?_ (declaredBy_filter_of_pos (by simp [isDestined, hk]))
        simp [hg, TTarget.local?]
      · split
        · exact (destinations_touches ps _).mono hsub
        · exact (destinations_touches ps _).mono hsub
    · exact (destinations_touches ps es).mono hsub

/-- Pairs touch the locals of the others. -/
lemma pairs_touches : ∀ ps : List Pair, Touches env (undestined ps) (pairs operands ps)
  | [] => Touches.pure ()
  | q :: ps => by
    have hsub := declaredBy_filter_subset (fun q => !isDestined q) q ps
    refine Touches.bind (fun b r c hr => ?_) fun _ => (pairs_touches ps).mono hsub
    by_cases hq : q.kind = .initializedByCaller
    · have hk := keeps_of_runs_pair hr hq
      exact ⟨hk.toPrecedes, fun _ _ => by rw [hk.locals_eq]⟩
    · obtain ⟨hk, -⟩ | ⟨p, b₁, hp, hk⟩ := of_runs_pair hr hq
      · exact ⟨hk.toPrecedes, fun _ _ => by rw [hk.locals_eq]⟩
      · have htarget : declaredBy [q] ⊆ declaredBy ((q :: ps).filter fun q => !isDestined q) :=
          declaredBy_filter_of_pos (by simp [isDestined, hq])
        obtain ⟨hle, hl⟩ := (targetPlace_touches q.target).mono htarget b p b₁ hp
        exact ⟨hle.trans hk.toPrecedes, fun i hi => by rw [hk.locals_eq, hl i hi]⟩

/-- Values that nothing takes spare the locals. -/
lemma discard_spares (ds : List TExpr) : Spares env (discard ds) :=
  spares_of_gives (ValueDiscipline.discard_gives (D := sparing env) () fun _ _ _ _ _ _ => trivial)

/-- Evaluation spares the locals. -/
lemma evaluate_spares (es : List (Nat × List (Option Operand))) (n : Nat) (vs : List TExpr) :
    Spares env (evaluate ps es n vs) :=
  spares_of_gives (ValueDiscipline.evaluate_gives (D := sparing env) n
    (fun _ _ _ _ _ _ => trivial) fun _ _ _ => trivial)

/-! ### Assignments as a whole -/

variable {vs ds : List TExpr} {v : Visit}

/-- An assignment carries out its pair directly, or evaluates the expressions on the right before it
carries out its pairs. -/
lemma of_runs_assign (h : Runs env (assign vs ps ds) b () b') : ∃ es c, Opens env ps ds b es c ∧
    ((∃ f g ws p c₁, ps = [⟨.user f, g, ws⟩] ∧ isDirect ps ∧ Runs env (targetPlace g) c p c₁ ∧
        c₁.Keeps b') ∨
      ∃ operands c₁, isDirect ps = false ∧ Runs env (evaluate ps es 0 vs) c operands c₁ ∧
        Runs env (pairs operands ps) c₁ () b') := by
  obtain ⟨⟨⟩, b₁, h₁, h⟩ := h.of_bind
  obtain ⟨es, c, h₂, h⟩ := h.of_bind
  refine ⟨es, c, ⟨b₁, h₁, h₂⟩, ?_⟩
  split at h
  · rename_i f g ws _ _
    split at h
    · rename_i hall
      obtain ⟨p, c₁, hp, h⟩ := h.of_bind
      refine .inl ⟨f, g, ws, p, c₁, rfl, hall, hp, ?_⟩
      refine spares_of_gives (R := fun _ _ => True) ?_ _ _ _ h
      refine .bind (Discipline.address_gives trivial) fun w _ _ _ =>
        .bind (Discipline.arguments_gives f.sig.params w fun x hx => ?_) fun _ r _ hr =>
        .bind (Discipline.invoke_gives f trivial hr.1) fun _ _ _ _ =>
        .bind (Discipline.writeBack_gives hr.2) fun _ _ _ _ => .pure trivial
      obtain ⟨w, -, hw⟩ := List.mem_filterMap.1 hx
      obtain ⟨x, -, rfl⟩ := Option.map_eq_some_iff.1 hw
      exact expr_spares x
    · rename_i hall
      obtain ⟨operands, c₁, hv, h⟩ := h.of_bind
      exact .inr ⟨operands, c₁, by simpa [isDirect] using hall, hv, h⟩
  · rename_i hno
    obtain ⟨operands, c₁, hv, h⟩ := h.of_bind
    refine .inr ⟨operands, c₁, ?_, hv, h⟩
    unfold isDirect
    split
    · exact absurd rfl (hno _ _ _)
    · rfl

/-- Opening an assignment binds the locals that functions called on the right write to. -/
lemma Opens.touches {es : List (Nat × List (Option Operand))} (h : Opens env ps ds b es c) :
    b.Precedes c ∧ ∀ i ∉ (destined ps).map Local.id, c.locals.lookup i = b.locals.lookup i := by
  obtain ⟨b₁, h₁, h₂⟩ := h
  have hk := discard_spares ds b () b₁ h₁
  obtain ⟨hle, hl⟩ := destinations_touches ps [] b₁ es c h₂
  exact ⟨hk.toPrecedes.trans hle, fun i hi => by rw [hl i hi, hk.locals_eq]⟩

/-- Locals with a destination are declared. -/
lemma destined_subset : destined ps ⊆ declaredBy ps :=
  List.filterMap_subset _ (List.filter_subset_self _)

/-- Locals without a destination are declared. -/
lemma undestined_subset : undestined ps ⊆ declaredBy ps :=
  List.filterMap_subset _ (List.filter_subset_self _)

/-- A local that was not touched still has no storage. -/
lemma lookup_eq_none_of_touched {D : List Local}
    (hl : ∀ i ∉ D.map Local.id, c.locals.lookup i = b.locals.lookup i)
    (hb : b.locals.lookup l.id = none) (hD : ∀ k ∈ D, l.id ≠ k.id) :
    c.locals.lookup l.id = none := by
  refine (hl l.id fun hi => ?_).trans hb
  obtain ⟨k, hk, he⟩ := List.mem_map.1 hi
  exact hD k hk he.symm

/-- The points of an assignment come after it began, and only what it declares is bound. -/
lemma AssignComes.touches (h : AssignComes env vs ps ds b v c) : b.Precedes c ∧
    ∀ i ∉ (declaredBy ps).map Local.id, c.locals.lookup i = b.locals.lookup i := by
  have opens : ∀ {es c}, Opens env ps ds b es c → b.Precedes c ∧
      ∀ i ∉ (declaredBy ps).map Local.id, c.locals.lookup i = b.locals.lookup i := fun ho =>
    ⟨ho.touches.1, fun i hi => ho.touches.2 i fun hd => hi (List.map_subset _ destined_subset hd)⟩
  have further : ∀ {α : Type} {D : List Local} {m : Lower α} {c a c'}, D ⊆ declaredBy ps →
      (b.Precedes c ∧ ∀ i ∉ (declaredBy ps).map Local.id, c.locals.lookup i = b.locals.lookup i) →
      Touches env D m → Runs env m c a c' → b.Precedes c' ∧
        ∀ i ∉ (declaredBy ps).map Local.id, c'.locals.lookup i = b.locals.lookup i := by
    intro α D m c a c' hD hc hm hr
    obtain ⟨hle, hl⟩ := hm.mono hD c a c' hr
    exact ⟨hc.1.trans hle, fun i hi => (hl i hi).trans (hc.2 i hi)⟩
  have refl : b.Precedes b ∧
      ∀ i ∉ (declaredBy ps).map Local.id, b.locals.lookup i = b.locals.lookup i :=
    ⟨.refl b, fun _ _ => rfl⟩
  cases h with
  | discarded hds h =>
    exact further (List.nil_subset _) refl (touches_of_spares (discard_spares _)) h
  | @destination pre post d l w ws b₁ c entries hps hd h =>
    have hD : destined pre ⊆ declaredBy ps := by
      rw [hps, declaredBy_append]
      exact List.Subset.trans destined_subset (List.subset_append_left _ _)
    exact further hD (further (List.nil_subset _) refl (touches_of_spares (discard_spares _)) hd)
      (destinations_touches pre []) h
  | directTarget hps hd h => exact opens h
  | @directArgument f g ws a x c c₁ c₂ entries hps hd h hg hx =>
    have hD : g.local?.toList ⊆ declaredBy ps := by
      rw [hps, declaredBy_cons]
      exact List.subset_append_left _ _
    have hg := further hD (opens h) ((targetPlace_touches g).bind fun p =>
      touches_of_spares (spares_of_gives (Discipline.address_gives trivial))) hg
    exact ⟨hg.1.trans hx.keeps.toPrecedes, fun i hi => by rw [hx.keeps.locals_eq, hg.2 i hi]⟩
  | value hd h hvs hx =>
    exact further (List.nil_subset _) (opens h) (touches_of_spares (evaluate_spares _ _ _)) hx
  | @target pre post q c c₁ c₂ operands entries hd h hvs hps hq hg =>
    have hD : undestined pre ⊆ declaredBy ps := by
      rw [hps, declaredBy_append]
      exact List.Subset.trans undestined_subset (List.subset_append_left _ _)
    exact further hD (further (List.nil_subset _) (opens h)
      (touches_of_spares (evaluate_spares _ _ _)) hvs) (pairs_touches pre) hg

/-- **The points at which an assignment binds locals**: lowering comes to the pair `q` after the
pairs `pre`, either before the expressions on the right are evaluated or after it. -/
inductive BindsAt (env : Env) (vs : List TExpr) (ps : List Pair) (ds : List TExpr) (b : Builder)
    (pre : List Pair) (q : Pair) (c : Builder) : Prop
  | destination {b₁ : Builder} {es : List (Nat × List (Option Operand))}
    (hk : q.kind = .initializedByCaller) (hv : q.values ≠ [])
    (hd : Runs env (discard ds) b () b₁) (h : Runs env (destinations pre []) b₁ es c)
  | target {b₁ b₂ : Builder} {es : List (Nat × List (Option Operand))}
    {operands : List (List Operand)} (hk : q.kind ≠ .initializedByCaller)
    (ho : Opens env ps ds b es b₁)
    (hd : if isDirect ps then operands = [] ∧ b₂ = b₁ else
      Runs env (evaluate ps es 0 vs) b₁ operands b₂)
    (hg : Runs env (pairs operands pre) b₂ () c)

/-- Every point at which a local is bound belongs to a pair that declares it. -/
lemma AssignComes.exists_bindsAt (h : AssignComes env vs ps ds b (.binds l) c) :
    ∃ pre q post d, ps = pre ++ q :: post ∧ q.target = .decl d l ∧
      BindsAt env vs ps ds b pre q c := by
  have target : ∀ {g : TTarget} {w : Visit}, w = targetVisit g → w = .binds l →
      ∃ d, g = .decl d l := by
    intro g w hg hw
    cases g with
    | decl d l' =>
      obtain rfl := Visit.binds.inj (hg.symm.trans hw)
      exact ⟨d, rfl⟩
    | expr x => cases hg.symm.trans hw
  generalize hv : Visit.binds l = w at h
  cases h with
  | discarded | directArgument | value => cases hv
  | @destination pre post d l' u ws b₁ c entries hps hd h =>
    obtain rfl := Visit.binds.inj hv
    exact ⟨pre, _, post, d, hps, rfl, .destination rfl (List.cons_ne_nil _ _) hd h⟩
  | @directTarget f g ws c entries hps hd h =>
    obtain ⟨d, rfl⟩ := target rfl hv.symm
    have hstay : if isDirect ps then ([] : List (List Operand)) = [] ∧ c = c else
        Runs env (evaluate ps entries 0 vs) c [] c := by
      rw [if_pos hd]
      exact ⟨rfl, rfl⟩
    exact ⟨[], _, [], d, hps, rfl, .target (by simp) h hstay rfl⟩
  | @target pre post q c c₁ c₂ operands entries hd h hvs hps hq hg =>
    obtain ⟨d, hd'⟩ := target rfl hv.symm
    exact ⟨pre, q, post, d, hps, hd', .target hq h (by simpa [hd] using hvs) hg⟩

/-- A destination is bound where it is come to, and other destinations after it. -/
lemma bound_of_destinations {d : DeclSyntax} {b₁ : Builder}
    {es fs : List (Nat × List (Option Operand))} (hq : q.target = .decl d l)
    (hk : q.kind = .initializedByCaller) (hv : q.values ≠ [])
    (hc : Runs env (destinations pre []) b₁ es c)
    (h : Runs env (destinations (pre ++ q :: post) []) b₁ fs c') :
    ∃ s e gs, Runs env (bindLocal l) c s e ∧ Runs env (destinations post gs) e fs c' := by
  rw [destinations_append] at h
  obtain ⟨es', c₁, hc₁, h⟩ := h.of_bind
  obtain ⟨rfl, rfl⟩ := hc₁.unique hc
  obtain ⟨k, g, ws⟩ := q
  obtain rfl : k = _ := hk
  obtain rfl : g = _ := hq
  cases ws with
  | nil => exact absurd rfl hv
  | cons v ws => exact of_runs_destinations h

/-- Any other target is bound where it is come to, and those of other pairs after it. -/
lemma bound_of_pairs {d : DeclSyntax} {b₁ : Builder} (hq : q.target = .decl d l)
    (hk : q.kind ≠ .initializedByCaller) (hc : Runs env (pairs operands pre) b₁ () c)
    (h : Runs env (pairs operands (pre ++ q :: post)) b₁ () c') :
    ∃ s e e', Runs env (bindLocal l) c s e ∧ e.Keeps e' ∧
      Runs env (pairs operands post) e' () c' := by
  rw [pairs_append] at h
  obtain ⟨⟨⟩, c₁, hc₁, h⟩ := h.of_bind
  obtain ⟨-, rfl⟩ := hc₁.unique hc
  obtain ⟨⟨⟩, e', he', h⟩ := h.of_bind
  obtain ⟨s, e, hs, hke⟩ := bindLocal_of_runs_pair he' hq hk
  exact ⟨s, e, e', hs, hke, h⟩

/-- An assignment opens in one way only. -/
lemma Opens.unique {es fs : List (Nat × List (Option Operand))} (h : Opens env ps ds b es c)
    (h' : Opens env ps ds b fs c') : es = fs ∧ c = c' := by
  obtain ⟨b₁, h₁, h₂⟩ := h
  obtain ⟨b₂, h₁', h₂'⟩ := h'
  obtain ⟨-, rfl⟩ := h₁.unique h₁'
  exact h₂.unique h₂'

/-- The state from which pairs are carried out. -/
lemma eq_of_operands {es : List (Nat × List (Option Operand))} {operands' : List (List Operand)}
    (h : if isDirect ps then operands = [] ∧ c = b else
      Runs env (evaluate ps es 0 vs) b operands c)
    (h' : if isDirect ps then operands' = [] ∧ c' = b else
      Runs env (evaluate ps es 0 vs) b operands' c') : operands = operands' ∧ c = c' := by
  split at h
  · rw [if_pos ‹_›] at h'
    exact ⟨h.1.trans h'.1.symm, h.2.trans h'.2.symm⟩
  · rw [if_neg ‹_›] at h'
    exact h.unique h'

/-- A destination is bound before the expressions on the right are evaluated. -/
lemma BindsAt.before_opens {d : DeclSyntax} {es : List (Nat × List (Option Operand))}
    (h : BindsAt env vs ps ds b pre q c) (hps : ps = pre ++ q :: post) (hq : q.target = .decl d l)
    (hk : q.kind = .initializedByCaller) (ho : Opens env ps ds b es c') :
    BoundBefore env l c c' := by
  cases h with
  | target hk' => exact absurd hk hk'
  | destination hk hv hd h =>
    obtain ⟨b₂, hd', h'⟩ := ho
    obtain ⟨-, rfl⟩ := hd.unique hd'
    obtain ⟨s, e, gs, hs, hpost⟩ := bound_of_destinations hq hk hv h (hps ▸ h')
    exact .of_run hs (destinations_touches post gs _ _ _ hpost).1

/-- Of two pairs that are carried out in the same way, the first one is bound before the second. -/
lemma BindsAt.before {mid : List Pair} {q' : Pair} {d : DeclSyntax}
    (h : BindsAt env vs ps ds b pre q c) (h' : BindsAt env vs ps ds b (pre ++ q :: mid) q' c')
    (hq : q.target = .decl d l)
    (hkind : q.kind = .initializedByCaller ↔ q'.kind = .initializedByCaller) :
    BoundBefore env l c c' := by
  cases h with
  | destination hk hv hd h =>
    cases h' with
    | target hk' => exact absurd (hkind.1 hk) hk'
    | destination _ _ hd' h' =>
      obtain ⟨-, rfl⟩ := hd.unique hd'
      obtain ⟨s, e, gs, hs, hmid⟩ := bound_of_destinations hq hk hv h h'
      exact .of_run hs (destinations_touches mid gs _ _ _ hmid).1
  | target hk ho hd h =>
    cases h' with
    | destination hk' => exact absurd (hkind.2 hk') hk
    | target _ ho' hd' h' =>
      obtain ⟨rfl, rfl⟩ := ho.unique ho'
      obtain ⟨rfl, rfl⟩ := eq_of_operands hd hd'
      obtain ⟨s, e, e', hs, hke, hmid⟩ := bound_of_pairs hq hk h h'
      exact .of_run hs (hke.toPrecedes.trans (pairs_touches mid _ _ _ hmid).1)

/-- A pair is come to at one point. -/
lemma BindsAt.unique (h : BindsAt env vs ps ds b pre q c) (h' : BindsAt env vs ps ds b pre q c') :
    c = c' := by
  cases h with
  | destination hk hv hd h =>
    cases h' with
    | target hk' => exact absurd hk hk'
    | destination _ _ hd' h' =>
      obtain ⟨-, rfl⟩ := hd.unique hd'
      exact (h.unique h').2
  | target hk ho hd h =>
    cases h' with
    | destination hk' => exact absurd hk' hk
    | target _ ho' hd' h' =>
      obtain ⟨rfl, rfl⟩ := ho.unique ho'
      obtain ⟨rfl, rfl⟩ := eq_of_operands hd hd'
      exact (h.unique h').2

/-- Two points at which locals are bound are the same, or one local has its storage before the other
one is bound. -/
def Apart (env : Env) (l l' : Local) (c c' : Builder) : Prop :=
  l = l' ∧ c = c' ∨ l.id ≠ l'.id ∧ (BoundBefore env l c c' ∨ BoundBefore env l' c' c)

/-- Being apart is symmetric. -/
lemma Apart.symm (h : Apart env l l' c c') : Apart env l' l c' c :=
  h.imp (fun ⟨hl, hc⟩ => ⟨hl.symm, hc.symm⟩) fun ⟨hl, hc⟩ => ⟨hl.symm, hc.symm⟩

/-- The pairs of an assignment bind their locals one after the other. -/
lemma BindsAt.apart_of_after {mid : List Pair} {q' : Pair} {d d' : DeclSyntax}
    (hn : ((declaredBy ps).map Local.id).Nodup) (h : BindsAt env vs ps ds b pre q c)
    (h' : BindsAt env vs ps ds b (pre ++ q :: mid) q' c')
    (hps : ps = pre ++ q :: (mid ++ q' :: post)) (hq : q.target = .decl d l)
    (hq' : q'.target = .decl d' l') : Apart env l l' c c' := by
  refine .inr ⟨ne_of_nodup (hps ▸ hn) hq (mem_declaredBy_of_decl (q := q') ?_ hq'), ?_⟩
  · simp
  by_cases hk : q.kind = .initializedByCaller <;> by_cases hk' : q'.kind = .initializedByCaller
  · exact .inl (h.before h' hq (iff_of_true hk hk'))
  · cases h' with
    | destination hk'' => exact absurd hk'' hk'
    | target _ ho hd hg =>
      refine .inl ((h.before_opens hps hq hk ho).trans ?_)
      refine .trans ?_ (pairs_touches _ _ _ _ hg).1
      split at hd
      · exact hd.2 ▸ .refl _
      · exact (evaluate_spares _ _ _ _ _ _ hd).toPrecedes
  · cases h with
    | destination hk'' => exact absurd hk'' hk
    | target _ ho hd hg =>
      refine .inr ((h'.before_opens (hps.trans (List.append_assoc _ (q :: mid) _).symm) hq'
        hk' ho).trans ?_)
      refine .trans ?_ (pairs_touches _ _ _ _ hg).1
      split at hd
      · exact hd.2 ▸ .refl _
      · exact (evaluate_spares _ _ _ _ _ _ hd).toPrecedes
  · exact .inl (h.before h' hq (iff_of_false hk hk'))

/-- **The points at which an assignment binds locals follow one another**. -/
theorem AssignComes.apart (hn : ((declaredBy ps).map Local.id).Nodup)
    (h : AssignComes env vs ps ds b (.binds l) c) (h' : AssignComes env vs ps ds b (.binds l') c') :
    Apart env l l' c c' := by
  obtain ⟨pre, q, post, d, hps, hq, hb⟩ := h.exists_bindsAt
  obtain ⟨pre', q', post', d', hps', hq', hb'⟩ := h'.exists_bindsAt
  obtain ⟨as, hpre, hpost⟩ | ⟨as, hpre, hpost⟩ := List.append_eq_append_iff.1 (hps.symm.trans hps')
  · cases as with
    | nil =>
      obtain ⟨rfl, rfl⟩ := List.cons.inj hpost
      obtain rfl : pre' = pre := by simpa using hpre
      obtain ⟨rfl, rfl⟩ := TTarget.decl.inj (hq.symm.trans hq')
      exact .inl ⟨rfl, hb.unique hb'⟩
    | cons p as =>
      obtain ⟨rfl, rfl⟩ := List.cons.inj hpost
      subst hpre
      exact hb.apart_of_after hn hb' hps hq hq'
  · cases as with
    | nil =>
      obtain ⟨rfl, rfl⟩ := List.cons.inj hpost
      obtain rfl : pre = pre' := by simpa using hpre
      obtain ⟨rfl, rfl⟩ := TTarget.decl.inj (hq.symm.trans hq')
      exact .inl ⟨rfl, hb.unique hb'⟩
    | cons p as =>
      obtain ⟨rfl, rfl⟩ := List.cons.inj hpost
      subst hpre
      exact (hb'.apart_of_after hn hb hps' hq' hq).symm

/-- A local that is bound has no storage before. -/
lemma AssignComes.lookup_eq_none (hn : ((declaredBy ps).map Local.id).Nodup)
    (hb : ∀ k ∈ declaredBy ps, b.locals.lookup k.id = none)
    (h : AssignComes env vs ps ds b (.binds l) c) : c.locals.lookup l.id = none := by
  obtain ⟨pre, q, post, d, hps, hq, h⟩ := h.exists_bindsAt
  have hnone := hb l (mem_declaredBy_of_decl (by simp [hps]) hq)
  have hne : ∀ k ∈ declaredBy (pre ++ post), l.id ≠ k.id := fun k => ne_of_nodup (hps ▸ hn) hq
  have hpre : ∀ k ∈ declaredBy pre, l.id ≠ k.id := fun k hk =>
    hne k (declaredBy_append pre post ▸ List.mem_append_left _ hk)
  cases h with
  | destination hk hv hd h =>
    refine lookup_eq_none_of_touched (destinations_touches pre [] _ _ _ h).2 ?_
      fun k hk => hpre k (destined_subset hk)
    rw [(discard_spares ds _ _ _ hd).locals_eq, hnone]
  | target hk ho hd hg =>
    refine lookup_eq_none_of_touched (pairs_touches pre _ _ _ hg).2 ?_
      fun k hk => hpre k (undestined_subset hk)
    refine Eq.trans ?_ (lookup_eq_none_of_touched ho.touches.2 hnone fun k hmem => ?_)
    · split at hd
      · rw [hd.2]
      · rw [(evaluate_spares _ _ _ _ _ _ hd).locals_eq]
    · -- The pair itself is none of those that functions write to.
      refine hne k ?_
      rw [hps, destined, List.filter_append, List.filter_cons_of_neg (by simp [isDestined, hk]),
        ← List.filter_append] at hmem
      exact destined_subset hmem

/-- A local that is bound is declared by the assignment. -/
lemma AssignComes.mem_declaredBy (h : AssignComes env vs ps ds b (.binds l) c) :
    l ∈ declaredBy ps := by
  obtain ⟨pre, q, post, d, hps, hq, -⟩ := h.exists_bindsAt
  exact mem_declaredBy_of_decl (by simp [hps]) hq

/-- Assignments in which every local that a function called on the right writes to has a value. -/
def AreFed (ps : List Pair) : Prop := ∀ q ∈ ps, q.kind = .initializedByCaller → q.values ≠ []

/-- **What an assignment declares is bound** at a point of it, and has its storage after it. -/
theorem exists_point_of_assign (hn : ((declaredBy ps).map Local.id).Nodup) (hfed : AreFed ps)
    (hl : l ∈ declaredBy ps) (h : Runs env (assign vs ps ds) b () b') :
    ∃ c s d, AssignComes env vs ps ds b (.binds l) c ∧ Runs env (bindLocal l) c s d ∧
      d.Precedes b' ∧ b'.locals.lookup l.id = some s := by
  obtain ⟨pre, q, post, d, hps, hq⟩ := exists_of_mem_declaredBy hl
  obtain ⟨es, c, ho, h⟩ := of_runs_assign h
  -- No other pair declares the same number, so the storage stays as it is once it is there.
  have hne : ∀ k ∈ declaredBy (pre ++ post), l.id ≠ k.id := fun k => ne_of_nodup (hps ▸ hn) hq
  have stays : ∀ {D : List Local} {e e' : Builder},
      (∀ i ∉ D.map Local.id, e'.locals.lookup i = e.locals.lookup i) →
      D ⊆ declaredBy (pre ++ post) → e'.locals.lookup l.id = e.locals.lookup l.id := by
    intro D e e' h hD
    refine h l.id fun hi => ?_
    obtain ⟨k, hk, he⟩ := List.mem_map.1 hi
    exact hne k (hD hk) he.symm
  have hpost : declaredBy post ⊆ declaredBy (pre ++ post) := by
    rw [declaredBy_append]
    exact List.subset_append_right _ _
  -- Storage comes either with the destinations, before the values, or with the pair itself.
  by_cases hk : q.kind = .initializedByCaller
  · have hv : q.values ≠ [] := hfed q (by simp [hps]) hk
    have hund : undestined ps ⊆ declaredBy (pre ++ post) := by
      rw [hps, undestined, List.filter_append, List.filter_cons_of_neg (by simp [isDestined, hk]),
        ← List.filter_append]
      exact undestined_subset
    obtain ⟨b₁, hd, hdest⟩ := ho
    have hsplit := hdest
    rw [hps, destinations_append] at hsplit
    obtain ⟨fs, c₀, hc₀, -⟩ := hsplit.of_bind
    obtain ⟨s, e, gs, hs, hrest⟩ := bound_of_destinations hq hk hv hc₀ (hps ▸ hdest)
    have hafter : c.locals.lookup l.id = some s :=
      (stays (destinations_touches post gs _ _ _ hrest).2
        (List.Subset.trans destined_subset hpost)).trans (lookup_of_bindLocal hs)
    obtain ⟨k, g, ws⟩ := q
    obtain rfl : k = _ := hk
    obtain rfl : g = _ := hq
    obtain ⟨v, ws, rfl⟩ := List.exists_cons_of_ne_nil hv
    obtain ⟨f, g, us, p, c₁, hone, -, -, -⟩ | ⟨operands, c₁, -, hval, hpairs⟩ := h
    · rw [hone] at hps
      cases pre <;> simp at hps
    · obtain ⟨hle, hlook⟩ := pairs_touches ps _ _ _ hpairs
      have hkeep := evaluate_spares _ _ _ _ _ _ hval
      have hrest := (destinations_touches post gs _ _ _ hrest).1
      refine ⟨c₀, s, e, .destination hps hd hc₀, hs,
        hrest.trans (hkeep.toPrecedes.trans hle), ?_⟩
      rw [stays hlook hund, hkeep.locals_eq, hafter]
  · obtain ⟨f, g, us, p, c₁, hone, hdir, hg, hkeep⟩ | ⟨operands, c₁, hdir, hval, hpairs⟩ := h
    · have hsingle := hone ▸ hps
      cases pre with
      | cons p pre => simp at hsingle
      | nil =>
        obtain rfl := (List.cons.inj hsingle).1
        obtain rfl : g = .decl d l := hq
        obtain ⟨s, hs⟩ := of_runs_targetPlace hg
        refine ⟨c, s, c₁, .directTarget hone hdir ho, hs, hkeep.toPrecedes, ?_⟩
        rw [hkeep.locals_eq, lookup_of_bindLocal hs]
    · have hsplit := hpairs
      rw [hps, pairs_append] at hsplit
      obtain ⟨⟨⟩, c₀, hc₀, -⟩ := hsplit.of_bind
      obtain ⟨s, e, e', hs, hke, hrest⟩ := bound_of_pairs hq hk hc₀ (hps ▸ hpairs)
      obtain ⟨hle, hlook⟩ := pairs_touches post _ _ _ hrest
      refine ⟨c₀, s, e, ?_, hs, hke.toPrecedes.trans hle, ?_⟩
      · have hvisit : targetVisit q.target = .binds l := congrArg targetVisit hq
        exact hvisit ▸ .target hdir ho hval hps hk hc₀
      · rw [stays hlook (List.Subset.trans undestined_subset hpost), hke.locals_eq,
          lookup_of_bindLocal hs]

/-- An assignment gives storage to what it declares. -/
lemma assign_touches (vs : List TExpr) (ps : List Pair) (ds : List TExpr) :
    Touches env (declaredBy ps) (assign vs ps ds) := by
  intro b r b' h
  obtain ⟨es, c, ho, h⟩ := of_runs_assign h
  obtain ⟨hle, hl⟩ := ho.touches
  have hopen : ∀ i ∉ (declaredBy ps).map Local.id, c.locals.lookup i = b.locals.lookup i :=
    fun i hi => hl i fun hd => hi (List.map_subset _ destined_subset hd)
  obtain ⟨f, g, us, p, c₁, hone, -, hg, hkeep⟩ | ⟨operands, c₁, -, hval, hpairs⟩ := h
  · have hD : g.local?.toList ⊆ declaredBy ps := by
      rw [hone, declaredBy_cons]
      exact List.subset_append_left _ _
    obtain ⟨hle', hl'⟩ := (targetPlace_touches g).mono hD _ _ _ hg
    refine ⟨hle.trans (hle'.trans hkeep.toPrecedes), fun i hi => ?_⟩
    rw [hkeep.locals_eq, hl' i hi, hopen i hi]
  · have hkeep := evaluate_spares _ _ _ _ _ _ hval
    obtain ⟨hle', hl'⟩ := (pairs_touches ps).mono undestined_subset _ _ _ hpairs
    refine ⟨hle.trans (hkeep.toPrecedes.trans hle'), fun i hi => ?_⟩
    rw [hl' i hi, hkeep.locals_eq, hopen i hi]

end Assignments

end Lane.Lowering
