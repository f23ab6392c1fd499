import Lane.Proofs.Lowering.Storage
import Lane.Proofs.Protection.Program

set_option relaxedAutoImplicit false
set_option autoImplicit false

/-!
# Names and their storage

In an accepted program, every name that lowering evaluates has storage: that of the local which the
analysis found for it, made where this local was bound. The instance, the parameters and the results
are bound by the prologue of a function, in which a parameter that may be changed is bound once
more, to its own copy; all other locals are bound by the assignments that declare them.

## Main definitions

* `Lane.Lowering.opening`: the steps in which the prologue binds locals.
* `Lane.FuncBody.Comes`: the points of a function, with the scopes around them.
* `Lane.FuncBody.Creates`: the storage that a local gets where it is bound.
* `Lane.TStmt.Stands`: the scopes in which the statements of a body stand.
* `Lane.FuncBody.Agrees`: names, scopes and storage agree.

## Main results

* `Lane.FuncBody.Creates.apart`: no two locals share storage.
* `Lane.Accepted.names_have_storage`: names, scopes and storage agree.
-/

namespace Lane.Lowering

open Code
open Analysis (selfLocal)

/-! ## The prologue -/

/-- Bind a parameter. -/
def bindParam (p : Param) : Lower Operand :=
  if isByAddress p.type then bindAddress p else bindValue p

/-- The steps that bind parameters in some way. -/
def stepsOf (g : Param → Lower Operand) (as : List Param) : List (Local × Lower Unit) :=
  as.map fun p => (p.toLocal, g p >>= fun _ => pure ())

/-- The parameters that are copied because the function may change them. -/
def copied (f : MemberFunction) : List Param :=
  f.sig.params.filter fun p => !p.type.isAtomic && p.type.modifier == .var

/-- The step that binds the instance. -/
def bindSelf (f : MemberFunction) : Lower Unit := do
  let v ← newVar "self" .ptr
  setStorage f.selfId (.memory (.var v))

/-- **The steps in which the prologue binds locals**: the instance, the parameters, the results, and
then the copies of parameters that may be changed. -/
def opening (f : MemberFunction) : List (Local × Lower Unit) :=
  (selfLocal f).toList.map (fun l => (l, bindSelf f)) ++ (stepsOf bindParam f.sig.params ++
    (stepsOf bindAddress f.sig.hiddenResults ++ (stepsOf bindValue f.sig.valueResults ++
      (copied f).map fun p => (p.toLocal, ownCopy p))))

/-- Steps in order. -/
def inOrder : List (Local × Lower Unit) → Lower Unit
  | [] => pure ()
  | q :: steps => q.2 >>= fun _ => inOrder steps

section Prologue

variable {env : Env} {f : MemberFunction} {b b' c : Builder} {l : Local} {m : Lower Unit}

/-- A run of two computations, one after the other. -/
lemma runs_bind {α β : Type} {m : Lower α} {g : α → Lower β} {a : α} {r : β} (h : Runs env m b a b')
    (h' : Runs env (g a) b' r c) : Runs env (m >>= g) b r c :=
  (run_bind h).trans h'

/-- Steps of two lists are taken in order. -/
lemma inOrder_append (steps more : List (Local × Lower Unit)) :
    inOrder (steps ++ more) = inOrder steps >>= fun _ => inOrder more := by
  induction steps with
  | nil => simp [inOrder]
  | cons q steps ih => simp [inOrder, ih]

/-- Parameters that are bound one after the other, as steps. -/
lemma runs_stepsOf {g : Param → Lower Operand} : ∀ {as : List Param} {b b' : Builder}
    {os : List Operand}, Runs env (as.mapM g) b os b' → Runs env (inOrder (stepsOf g as)) b () b'
  | [], b, b', os, h => by
    have h : Runs env (pure []) b os b' := List.mapM_nil (m := Lower) (f := g) ▸ h
    obtain ⟨-, rfl⟩ := h.of_pure
    rfl
  | a :: as, b, b', os, h => by
    rw [List.mapM_cons] at h
    obtain ⟨o, b₁, ho, h⟩ := h.of_bind
    obtain ⟨os', b₂, hos, h⟩ := h.of_bind
    obtain ⟨-, rfl⟩ := h.of_pure
    exact runs_bind (runs_bind ho rfl) (runs_stepsOf hos)

/-- Copies of parameters are steps for their locals. -/
lemma runs_copies : ∀ {as : List Param} {b b' : Builder}, Runs env (as.forM ownCopy) b () b' →
    Runs env (inOrder (as.map fun p => (p.toLocal, ownCopy p))) b () b'
  | [], _, _, h => h
  | a :: as, b, b', h => by
    obtain ⟨⟨⟩, b₁, h₁, h⟩ := h.of_bind
    exact runs_bind h₁ (runs_copies h)

/-- Asking where a parameter is does nothing. -/
lemma paramPlace_spares (p : Param) : Spares env (paramPlace p) := by
  intro b a c h
  obtain ⟨_, _, hget, h⟩ := h.of_bind
  obtain ⟨rfl, rfl⟩ := Prod.mk.inj (Except.ok.inj hget)
  split at h
  · obtain ⟨-, rfl⟩ := h.of_pure
    exact .refl _
  · exact absurd h not_runs_throw

/-- Default values of results spare all locals. -/
lemma defaults_spare : ∀ as : List Param,
    Spares env (as.forM fun p => do defaultValue (← paramPlace p))
  | [], _, _, _, h => (Runs.of_pure h).2 ▸ .refl _
  | a :: as, _, _, _, h => by
    refine Spares.bind (.bind (paramPlace_spares a) fun _ => ?_)
      (fun _ => defaults_spare as) _ _ _ h
    exact spares_of_gives (Discipline.defaultValue_gives trivial)

/-- **The prologue carries out its steps**, and does nothing to locals after them. -/
lemma exists_opening {q : List Operand × List Operand} (h : Runs env (prologue f) b q c) :
    ∃ b', Runs env (inOrder (opening f)) b () b' ∧ b'.Keeps c := by
  have rest : ∀ {self : List Operand} {b : Builder}, Runs env (do
      let ins ← f.sig.params.mapM bindParam
      let hidden ← f.sig.hiddenResults.mapM bindAddress
      let outs ← f.sig.valueResults.mapM bindValue
      (copied f).forM ownCopy
      f.sig.hiddenResults.forM fun p => do defaultValue (← paramPlace p)
      return (self ++ ins ++ hidden, outs)) b q c →
      ∃ b', Runs env (inOrder (stepsOf bindParam f.sig.params ++
        (stepsOf bindAddress f.sig.hiddenResults ++ (stepsOf bindValue f.sig.valueResults ++
          (copied f).map fun p => (p.toLocal, ownCopy p))))) b () b' ∧ b'.Keeps c := by
    intro self b h
    obtain ⟨ins, b₁, h₁, h⟩ := h.of_bind
    obtain ⟨hidden, b₂, h₂, h⟩ := h.of_bind
    obtain ⟨outs, b₃, h₃, h⟩ := h.of_bind
    obtain ⟨⟨⟩, b₄, h₄, h⟩ := h.of_bind
    obtain ⟨⟨⟩, b₅, h₅, h⟩ := h.of_bind
    obtain ⟨-, rfl⟩ := h.of_pure
    refine ⟨b₄, ?_, defaults_spare _ _ _ _ h₅⟩
    simp only [inOrder_append]
    exact runs_bind (runs_stepsOf h₁) (runs_bind (runs_stepsOf h₂)
      (runs_bind (runs_stepsOf h₃) (runs_copies h₄)))
  unfold prologue at h
  unfold opening
  rw [inOrder_append]
  split at h
  · rename_i hself
    obtain ⟨v, b₁, hv, h⟩ := h.of_bind
    obtain ⟨⟨⟩, b₂, hset, h⟩ := h.of_bind
    obtain ⟨self, b₃, hp, h⟩ := h.of_bind
    obtain ⟨rfl, rfl⟩ := hp.of_pure
    obtain ⟨b', hb', hk⟩ := rest h
    refine ⟨b', runs_bind (a := ()) ?_ hb', hk⟩
    simp only [selfLocal, if_pos hself]
    exact runs_bind (runs_bind hv hset) rfl
  · rename_i hself
    obtain ⟨self, b₃, hp, h⟩ := h.of_bind
    obtain ⟨rfl, rfl⟩ := hp.of_pure
    obtain ⟨b', hb', hk⟩ := rest h
    refine ⟨b', runs_bind (a := ()) ?_ hb', hk⟩
    simp only [selfLocal, if_neg hself]
    rfl

/-! ### The storage of root locals -/

/-- What keeps the locals before changes nothing. -/
lemma Gains.of_keeps {i : Nat} {s : Storage} (hk : b.Keeps b') (h : Gains i s b' c) :
    Gains i s b c where
  precedes := hk.toPrecedes.trans h.precedes
  locals_eq := by rw [h.locals_eq, hk.locals_eq]
  is_new := h.is_new.imp (fun ⟨v, hv, hlt⟩ => ⟨v, hv, Nat.lt_of_le_of_lt hk.vars_le hlt⟩)
    fun ⟨x, hx, hlt⟩ => ⟨x, hx, Nat.lt_of_le_of_lt hk.slots_le hlt⟩
  is_old := h.is_old

/-- A local that is bound to a variable gains it. -/
lemma exists_gains_of_bindVar {o : Operand} {name : String} {t : VType} {i : Nat}
    {g : Var → Storage} (hg : ∀ v, (g v).cell = .var v) (h : Runs env (do
      let v ← newVar name t
      setStorage i (g v)
      return Operand.var v) b o c) : ∃ s, Gains i s b c := by
  obtain ⟨v, b₁, hv, h⟩ := h.of_bind
  obtain ⟨⟨⟩, b₂, hset, h⟩ := h.of_bind
  obtain ⟨-, rfl⟩ := h.of_pure
  exact ⟨g v, .of_newVar hv hg hset⟩

/-- A parameter passed by address gains storage. -/
lemma bindAddress_gains {a : Param} {o : Operand} (h : Runs env (bindAddress a) b o c) :
    ∃ s, Gains a.localId s b c :=
  exists_gains_of_bindVar (g := fun v => .memory (.var v)) (fun _ => rfl) h

/-- A parameter passed by value gains storage. -/
lemma bindValue_gains {a : Param} {o : Operand} (h : Runs env (bindValue a) b o c) :
    ∃ s, Gains a.localId s b c :=
  exists_gains_of_bindVar (g := .var) (fun _ => rfl) h

/-- A parameter gains storage. -/
lemma bindParam_gains {a : Param} {o : Operand} (h : Runs env (bindParam a) b o c) :
    ∃ s, Gains a.localId s b c := by
  unfold bindParam at h
  split at h
  · exact bindAddress_gains h
  · exact bindValue_gains h

/-- A parameter that is copied gains storage of its own. -/
lemma ownCopy_gains {a : Param} (h : Runs env (ownCopy a) b () c) :
    ∃ s, Gains a.localId s b c := by
  obtain ⟨p, b₁, hp, h⟩ := h.of_bind
  obtain ⟨o, b₂, ho, h⟩ := h.of_bind
  obtain ⟨⟨⟩, b₃, hcopy, hset⟩ := h.of_bind
  have hcopy : b₂.Keeps b₃ := spares_of_gives
    (ValueDiscipline.copyValue_gives (D := sparing env) trivial trivial) _ _ _ hcopy
  exact ⟨_, (Gains.of_slotFor ho hcopy hset).of_keeps (paramPlace_spares a _ _ _ hp)⟩

/-- A step for a parameter gains storage for it. -/
lemma stepsOf_gain {g : Param → Lower Operand} {as : List Param} {q : Local × Lower Unit}
    (hg : ∀ a b o c, Runs env (g a) b o c → ∃ s, Gains a.localId s b c) (hq : q ∈ stepsOf g as)
    (h : Runs env q.2 b () c) : ∃ s, Gains q.1.id s b c := by
  obtain ⟨a, -, rfl⟩ := List.mem_map.1 hq
  obtain ⟨o, b₁, ho, h⟩ := h.of_bind
  obtain ⟨-, rfl⟩ := h.of_pure
  exact hg a b o _ ho

/-- **Every step of the prologue binds its local** to new storage. -/
lemma opening_gains {q : Local × Lower Unit} (hq : q ∈ opening f) (h : Runs env q.2 b () c) :
    ∃ s, Gains q.1.id s b c := by
  simp only [opening, List.mem_append] at hq
  obtain hq | hq | hq | hq | hq := hq
  · obtain ⟨l, hl, rfl⟩ := List.mem_map.1 hq
    have hid : l.id = f.selfId := by
      unfold selfLocal at hl
      split at hl
      · rw [List.mem_singleton.1 hl]
      · cases hl
    obtain ⟨v, b₁, hv, hset⟩ := h.of_bind
    exact ⟨_, hid ▸ Gains.of_newVar (g := fun v => .memory (.var v)) hv (fun _ => rfl) hset⟩
  · exact stepsOf_gain (fun _ _ _ _ => bindParam_gains) hq h
  · exact stepsOf_gain (fun _ _ _ _ => bindAddress_gains) hq h
  · exact stepsOf_gain (fun _ _ _ _ => bindValue_gains) hq h
  · obtain ⟨a, -, rfl⟩ := List.mem_map.1 hq
    exact ownCopy_gains h

/-- The prologue binds the root locals, and no others. -/
lemma mem_opening_iff : l ∈ (opening f).map Prod.fst ↔ l ∈ f.rootLocals := by
  have hsteps : ∀ (g : Param → Lower Operand) (as : List Param),
      (stepsOf g as).map Prod.fst = as.map Param.toLocal := fun g as => by
    rw [stepsOf, List.map_map]
    rfl
  have hself : ((selfLocal f).toList.map fun l => (l, bindSelf f)).map Prod.fst =
      (selfLocal f).toList := by
    rw [List.map_map]
    exact List.map_id _
  have hcopy : ((copied f).map fun p => (p.toLocal, ownCopy p)).map Prod.fst =
      (copied f).map Param.toLocal := by
    rw [List.map_map]
    rfl
  rw [← (perm_boundLocals f).mem_iff, opening, boundLocals]
  simp only [List.map_append, hsteps, hself, hcopy, List.mem_append]
  constructor
  · rintro (h | h | h | h | h)
    · exact .inl (.inl (.inl h))
    · exact .inl (.inl (.inr h))
    · exact .inl (.inr h)
    · exact .inr h
    · exact .inl (.inl (.inr (List.map_subset _ (List.filter_subset_self _) h)))
  · rintro (((h | h) | h) | h)
    · exact .inl h
    · exact .inr (.inl h)
    · exact .inr (.inr (.inl h))
    · exact .inr (.inr (.inr (.inl h)))

/-- Steps that bind their locals bind nothing else. -/
lemma inOrder_touches : ∀ {steps : List (Local × Lower Unit)},
    (∀ q ∈ steps, ∀ b c, Runs env q.2 b () c → ∃ s, Gains q.1.id s b c) →
    Touches env (steps.map Prod.fst) (inOrder steps)
  | [], _ => Touches.pure ()
  | q :: steps, h => by
    obtain ⟨hq, hsteps⟩ := List.forall_mem_cons.1 h
    refine Touches.bind (fun b r c hr => ?_) fun _ =>
      (inOrder_touches hsteps).mono (List.subset_cons_self _ _)
    obtain ⟨s, hs⟩ := hq b c hr
    refine ⟨hs.precedes, fun i hi => ?_⟩
    have hne : i ≠ q.1.id := fun he => hi (by simp [he])
    rw [hs.locals_eq, List.lookup_cons, beq_false_of_ne hne]

/-- The last step for a local. -/
lemma exists_last {steps : List (Local × Lower Unit)} (h : l ∈ steps.map Prod.fst) :
    ∃ pre m post, steps = pre ++ (l, m) :: post ∧ ∀ q ∈ post, q.1 ≠ l := by
  induction steps with
  | nil => cases h
  | cons q steps ih =>
    by_cases hl : l ∈ steps.map Prod.fst
    · obtain ⟨pre, m, post, rfl, hpost⟩ := ih hl
      exact ⟨q :: pre, m, post, rfl, hpost⟩
    · obtain rfl | h := List.mem_cons.1 h
      · exact ⟨[], q.2, steps, rfl, fun p hp he => hl (he ▸ List.mem_map_of_mem hp)⟩
      · exact absurd h hl

end Prologue

end Lane.Lowering

namespace Lane

open Code Lowering
open Analysis (selfLocal)

/-! ## The storage of a function -/

/-- Expressions that are looked up. -/
def TExpr.IsName : TExpr → Prop
  | .ident .. | .self .. => True
  | _ => False

namespace FuncBody

/-- The scopes in which the body of a function stands. -/
def rootScopes (fb : FuncBody) : List Scope := [⟨fb.fn.paramLocals, true⟩]

/-- **The points of a function**: lowering it comes to the expression `y`, around which are the
scopes `D`, at `c`. -/
def Comes (env : Env) (fb : FuncBody) (D : List Scope) (y : TExpr) (c : Builder) : Prop :=
  ∃ q b x c₀, Runs env (prologue fb.fn) {} q b ∧
    Visits env none fb.body fb.rootScopes b (.evaluates x) D c₀ ∧ Evaluates env x c₀ y c

/-- **The storage that a local gets where it is bound**: by the last step of the prologue for it, or
where an assignment declares it. -/
inductive Creates (env : Env) (fb : FuncBody) (l : Local) (s : Storage) : Prop
  | byPrologue {pre post : List (Local × Lower Unit)} {m : Lower Unit} {b c : Builder}
    (hsteps : opening fb.fn = pre ++ (l, m) :: post) (hlast : ∀ q ∈ post, q.1 ≠ l)
    (hpre : Runs env (inOrder pre) {} () b) (hm : Runs env m b () c)
    (hs : c.locals = (l.id, s) :: b.locals)
  | byAssign {q : List Operand × List Operand} {D : List Scope} {b c d : Builder}
    (hq : Runs env (prologue fb.fn) {} q b)
    (hc : Visits env none fb.body fb.rootScopes b (.binds l) D c)
    (hm : Runs env (bindLocal l) c s d) (hs : d.locals = (l.id, s) :: c.locals)

section Storage

variable {env : Env} {fb : FuncBody} {l l' : Local} {s s' : Storage}
  {q : List Operand × List Operand} {b c : Builder} {D : List Scope}

/-- The locals of a body whose names are bound, with the values that its assignments need. -/
structure Storable (fb : FuncBody) : Prop where
  names : fb.Scoped
  fed : TStmt.EachAll (fun _ _ ps _ => AreFed ps) (fun _ => True) fb.body

/-- What a body starts with is none of what it declares. -/
lemma Storable.root_ne (h : fb.Storable) (hl : l ∈ fb.fn.rootLocals)
    (hl' : l' ∈ TStmt.localsAll fb.body) : l.id ≠ l'.id := by
  have hn := h.names.ids_nodup
  rw [List.map_append, List.nodup_append'] at hn
  exact fun he => hn.2.2 (List.mem_map_of_mem hl) (he ▸ List.mem_map_of_mem hl')

/-- Root locals with the same number are the same. -/
lemma Storable.root_inj (h : fb.Storable) (hl : l ∈ fb.fn.rootLocals) (hl' : l' ∈ fb.fn.rootLocals)
    (he : l.id = l'.id) : l = l' := by
  have hn := h.names.ids_nodup
  rw [List.map_append, List.nodup_append'] at hn
  exact List.inj_on_of_nodup_map hn.1 hl hl' he

/-- Where the body begins, only root locals have storage. -/
lemma Storable.startable (h : fb.Storable) (hq : Runs env (prologue fb.fn) {} q b) :
    Startable fb.body b where
  nodup := by
    have hn := h.names.ids_nodup
    rw [List.map_append, List.nodup_append'] at hn
    exact hn.2.1
  fresh k hk := by
    obtain ⟨b₁, hopen, hkeep⟩ := exists_opening hq
    rw [hkeep.locals_eq]
    refine lookup_eq_none_of_touched (b := {})
      (inOrder_touches (fun _ hp _ _ => opening_gains hp) _ _ _ hopen).2 rfl fun j hj => ?_
    exact (h.root_ne (mem_opening_iff.1 hj) hk).symm
  fed := h.fed

/-- **A root local has its storage** where the body begins. -/
lemma Storable.exists_root (h : fb.Storable) (hq : Runs env (prologue fb.fn) {} q b)
    (hl : l ∈ fb.fn.rootLocals) : ∃ s, fb.Creates env l s ∧ b.locals.lookup l.id = some s := by
  obtain ⟨b₁, hopen, hkeep⟩ := exists_opening hq
  obtain ⟨pre, m, post, hsteps, hlast⟩ := exists_last (mem_opening_iff.2 hl)
  have hgain : ∀ p ∈ opening fb.fn, ∀ b c, Runs env p.2 b () c → ∃ s, Gains p.1.id s b c :=
    fun _ hp _ _ => opening_gains hp
  rw [hsteps] at hgain hopen
  rw [inOrder_append] at hopen
  obtain ⟨⟨⟩, b₂, hpre, hopen⟩ := hopen.of_bind
  obtain ⟨⟨⟩, b₃, hm, hpost⟩ := hopen.of_bind
  obtain ⟨s, hs⟩ := hgain (l, m) (by simp) _ _ hm
  refine ⟨s, .byPrologue hsteps hlast hpre hm hs.locals_eq, ?_⟩
  rw [hkeep.locals_eq, (inOrder_touches (fun p hp => hgain p (by simp [hp])) _ _ _ hpost).2 l.id,
    hs.locals_eq, List.lookup_cons_self]
  intro hi
  obtain ⟨k, hk, he⟩ := List.mem_map.1 hi
  obtain ⟨p, hp, rfl⟩ := List.mem_map.1 hk
  have hroot : p.1 ∈ fb.fn.rootLocals :=
    mem_opening_iff.1 (List.mem_map_of_mem (by simp [hsteps, hp]))
  exact hlast p hp (h.root_inj hroot hl he)

/-- Where and when a local gets its storage. -/
lemma Creates.gains (h : fb.Storable) (hc : fb.Creates env l s) :
    (∃ pre m post b c, opening fb.fn = pre ++ (l, m) :: post ∧ (∀ q ∈ post, q.1 ≠ l) ∧
      Runs env (inOrder pre) {} () b ∧ Runs env m b () c ∧ Gains l.id s b c) ∨
    ∃ q D b c d, Runs env (prologue fb.fn) {} q b ∧
      Visits env none fb.body fb.rootScopes b (.binds l) D c ∧ Runs env (bindLocal l) c s d ∧
      Gains l.id s c d := by
  cases hc with
  | @byPrologue pre post m b c hsteps hlast hpre hm hs =>
    have hmem : (l, m) ∈ opening fb.fn := by simp [hsteps]
    obtain ⟨t, ht⟩ := opening_gains hmem hm
    obtain ⟨he, -⟩ := List.cons.inj (hs.symm.trans ht.locals_eq)
    obtain rfl := (Prod.mk.inj he).2
    exact .inl ⟨pre, m, post, b, c, hsteps, hlast, hpre, hm, ht⟩
  | @byAssign q D b c d hq hr hm hs =>
    exact .inr ⟨q, D, b, c, d, hq, hr, hm,
      gains_of_bindLocal hm (hr.lookup_eq_none rfl (h.startable hq))⟩

/-- What was bound by a step is old after the steps that follow. -/
lemma isOld_of_steps {pre mid post : List (Local × Lower Unit)} {m : Lower Unit} {b b' c : Builder}
    (hsteps : opening fb.fn = pre ++ (l, m) :: (mid ++ post))
    (hpre : Runs env (inOrder pre) {} () b) (hm : Runs env m b () c) (hs : Gains l.id s b c)
    (h : Runs env (inOrder (pre ++ (l, m) :: mid)) {} () b') : s.IsOld b' := by
  rw [inOrder_append] at h
  obtain ⟨⟨⟩, b₁, hpre', h⟩ := h.of_bind
  obtain ⟨-, rfl⟩ := hpre'.unique hpre
  obtain ⟨⟨⟩, b₂, hm', hmid⟩ := h.of_bind
  obtain ⟨-, rfl⟩ := hm'.unique hm
  refine hs.is_old.mono (inOrder_touches (fun p hp _ _ => opening_gains (f := fb.fn) ?_) _ _ _
    hmid).1
  simp [hsteps, hp]

/-- **No two locals share storage**, and every local has storage in one place.

**Proof sketch.** The steps of the prologue come one after the other and before the body, in which
points follow one another. What is bound earlier is in variables and slots that are there already
when the later storage is made. -/
theorem Creates.apart (h : fb.Storable) (hc : fb.Creates env l s) (hc' : fb.Creates env l' s') :
    l = l' ∧ s = s' ∨ s.cell ≠ s'.cell := by
  have before_body : ∀ {k t pre m post b c q B}, opening fb.fn = pre ++ (k, m) :: post →
      Runs env (inOrder pre) {} () b → Runs env m b () c → Gains k.id t b c →
      Runs env (prologue fb.fn) {} q B → t.IsOld B := by
    intro k t pre m post b c q B hsteps hpre hm hs hq
    obtain ⟨b₁, hopen, hkeep⟩ := exists_opening hq
    have hall : opening fb.fn = pre ++ (k, m) :: (post ++ []) := by rw [hsteps, List.append_nil]
    exact (isOld_of_steps hall hpre hm hs (hsteps ▸ hopen)).mono hkeep.toPrecedes
  obtain ⟨pre, m, post, b, c, hsteps, hlast, hpre, hm, hs⟩ | ⟨q, D, b, c, d, hq, hr, hm, hs⟩ :=
    hc.gains h <;>
  obtain ⟨pre', m', post', b', c', hsteps', hlast', hpre', hm', hs'⟩ |
    ⟨q', D', b', c', d', hq', hr', hm', hs'⟩ := hc'.gains h
  · obtain ⟨as, hpre_eq, hpost⟩ | ⟨as, hpre_eq, hpost⟩ :=
      List.append_eq_append_iff.1 (hsteps.symm.trans hsteps')
    · cases as with
      | nil =>
        obtain ⟨he, rfl⟩ := List.cons.inj hpost
        obtain ⟨rfl, rfl⟩ := Prod.mk.inj he
        obtain rfl : pre' = pre := by simpa using hpre_eq
        obtain ⟨-, rfl⟩ := hpre.unique hpre'
        obtain ⟨-, rfl⟩ := hm.unique hm'
        obtain ⟨he, -⟩ := List.cons.inj (hs.locals_eq.symm.trans hs'.locals_eq)
        exact .inl ⟨rfl, (Prod.mk.inj he).2⟩
      | cons p as =>
        obtain ⟨rfl, rfl⟩ := List.cons.inj hpost
        subst hpre_eq
        exact .inr ((isOld_of_steps hsteps hpre hm hs hpre').cell_ne hs'.is_new)
    · cases as with
      | nil =>
        obtain ⟨he, rfl⟩ := List.cons.inj hpost
        obtain ⟨rfl, rfl⟩ := Prod.mk.inj he
        obtain rfl : pre = pre' := by simpa using hpre_eq
        obtain ⟨-, rfl⟩ := hpre.unique hpre'
        obtain ⟨-, rfl⟩ := hm.unique hm'
        obtain ⟨he, -⟩ := List.cons.inj (hs.locals_eq.symm.trans hs'.locals_eq)
        exact .inl ⟨rfl, (Prod.mk.inj he).2⟩
      | cons p as =>
        obtain ⟨rfl, rfl⟩ := List.cons.inj hpost
        subst hpre_eq
        exact .inr ((isOld_of_steps hsteps' hpre' hm' hs' hpre).cell_ne hs.is_new).symm
  · exact .inr (((before_body hsteps hpre hm hs hq').mono hr'.touches.1).cell_ne hs'.is_new)
  · exact .inr (((before_body hsteps' hpre' hm' hs' hq).mono hr.touches.1).cell_ne hs.is_new).symm
  · obtain ⟨-, rfl⟩ := hq.unique hq'
    obtain ⟨rfl, rfl⟩ | ⟨-, hbefore | hbefore⟩ := hr.apart (h.startable hq) rfl rfl hr'
    · exact .inl ⟨rfl, (hm.unique hm').1⟩
    · exact .inr ((hs.is_old.mono (hbefore _ _ hm)).cell_ne hs'.is_new)
    · exact .inr ((hs'.is_old.mono (hbefore _ _ hm')).cell_ne hs.is_new).symm

/-- **Every name has storage** at the points of a function: the one that its local got where it was
bound. -/
theorem Storable.exists_storage (h : fb.Storable) {y : TExpr} (hc : fb.Comes env D y c)
    (hl : y.binding? = some l) (hy : y.BoundIn D (selfLocal fb.fn)) :
    ∃ s, fb.Creates env l s ∧ c.locals.lookup l.id = some s := by
  obtain ⟨q, b, x, c₀, hq, hr, hx⟩ := hc
  have hst := h.startable hq
  rw [hx.keeps.locals_eq]
  have root : l ∈ fb.fn.rootLocals →
      ∃ s, fb.Creates env l s ∧ c₀.locals.lookup l.id = some s := by
    intro hroot
    obtain ⟨s, hs, hlook⟩ := h.exists_root hq hroot
    refine ⟨s, hs, (hr.touches.2 l.id fun hi => ?_).trans hlook⟩
    obtain ⟨k, hk, he⟩ := List.mem_map.1 hi
    exact h.root_ne hroot hk he.symm
  obtain hmem | hself := hy.mem_of_binding? hl
  · obtain hmem | ⟨E, c₁, s, d, hpoint, hbind, hlook⟩ := hr.exists_storage rfl hst l hmem
    · have hparam : l ∈ fb.fn.paramLocals := by simpa [rootScopes] using hmem
      exact root (List.mem_append_left _ hparam)
    · have hgain := gains_of_bindLocal hbind (hpoint.lookup_eq_none rfl hst)
      exact ⟨s, .byAssign hq hpoint hbind hgain.locals_eq, hlook⟩
  · exact root (List.mem_append_right _ (by simp [hself]))

end Storage

end FuncBody

/-! ## Statements in scopes -/

namespace TStmt

/-- The blocks of a statement. -/
def blocks : TStmt → List (List TStmt)
  | .ifThen _ _ _ b | .whileLoop _ _ _ b | .repeatUntil _ _ b _ | .block _ _ b => [b]
  | .ifElse _ _ _ b _ o => [b, o]
  | .assign .. | .ret _ | .brk _ | .cont _ => []

/-- **Where statements stand**: in statements that stand in the scopes `S`, the statement `t` stands
in the scopes `D`. -/
inductive Stands (D : List Scope) (t : TStmt) : List Scope → List TStmt → Prop
  | here {ss : List TStmt} : Stands D t D (t :: ss)
  | inside {S : List Scope} {s : TStmt} {ss body : List TStmt} (hb : body ∈ s.blocks)
    (h : Stands D t ({} :: S) body) : Stands D t S (s :: ss)
  | later {S : List Scope} {s : TStmt} {ss : List TStmt}
      (h : Stands D t (Scope.extend s.declares S) ss) :
    Stands D t S (s :: ss)

section Stands

variable {D S : List Scope} {s t : TStmt} {ss body : List TStmt} {x : TExpr} {l : Local}

/-- The locals of a block are locals of its statement. -/
lemma locals_sublist_of_mem_blocks (h : body ∈ s.blocks) : (localsAll body).Sublist s.locals := by
  cases s with
  | assign | ret | brk | cont => cases h
  | ifElse =>
    obtain rfl | h := List.mem_cons.1 h
    · exact List.sublist_append_left _ _
    · obtain rfl := List.mem_singleton.1 h
      exact List.sublist_append_right _ _
  | _ =>
    obtain rfl := List.mem_singleton.1 h
    exact .refl _

/-- What a block sees its statement sees. -/
lemma sees_of_mem_blocks (h : body ∈ s.blocks) (hx : SeesAll ({} :: S) body D x) :
    s.Sees S D x := by
  cases s with
  | assign | ret | brk | cont => cases h
  | ifElse =>
    obtain rfl | h := List.mem_cons.1 h
    · exact .inr (.inl hx)
    · obtain rfl := List.mem_singleton.1 h
      exact .inr (.inr hx)
  | repeatUntil =>
    obtain rfl := List.mem_singleton.1 h
    exact .inl hx
  | block =>
    obtain rfl := List.mem_singleton.1 h
    exact hx
  | _ =>
    obtain rfl := List.mem_singleton.1 h
    exact .inr hx

/-- The expressions of a statement are seen where it stands. -/
lemma Stands.seesAll {E : List Scope} (h : Stands D t S ss) (hx : t.Sees D E x) :
    SeesAll S ss E x := by
  induction h with
  | here => exact .inl hx
  | inside hb _ ih => exact .inl (sees_of_mem_blocks hb ih)
  | later _ ih => exact .inr ih

/-- **Locals are new where they are declared**: their numbers are not those of locals in the scopes
around the statement. -/
lemma Stands.id_ne (h : Stands D t S ss) (hn : ((localsAll ss).map Local.id).Nodup)
    (hS : ∀ k ∈ S.flatMap Scope.locals, ∀ l ∈ localsAll ss, k.id ≠ l.id) :
    ∀ k ∈ D.flatMap Scope.locals, ∀ l ∈ t.locals, k.id ≠ l.id := by
  induction h with
  | here => exact fun k hk l hl => hS k hk l (List.mem_append_left _ hl)
  | @inside S s ss body hb _ ih =>
    have hsub : (localsAll body).Sublist (localsAll (s :: ss)) :=
      (locals_sublist_of_mem_blocks hb).trans (List.sublist_append_left _ _)
    exact ih (hn.sublist (hsub.map _)) fun k hk l hl => hS k hk l (hsub.subset hl)
  | @later S s ss _ ih =>
    refine ih (hn.sublist ((List.sublist_append_right _ _).map _)) fun k hk l hl => ?_
    obtain hk | hk := Scope.mem_extend hk
    · exact hS k hk l (List.mem_append_right _ hl)
    · rw [localsAll, List.map_append, List.nodup_append'] at hn
      exact fun he => hn.2.2 (List.mem_map_of_mem (s.declares_sublist.subset hk))
        (he ▸ List.mem_map_of_mem hl)

/-- The locals of a statement are locals of those around it. -/
lemma Stands.locals_subset (h : Stands D t S ss) : t.locals ⊆ localsAll ss := by
  induction h with
  | here => exact List.subset_append_left _ _
  | inside hb _ ih =>
    exact List.Subset.trans ih (List.Subset.trans (locals_sublist_of_mem_blocks hb).subset
      (List.subset_append_left _ _))
  | later _ ih => exact List.Subset.trans ih (List.subset_append_right _ _)

mutual

/-- What is declared in a statement is bound in it. -/
theorem exists_binds : ∀ {s : TStmt} {S : List Scope}, l ∈ s.locals → ∃ D, Binds S s D l
  | .assign .., _, h => ⟨_, rfl, h⟩
  | .ifThen _ _ _ b, _, h | .whileLoop _ _ _ b, _, h | .repeatUntil _ _ b _, _, h
  | .block _ _ b, _, h => exists_bindsAll h
  | .ifElse _ _ _ b _ o, _, h => by
    obtain h | h := List.mem_append.1 h
    · obtain ⟨D, hD⟩ := exists_bindsAll h
      exact ⟨D, .inl hD⟩
    · obtain ⟨D, hD⟩ := exists_bindsAll h
      exact ⟨D, .inr hD⟩
  | .ret _, _, h | .brk _, _, h | .cont _, _, h => by cases h

/-- What is declared in statements is bound in them. -/
theorem exists_bindsAll : ∀ {ss : List TStmt} {S : List Scope}, l ∈ localsAll ss →
    ∃ D, BindsAll S ss D l
  | [], _, h => by cases h
  | s :: ss, _, h => by
    obtain h | h := List.mem_append.1 h
    · obtain ⟨D, hD⟩ := exists_binds (s := s) h
      exact ⟨D, .inl hD⟩
    · obtain ⟨D, hD⟩ := exists_bindsAll h
      exact ⟨D, .inr hD⟩

end

end Stands

end TStmt

/-- **Scopes and storage agree** for a function. -/
structure FuncBody.Agrees (env : Env) (fb : FuncBody) : Prop where
  /-- At every point at which a name is evaluated, it is bound to the innermost local of its name,
  and this local has the storage that was made where it was bound. -/
  stored : ∀ D y c, fb.Comes env D y c → y.IsName → ∃ l s, y.binding? = some l ∧
    y.BoundIn D (selfLocal fb.fn) ∧ c.locals.lookup l.id = some s ∧ fb.Creates env l s
  /-- Different locals have different storage, and a local has only one. -/
  apart : ∀ l l' s s', fb.Creates env l s → fb.Creates env l' s' → l = l' ∧ s = s' ∨
    s.cell ≠ s'.cell
  /-- No expression of an assignment is bound to a local that the assignment declares. -/
  initializers : ∀ D gs vs ps ds pos,
    TStmt.Stands D (.assign pos gs vs ps ds) fb.rootScopes fb.body →
    ∀ x ∈ TStmt.operands gs vs ps ds, x.Follows D (selfLocal fb.fn) ∧
      ∀ y l, x.Has y → y.binding? = some l → l ∉ declaredBy ps
  /-- The condition of a `repeat` sees the locals of its body. -/
  conditions : ∀ D pos scope body x, TStmt.Stands D (.repeatUntil pos scope body x) fb.rootScopes
    fb.body → x.Follows (Scope.extend (TStmt.declaresAll body) ({} :: D)) (selfLocal fb.fn)
  /-- No local is called like a parameter or result. -/
  params : ∀ l ∈ TStmt.localsAll fb.body, ∀ a ∈ fb.fn.paramLocals, a.name ≠ l.name

namespace Accepted

variable {file : String} {text : List Rune} {e : Elaborated}

/-- Bodies of accepted programs have storage for all locals. -/
lemma storable (h : Accepted file text e) {fb : FuncBody} (hb : fb ∈ e.bodies) : fb.Storable where
  names := by
    obtain ⟨tree, ds, -, rfl, hok⟩ := h
    exact Elaborated.scoped_of_isOk tree ds hok fb hb
  fed := by
    have hp := h.typed.program_wf
    refine (TStmt.EachAll.of_typed (B := fun _ _ ps _ => AreFed ps) (fun _ ht _ => ?_)
      ((h.typed.bodies_declared fb hb).rootLocals_valid hp) (h.typed.bodies_typed fb hb).typed
      (h.checkedAll hb)).combine (fun hfed _ => hfed) (fun _ _ => trivial) (h.checkedAll hb)
    intro q hq hk
    cases ht.pairs_typed q hq with
    | initializedByCaller => simp
    | _ => cases hk

/-- **Names, scopes and storage agree** in accepted programs.

**Proof sketch.** The scopes that the analysis kept and the table of lowering are carried along
together: a point at which an expression is evaluated sees the scopes in which the analysis bound
its names, and all locals in these scopes have storage. -/
theorem names_have_storage (h : Accepted file text e) {fb : FuncBody} (hb : fb ∈ e.bodies)
    (env : Env) : fb.Agrees env := by
  have hst := h.storable hb
  have hbound := hst.names.all_bound
  have follows : ∀ {D x}, TStmt.SeesAll fb.rootScopes fb.body D x → x.BoundIn D (selfLocal fb.fn) :=
    fun hx => hbound.bound _ _ hx
  refine ⟨fun D y c hc hy => ?_, fun _ _ _ _ hc hc' => hc.apart hst hc',
    fun D gs vs ps ds pos hs x hx => ?_, fun D pos scope body x hs y hy => ?_, fun l hl a ha => ?_⟩
  · obtain ⟨q, b, x, c₀, hq, hr, hx⟩ := id hc
    have hboundy := follows (hr.sees rfl hx.has)
    obtain ⟨l, hl⟩ : ∃ l, y.binding? = some l := by
      cases y with
      | ident | self => exact Option.isSome_iff_exists.1 hboundy.1
      | _ => exact hy.elim
    obtain ⟨s, hs, hlook⟩ := hst.exists_storage hc hl hboundy
    exact ⟨l, s, hl, hboundy, hlook, hs⟩
  · have hxs : x.Follows D (selfLocal fb.fn) := fun y hy => follows (hs.seesAll ⟨rfl, x, hx, hy⟩)
    refine ⟨hxs, fun y l hy hl hdecl => ?_⟩
    have hlocal := hs.locals_subset hdecl
    have hn := (List.nodup_append'.1 (List.map_append ▸ hst.names.ids_nodup)).2.1
    obtain hmem | hself := (hxs y hy).mem_of_binding? hl
    · refine hs.id_ne hn (fun k hk l hl => hst.root_ne (List.mem_append_left _ ?_) hl)
        l hmem l hdecl rfl
      have hparam : k ∈ fb.fn.paramLocals := by simpa [FuncBody.rootScopes] using hk
      exact hparam
    · exact hst.root_ne (List.mem_append_right _ (by simp [hself])) hlocal rfl
  · exact follows (hs.seesAll (.inr ⟨rfl, hy⟩))
  · obtain ⟨D, hD⟩ := TStmt.exists_bindsAll (S := fb.rootScopes) hl
    exact (hbound.named D l hD).2 a ha

/-- A function whose loop has a local that hides another one and is seen by the condition. -/
def repeatsNames : String :=
  "class V { } class C { routine f(p: var V, q: ref int) { var a: int = q;
    repeat { var b: int = a; var a: int = b; q = a; } until a == q; } }"

/-- A function with a parameter that is copied, a local that hides another, and a condition that
sees a local of a body: in any environment, its names have storage. -/
theorem names_have_storage_repeat : ∃ e,
    accept? "" (Rune.ascii repeatsNames) = some e ∧ ∃ b ∈ e.bodies, ∀ env, b.Agrees env := by
  have hrun : (accept? "" (Rune.ascii repeatsNames)).any fun e => !e.bodies.isEmpty := by
    rw [repeatsNames, Rune.ascii_ofList]
    decide +kernel
  obtain ⟨e, he, hne⟩ := (Option.any_eq_true ..).1 hrun
  obtain ⟨b, hb⟩ := List.exists_mem_of_ne_nil e.bodies (by simpa using hne)
  exact ⟨e, he, b, hb, (of_accept? he).names_have_storage hb⟩

end Accepted

end Lane
