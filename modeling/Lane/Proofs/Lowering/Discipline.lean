import Lane.Lowering.Program
import Lane.Proofs.Code.Blocks

set_option relaxedAutoImplicit false
set_option autoImplicit false

/-!
# Disciplines of lowering

A discipline is a judgement about computations that emit code, with one rule for each thing that
lowering does to the code: emit an instruction, make a register, ask for a local. What is known
about operands grows as code is emitted. Whatever follows these rules holds of the code of all
expressions, however they are put together; here it is shown of what is done with places, the
headers of containers and calls of creates and assigns.

The judgement is about two runs in similar environments, in which the same is looked up, but
declarations have other identifiers. What is known about one run only does not look at the other.

## Main definitions

* `Lane.Code.Instr.Alike`: instructions that differ in a constant or the function called at most.
* `Lane.Lowering.Env.Similar`: environments for code that is alike.
* `Lane.Lowering.Discipline`: a judgement with its rules.
* `Lane.Lowering.Discipline.Gives`: the judgement about straight-line code, which forgets nothing.

## Main results

* `Lane.Lowering.Discipline.fetch_gives`, `Lane.Lowering.Discipline.put_gives`: use of places.
* `Lane.Lowering.Discipline.defaultValue_gives`: construction at places.

## Implementation notes

The number of instances that packed code works on is read in `byteSize` only. It is not the same in
similar environments, so the code of containers, which depends on it, is left to the disciplines of
bodies.
-/

namespace Lane.Code.Instr

/-- Whether an instruction is a call. -/
def isCall : Instr → Bool
  | .call .. => true
  | _ => false

/-- **Alike instructions** are the same, or differ in the constant that is their last argument, or
call functions that correspond. -/
inductive Alike (C : FuncDecl → FuncDecl → Prop) : Instr → Instr → Prop
  | same {i : Instr} (hi : i.isCall = false) : Alike C i i
  | const {kind : AssignKind} {r n : Operand} {c c' : Const} (ht : c.type = c'.type) :
    Alike C (.assign kind r [n, .const c]) (.assign kind r [n, .const c'])
  | call {d d' : FuncDecl} {ins outs : List Operand} (hd : C d d') :
    Alike C (.call d ins outs) (.call d' ins outs)

end Lane.Code.Instr

namespace Lane.Lowering

open Code

/-- **Similar environments**: the same is looked up, but declarations have other identifiers. -/
structure Env.Similar (env env' : Env) : Prop where
  classOf_eq : ∀ c, env'.program.classOf c = env.program.classOf c
  struct?_eq : ∀ c, env'.layouts.struct? c = env.layouts.struct? c
  decls : ∀ k, Option.Rel (fun d d' => d'.isTrivial = d.isTrivial) (env.decls.lookup k)
    (env'.decls.lookup k)
  foreigns : ∀ n, Option.Rel (fun d d' => d'.isTrivial = d.isTrivial) (env.foreigns.lookup n)
    (env'.foreigns.lookup n)

/-- **Corresponding declarations** of two environments are those of the same function. -/
def Env.Corresponds (env env' : Env) (d d' : FuncDecl) : Prop :=
  (∃ k, env.decls.lookup k = some d ∧ env'.decls.lookup k = some d') ∨
    ∃ n, env.foreigns.lookup n = some d ∧ env'.foreigns.lookup n = some d'

/-- An environment is similar to itself. -/
lemma Env.Similar.refl (env : Env) : env.Similar env where
  classOf_eq _ := rfl
  struct?_eq _ := rfl
  decls k := by cases env.decls.lookup k <;> constructor; rfl
  foreigns n := by cases env.foreigns.lookup n <;> constructor; rfl

/-- Storage whose address is in no register, so that it is known in the whole function. -/
def Storage.IsSettled : Storage → Prop
  | .var _ => True
  | .memory a => ∀ r, a ≠ .reg r

/-- All locals have settled storage. -/
def Builder.AreSettled (b : Builder) : Prop := ∀ e ∈ b.locals, e.2.IsSettled

/-- The storage of a local that is known. -/
lemma isSettled_of_lookup {b : Builder} {id : Nat} {s : Storage} (hb : b.AreSettled)
    (h : b.locals.lookup id = some s) : s.IsSettled := by
  obtain ⟨l₁, l₂, hl, -⟩ := List.lookup_eq_some_iff.1 h
  exact hb (id, s) (by simp [hl])

/-- The base of settled storage is in no register. -/
lemma Storage.IsSettled.base_ne_reg {s : Storage} (hs : s.IsSettled) (t : Ty) :
    ∀ r, (Place.ofStorage t s).base ≠ .reg r := by
  cases s with
  | var => exact nofun
  | memory => exact hs

/-- Storage that is asked for is known. -/
lemma of_run_storageOf {env : Env} {b b' : Builder} {l : Local} {s : Storage}
    (h : ((storageOf l).run env).run b = .ok (s, b')) :
    b.locals.lookup l.id = some s ∧ b' = b := by
  obtain ⟨_, _, hget, h⟩ := of_run_bind h
  obtain ⟨rfl, rfl⟩ := Prod.mk.inj (Except.ok.inj hget)
  split at h
  · obtain ⟨rfl, rfl⟩ := Prod.mk.inj (Except.ok.inj h)
    exact ⟨‹_›, rfl⟩
  · cases h

/-- **Disciplines**: `Relates w m m' R` says that the computation `m` may follow where `w` is known,
and what is known after it; `m'` is what takes its place in a similar environment. -/
structure Discipline (env : Env) where
  other : Env
  similar : env.Similar other
  /-- What is known about operands. -/
  World : Type
  Le : World → World → Prop
  le_refl : ∀ w, Le w w
  le_trans : ∀ {u v w}, Le u v → Le v w → Le u w
  /-- The operands that may be read. -/
  Has : World → Operand → Prop
  has_mono : ∀ {w w' o}, Le w w' → Has w o → Has w' o
  has_of_ne_reg : ∀ {w o}, (∀ r, o ≠ .reg r) → Has w o
  /-- The judgement. -/
  Relates : ∀ {α : Type}, World → Lower α → Lower α → (World → α → Prop) → Prop
  holds_pure : ∀ {α : Type} {w} {a : α} {R}, R w a → Relates w (pure a) (pure a) R
  holds_bind : ∀ {α β : Type} {w} {m m' : Lower α} {f f' : α → Lower β} {R S}, Relates w m m' R →
    (∀ w' a, R w' a → Relates w' (f a) (f' a) S) → Relates w (m >>= f) (m' >>= f') S
  holds_throw : ∀ {α : Type} {w} {x x' : Fault} {R}, Relates w (throw x : Lower α) (throw x') R
  holds_read : ∀ {α : Type} {w} {g : Env → Lower α} {R}, Relates w (g env) (g other) R →
    Relates w (read >>= g) (read >>= g) R
  /-- The locals whose storage may be asked for. -/
  Admits : Local → Prop
  holds_storageOf : ∀ {w l}, Admits l →
    Relates w (storageOf l) (storageOf l) fun w' s =>
      Le w w' ∧ ∀ t, Has w' (Place.ofStorage t s).base
  holds_emit : ∀ {w} {i i' : Instr}, i.Alike (env.Corresponds other) i' → i.isStraight →
    (∀ o ∈ i.uses, Has w o) →
    Relates w (emit i) (emit i') fun w' _ => Le w w' ∧ ∀ r ∈ i.defines, Has w' (.reg r)
  holds_newReg : ∀ {w} (t),
    Relates w (newReg t) (newReg t) fun w' o => Le w w' ∧ ∃ r, o = .reg r
  holds_newVar : ∀ {w} (name t), Relates w (newVar name t) (newVar name t) fun w' _ => Le w w'
  holds_newSlot : ∀ {w} (name size align struct),
    Relates w (newSlot name size align struct) (newSlot name size align struct) fun w' o =>
      Le w w' ∧ ∃ s, o = .slot s

namespace Discipline

variable {env : Env}

/-- The judgement about the same computation in both environments. -/
abbrev Holds (D : Discipline env) {α : Type} (w : D.World) (m : Lower α) (R : D.World → α → Prop) :
    Prop :=
  D.Relates w m m R

/-- **Straight-line code**: the judgement, with everything that was known before. -/
def Pairs (D : Discipline env) {α : Type} (w : D.World) (m m' : Lower α) (R : D.World → α → Prop) :
    Prop :=
  D.Relates w m m' fun w' a => D.Le w w' ∧ R w' a

/-- Straight-line code of the same computation in both environments. -/
abbrev Gives (D : Discipline env) {α : Type} (w : D.World) (m : Lower α) (R : D.World → α → Prop) :
    Prop :=
  D.Pairs w m m R

variable {D : Discipline env} {α β : Type} {w : D.World} {m m' : Lower α} {f f' : α → Lower β}
  {R R' : D.World → α → Prop} {S : D.World → β → Prop}

/-! ## Computations one after the other -/

/-- Less may be said about the result. -/
lemma weaken (h : D.Relates w m m' R) (hR : ∀ w' a, R w' a → R' w' a) : D.Relates w m m' R' :=
  bind_pure m ▸ bind_pure m' ▸ D.holds_bind h fun w' a ha => D.holds_pure (hR w' a ha)

/-- A result keeps the discipline. -/
lemma Pairs.pure {a : α} (h : R w a) : D.Gives w (pure a) R := D.holds_pure ⟨D.le_refl w, h⟩

/-- Two computations keep the discipline one after the other. -/
lemma Pairs.bind (hm : D.Pairs w m m' R)
    (hf : ∀ w' a, D.Le w w' → R w' a → D.Pairs w' (f a) (f' a) S) :
    D.Pairs w (m >>= f) (m' >>= f') S :=
  D.holds_bind hm fun w' a ⟨hle, ha⟩ => weaken (hf w' a hle ha) fun _ _ =>
  And.imp_left (D.le_trans hle)

/-- Less may be said about the result of two computations. -/
lemma Pairs.weaken (hm : D.Pairs w m m' R) (h : ∀ w' a, R w' a → R' w' a) : D.Pairs w m m' R' :=
  D.weaken hm fun w' a => And.imp_right (h w' a)

/-- What fails keeps the discipline. -/
lemma Pairs.throw (x : Fault) : D.Gives w (throw x : Lower α) R := D.holds_throw

/-- A fault keeps the discipline. -/
lemma Pairs.bug (what : String) : D.Gives w (bug what : Lower α) R :=
  D.holds_read D.holds_throw

/-- The environment is read, which may differ from the other one. -/
lemma Pairs.ofRead {g : Env → Lower α} (hg : D.Pairs w (g env) (g D.other) R) :
    D.Gives w (read >>= g) R :=
  D.holds_read hg

/-- Something is looked up that is the same in both environments. -/
lemma Pairs.readSame {g : Env → Lower α} (hg : D.Gives w (g env) R) (hn : g D.other = g env) :
    D.Gives w (read >>= g) R :=
  .ofRead (by rwa [hn])

/-- What has to be there keeps the discipline. -/
lemma Pairs.need {a : Option α} (h : ∀ x, a = some x → R w x) : D.Gives w (need a) R := by
  cases a with
  | none => exact .throw _
  | some a => exact .pure (h a rfl)

/-- An instruction that is read for nothing but its effect. -/
lemma Pairs.emit {i : Instr} (hc : i.isCall = false) (hs : i.isStraight)
    (hi : ∀ o ∈ i.uses, D.Has w o) :
    D.Gives w (emit i) fun w' _ => ∀ r ∈ i.defines, D.Has w' (.reg r) :=
  D.holds_emit (.same hc) hs hi

/-- A register is made that an instruction assigns after other code. -/
lemma Pairs.defineAfter {γ : Type} {t : VType} {k : Lower γ} {P : D.World → γ → Prop}
    {i : Operand → γ → Instr} {f : Operand → γ → Lower β} (hk : ∀ w', D.Le w w' → D.Gives w' k P)
    (hi : ∀ w' r a, D.Le w w' → P w' a → (i (.reg r) a).isCall = false ∧
      (i (.reg r) a).isStraight ∧ (i (.reg r) a).defines = [r] ∧
      ∀ o ∈ (i (.reg r) a).uses, D.Has w' o)
    (hf : ∀ w' r a, D.Le w w' → P w' a → D.Has w' (.reg r) → D.Gives w' (f (.reg r) a) S)
    (hP : ∀ w' w'' a, D.Le w' w'' → P w' a → P w'' a) :
    D.Gives w (do
      let r ← newReg t
      let a ← k
      Lowering.emit (i r a)
      f r a) S := by
  refine .bind (D.holds_newReg t) fun w₁ o h₁ ho => ?_
  obtain ⟨r, rfl⟩ := ho
  refine .bind (hk w₁ h₁) fun w₂ a h₂ ha => ?_
  obtain ⟨hc, hs, hd, hr⟩ := hi w₂ r a (D.le_trans h₁ h₂) ha
  refine .bind (.emit hc hs hr) fun w₃ _ h₃ hdef => ?_
  exact hf w₃ r a (D.le_trans (D.le_trans h₁ h₂) h₃) (hP w₂ w₃ a h₃ ha) (hdef r (by simp [hd]))

/-- An instruction assigns a new register. -/
lemma Pairs.define {t : VType} {i : Operand → Instr} {f : Operand → Lower β}
    (hi : ∀ r, (i (.reg r)).isCall = false ∧ (i (.reg r)).isStraight ∧
      (i (.reg r)).defines = [r])
    (hr : ∀ r, ∀ o ∈ (i (.reg r)).uses, D.Has w o)
    (hf : ∀ w' r, D.Le w w' → D.Has w' (.reg r) → D.Gives w' (f (.reg r)) S) :
    D.Gives w (do
      let r ← newReg t
      Lowering.emit (i r)
      f r) S := by
  refine .bind (D.holds_newReg t) fun w₁ o h₁ ho => ?_
  obtain ⟨r, rfl⟩ := ho
  refine .bind (.emit (hi r).1 (hi r).2.1 fun o ho => D.has_mono h₁ (hr r o ho))
    fun w₂ _ h₂ hdef => ?_
  exact hf w₂ r (D.le_trans h₁ h₂) (hdef r (by simp [(hi r).2.2]))

/-! ## Places and containers -/

/-- Places whose base may be read. -/
def HasPlace (D : Discipline env) (w : D.World) (p : Place) : Prop := D.Has w p.base

/-- Operands in a list that may be read. -/
def HasAll (D : Discipline env) (w : D.World) (os : List Operand) : Prop := ∀ o ∈ os, D.Has w o

variable {p q : Place} {o : Operand} {os : List Operand}

/-- Variables are had in every world. -/
lemma has_var (v : Var) : D.Has w (.var v) := D.has_of_ne_reg nofun

/-- Constants are had in every world. -/
lemma has_const (c : Const) : D.Has w (.const c) := D.has_of_ne_reg nofun

/-- Slots are had in every world. -/
lemma has_slot (s : Slot) : D.Has w (.slot s) := D.has_of_ne_reg nofun

/-- No operands are had. -/
lemma hasAll_nil : D.HasAll w [] := List.forall_mem_nil _

/-- One more operand is had. -/
lemma HasAll.cons (ho : D.Has w o) (hos : D.HasAll w os) : D.HasAll w (o :: os) :=
  List.forall_mem_cons.2 ⟨ho, hos⟩

/-- Two lists of operands are had. -/
lemma HasAll.append {ps : List Operand} (ho : D.HasAll w os) (hp : D.HasAll w ps) :
    D.HasAll w (os ++ ps) :=
  List.forall_mem_append.2 ⟨ho, hp⟩

/-- What is had in a world is had later. -/
lemma HasAll.mono {w' : D.World} (h : D.HasAll w os) (hle : D.Le w w') : D.HasAll w' os :=
  fun o ho => D.has_mono hle (h o ho)

/-- The place of settled storage is had. -/
lemma hasPlace_ofStorage {s : Storage} (hs : s.IsSettled) (t : Ty) :
    D.HasPlace w (.ofStorage t s) :=
  D.has_of_ne_reg (hs.base_ne_reg t)

/-- A place that is had in a world is had later. -/
lemma HasPlace.mono {w' : D.World} (h : D.HasPlace w p) (hle : D.Le w w') : D.HasPlace w' p :=
  D.has_mono hle h

/-- A computed value. -/
lemma compute_gives {kind : AssignKind} {t : VType} (h : D.HasAll w os) :
    D.Gives w (compute kind t os) D.Has :=
  .define (fun _ => ⟨rfl, rfl, rfl⟩) (fun _ => h) fun _ _ _ hr => .pure hr

/-- The member for a variable is found under the discipline. -/
lemma memberOf_gives (v : MemberVar) : D.Gives w (memberOf v) fun _ _ => True := by
  refine .readSame ?_ (by simp only [D.similar.struct?_eq])
  split
  · exact .throw _
  · exact .need fun _ _ => trivial

/-- The size of a type is found under the discipline. -/
lemma sizeOf_gives (t : Ty) : D.Gives w (sizeOf t) fun _ _ => True := by
  unfold sizeOf
  split
  · refine .readSame ?_ (by simp only [D.similar.struct?_eq])
    split
    · exact .pure trivial
    · exact .throw _
  · exact .pure trivial
  · exact .pure trivial

/-- A new slot is a slot on both sides. -/
lemma slotFor_gives (name : String) (t : Ty) :
    D.Gives w (slotFor name t) fun _ o => ∃ s, o = .slot s := by
  refine .bind (sizeOf_gives t) fun _ _ _ _ => .readSame (D.holds_newSlot ..) ?_
  simp only [D.similar.struct?_eq]

/-- The address of a place that is had. -/
lemma address_gives (hp : D.HasPlace w p) : D.Gives w (address p) D.Has := by
  unfold address
  split
  · exact .bug _
  · split
    · exact .pure hp
    · exact .define (fun _ => ⟨rfl, rfl, rfl⟩) (fun _ => HasAll.cons hp hasAll_nil)
        fun _ _ _ hr => .pure hr

/-- A value that is loaded. -/
lemma load_gives {t : VType} {off : Option Offset} (ho : D.Has w o) : D.Gives w (do
      let r ← newReg t
      emit (.load r o off)
      return r) D.Has :=
  .define (fun _ => ⟨rfl, rfl, rfl⟩) (fun _ => HasAll.cons ho hasAll_nil) fun _ _ _ hr => .pure hr

/-- A value that is stored. -/
lemma store_gives {src : Operand} {off : Option Offset} (ho : D.Has w o) (hs : D.Has w src) :
    D.Gives w (emit (.store o off src)) fun _ _ => True :=
  .weaken (.emit rfl rfl (HasAll.cons ho (.cons hs hasAll_nil))) fun _ _ _ => trivial

/-- A value that is moved to a variable. -/
lemma move_gives (v : Var) (ho : D.Has w o) :
    D.Gives w (emit (.assign .move (.var v) [o])) fun _ _ => True :=
  .weaken (.emit rfl rfl (HasAll.cons ho hasAll_nil)) fun _ _ _ => trivial

/-- A place that is had is fetched. -/
lemma fetch_gives (hp : D.HasPlace w p) : D.Gives w (fetch p) D.Has := by
  unfold fetch
  split
  · exact .pure (has_var _)
  · split
    · exact address_gives hp
    · exact load_gives hp

/-- A place that is had is written. -/
lemma put_gives (hp : D.HasPlace w p) (ho : D.Has w o) :
    D.Gives w (put p o) fun _ _ => True := by
  unfold put
  split
  · exact move_gives _ ho
  · exact store_gives hp ho

/-- A field of a place that is had. -/
lemma loadField_gives (hp : D.HasPlace w p) (x : StructMember) :
    D.Gives w (loadField p x) D.Has :=
  load_gives hp

/-- A header is set. -/
lemma storeHeader_gives (hp : D.HasPlace w p) {data n : Operand} (hd : D.Has w data)
    (hn : D.Has w n) : D.Gives w (do
      storeField p .headerData data
      storeField p .headerLen n) fun _ _ => True :=
  .bind (store_gives hp hd) fun _ _ h _ => store_gives (hp.mono h) (D.has_mono h hn)

/-- A container is emptied under the discipline. -/
lemma emptyContainer_gives (hp : D.HasPlace w p) :
    D.Gives w (emptyContainer p) fun _ _ => True :=
  storeHeader_gives hp (has_const _) (has_const _)

/-- A number of elements is made a number of bytes. -/
lemma scaled_gives (t : Ty) {n : Operand} (hn : D.Has w n) : D.Gives w (do
      let (size, _) ← sizeOf t
      if size = 1 then return n
      compute .mul .index [n, .const (.ofInt .index size.toUInt64)]) D.Has := by
  refine .bind (sizeOf_gives t) fun _ s h _ => ?_
  dsimp only
  split
  · exact .pure (D.has_mono h hn)
  · exact compute_gives (.cons (D.has_mono h hn) (.cons (has_const _) hasAll_nil))

/-- A number of elements is rounded up and made a number of bytes, where all of the environment may
be read. -/
lemma byteSize_gives (hread : ∀ {g : Env → Lower Operand} {R : D.World → Operand → Prop},
      D.Holds w (g env) R → D.Holds w (read >>= g) R) (kind : SeqKind) (t : Ty) {n : Operand}
    (hn : D.Has w n) : D.Gives w (byteSize kind t n) D.Has := by
  refine hread ?_
  cases kind with
  | simd =>
    exact Pairs.bind (compute_gives (.cons hn (.cons (has_const _) hasAll_nil))) fun _ _ _ hsum =>
      .bind (compute_gives (.cons hsum (.cons (has_const _) hasAll_nil))) fun _ _ _ hcount =>
      scaled_gives t hcount
  | array => exact Pairs.bind (.pure hn) fun _ _ _ hcount => scaled_gives t hcount

/-! ## Creates and assigns -/

/-- Declarations that take the place of each other. -/
def Matches (D : Discipline env) (d d' : FuncDecl) : Prop :=
  env.Corresponds D.other d d' ∧ d'.isTrivial = d.isTrivial

/-- The declarations of a member function match. -/
lemma matches_decls (D : Discipline env) (k : Nat × Nat) :
    Option.Rel D.Matches (env.decls.lookup k) (D.other.decls.lookup k) := by
  have hk := D.similar.decls k
  cases h : env.decls.lookup k <;> cases h' : D.other.decls.lookup k <;> rw [h, h'] at hk <;>
    cases hk
  · exact .none
  · rename_i ht
    exact .some ⟨.inl ⟨k, h, h'⟩, ht⟩

/-- The declarations of an extern function match. -/
lemma matches_foreigns (D : Discipline env) (n : String) :
    Option.Rel D.Matches (env.foreigns.lookup n) (D.other.foreigns.lookup n) := by
  have hn := D.similar.foreigns n
  cases h : env.foreigns.lookup n <;> cases h' : D.other.foreigns.lookup n <;> rw [h, h'] at hn <;>
    cases hn
  · exact .none
  · rename_i ht
    exact .some ⟨.inr ⟨n, h, h'⟩, ht⟩

/-- Something is done with the declaration of a member function. -/
lemma declOf_gives (f : MemberFunction) {g : FuncDecl → Lower α}
    (hg : ∀ d d', D.Matches d d' → D.Pairs w (g d) (g d') R) : D.Gives w (declOf f >>= g) R := by
  unfold declOf
  simp only [bind_assoc]
  refine .ofRead ?_
  have h := D.matches_decls (f.cls.id, f.index)
  generalize env.decls.lookup (f.cls.id, f.index) = x at h
  generalize D.other.decls.lookup (f.cls.id, f.index) = y at h
  cases h with
  | some h => exact hg _ _ h
  | none => exact .bind (R := fun _ _ => False) (.bug _) fun _ _ _ h => h.elim

/-- A call that returns nothing. -/
lemma emitCall_gives {d d' : FuncDecl} (hd : D.Matches d d') (h : D.HasAll w os) :
    D.Pairs w (emit (.call d os [])) (emit (.call d' os [])) fun _ _ => True :=
  .weaken (D.holds_emit (.call hd.1) rfl h) fun _ _ _ => trivial

/-- A function is called with operands that are had. -/
lemma invoke_gives (f : MemberFunction) (ho : D.Has w o) (hos : D.HasAll w os) :
    D.Gives w (invoke f o os) fun _ _ => True := by
  refine declOf_gives f fun d d' hd => ?_
  rw [hd.2]
  split
  · exact emitCall_gives hd (HasAll.cons ho hos)
  · exact .pure trivial

/-- The addresses of places that are had. -/
lemma addresses_gives : ∀ {w : D.World} {ps : List Place}, (∀ p ∈ ps, D.HasPlace w p) →
    D.Gives w (addresses ps) D.HasAll
  | _, [], _ => .pure hasAll_nil
  | _, p :: ps, h => by
    obtain ⟨hp, hps⟩ := List.forall_mem_cons.1 h
    exact .bind (address_gives hp) fun _ _ h₁ ha =>
      .bind (addresses_gives fun q hq => (hps q hq).mono h₁) fun _ _ h₂ has =>
      .pure (.cons (D.has_mono h₂ ha) has)

/-- A function is called on places that are had. -/
lemma invokeAt_gives (f : MemberFunction) {ps : List Place} (hp : D.HasPlace w p)
    (hps : ∀ q ∈ ps, D.HasPlace w q) : D.Gives w (invokeAt f p ps) fun _ _ => True := by
  refine declOf_gives f fun d d' hd => ?_
  rw [hd.2]
  split
  · exact .bind (addresses_gives hps) fun _ _ h₁ has => .bind (address_gives (hp.mono h₁))
      fun _ _ h₂ ha => emitCall_gives hd (.cons ha (has.mono h₂))
  · exact .pure trivial

/-- The selected create or assign, if there is one, is called. -/
lemma selectAt_gives (c : ClassRef) (kind : FuncKind) (ts : List Ty) {ps : List Place}
    (hp : D.HasPlace w p) (hps : ∀ q ∈ ps, D.HasPlace w q) : D.Gives w (do
      match ← select c kind ts with
      | some f => invokeAt f p ps
      | none => return) fun _ _ => True := by
  have hselect : D.Gives w (select c kind ts) fun _ _ => True :=
    .readSame (.pure trivial) (by simp only [D.similar.classOf_eq])
  refine .bind hselect fun _ o h _ => ?_
  split
  · exact invokeAt_gives _ (hp.mono h) fun q hq => (hps q hq).mono h
  · exact .pure trivial

/-- A place that is had gets a default value. -/
lemma defaultValue_gives (hp : D.HasPlace w p) :
    D.Gives w (defaultValue p) fun _ _ => True := by
  unfold defaultValue
  split
  · exact emptyContainer_gives hp
  · exact selectAt_gives _ _ _ hp (by simp)
  · exact put_gives hp (has_const _)

end Discipline

end Lane.Lowering
