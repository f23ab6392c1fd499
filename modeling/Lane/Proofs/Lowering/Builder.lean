import Lane.Proofs.Lowering.Emission
import Lane.Proofs.Lowering.Layout
import Lane.Proofs.Typing.Select

set_option relaxedAutoImplicit false
set_option autoImplicit false

/-!
# Places and containers are lowered

What lowering does with places: values are fetched from them and put into them, and containers and
class instances are constructed, copied and assigned at them. All of it succeeds in an environment
that has the layouts and declarations of a well-formed program, and emits well-typed code.

## Main definitions

* `Lane.Lowering.Env.Sound`: environments for the functions of a well-formed program.
* `Lane.Lowering.Denotes`: operands that stand for values of a type.
* `Lane.Lowering.Place.Sound`: places whose base and path lead to a value of their type.

## Main results

* `Lane.Lowering.fetch_yields`, `Lane.Lowering.put_yields`: use of places.
* `Lane.Lowering.copyValue_yields`, `Lane.Lowering.defaultValue_yields`,
  `Lane.Lowering.assignValue_yields`: construction and assignment at places.
-/

namespace Lane.Lowering

open Code

/-- **Sound environments**: the program is well formed and laid out, and its functions are
declared. -/
structure Env.Sound (env : Env) (e : Elaborated) : Prop where
  program_eq : env.program = e.program
  program_wf : e.program.WellFormed
  complete : env.layouts.Complete e.program
  decls_eq : ∀ f, e.program.Declares f →
    ∃ n, env.decls.lookup (f.cls.id, f.index) = some (memberDecl e f n)
  foreigns_eq : ∀ f ∈ e.program.foreigns, env.foreigns.lookup f.name = some (foreignDecl f)

/-- Operands for values of a type: what is not atomic is handled by address, and atomic values are
not addresses of slots. -/
def Denotes (T : Prop) (o : Operand) (t : Ty) : Prop :=
  T → o.HasType t.code ∧ (t.isAtomic → ∀ s, o ≠ .slot s)

/-- Operands that are addresses. -/
def IsAddress (T : Prop) (o : Operand) : Prop := T → o.HasType .ptr

/-- **Sound places**: variables hold atomic values of their type; a path in memory leads to a member
for values of the type, and a base without a path is the address of such a value, which is no slot
if it is atomic. -/
def Place.Sound (T : Prop) : Place → Prop
  | .var v t => t.isAtomic ∧ (T → v.type = t.code)
  | .memory base off t => T → base.HasType .ptr ∧
    match off.bind fun o => o.path.getLast? with
    | some m => m.Holds t
    | none => t.isAtomic → ∀ s, base ≠ .slot s

/-- Places in memory. -/
def Place.IsMemory : Place → Prop
  | .var _ _ => False
  | .memory _ _ _ => True

section Places

variable {env : Env} {e : Elaborated} {T : Prop} {L : Locals} {p q : Place} {o : Operand}
  {t u : Ty}

/-- A path ends with its last step. -/
@[simp] lemma path_step (o : Option Offset) (m : StructMember) :
    (Offset.step o m).path.getLast? = some m := by
  simp [Offset.step, Offset.add]

/-- What is not atomic is handled by its address. -/
lemma code_of_isAtomic_eq_false (h : t.isAtomic = false) : t.code = .ptr := by
  cases t <;> first | rfl | cases h

/-- What denotes a value in memory is an address. -/
lemma Denotes.isAddress (h : Denotes T o t) (ht : t.isAtomic = false) : IsAddress T o :=
  fun hT => code_of_isAtomic_eq_false ht ▸ (h hT).1

/-- An address denotes a value in memory. -/
lemma IsAddress.denotes (h : IsAddress T o) (ht : t.isAtomic = false) : Denotes T o t :=
  fun hT => ⟨(code_of_isAtomic_eq_false ht).symm ▸ h hT, fun h => nomatch ht.symm.trans h⟩

/-- A target of the machine type of a value. -/
lemma denotes_of_isTarget (h : o.IsTarget) (ht : T → o.type = t.code) : Denotes T o t :=
  fun hT => ⟨⟨h.ne_absent, ht hT⟩, fun _ s hs => by rw [hs] at h; exact h⟩

/-- What is not atomic is in memory. -/
lemma Place.Sound.isMemory (hp : p.Sound T) (h : p.type.isAtomic = false) : p.IsMemory := by
  cases p with
  | var v t => exact absurd (hp.1.symm.trans h) (by simp)
  | memory => trivial

/-- A place in memory is at a distance from an address. -/
lemma Place.Sound.base_hasType (hp : p.Sound T) (hm : p.IsMemory) : IsAddress T p.base := by
  cases p with
  | var => exact hm.elim
  | memory => exact fun hT => (hp hT).1

/-- A member of a place. -/
lemma Place.Sound.field (hp : p.Sound T) (hm : p.IsMemory) {m : StructMember}
    (h : T → m.Holds t) : (p.field m t).Sound T ∧ (p.field m t).IsMemory :=
  ⟨fun hT => ⟨hp.base_hasType hm hT, by simpa using h hT⟩, trivial⟩

/-! ## Values at places -/

/-- The address of a place in memory. -/
lemma address_yields (hp : p.Sound T) (hm : p.IsMemory) :
    Yields env T L (address p) (IsAddress T) := by
  cases p with
  | var => exact hm.elim
  | memory base off t =>
    simp only [address]
    split
    · exact Yields.pure fun hT => (hp hT).1
    · refine Lowers.define (fun _ => ⟨rfl, rfl⟩) (fun r hr hT => ⟨trivial, hr, (hp hT).1⟩)
        fun r hr => Yields.pure fun _ => ⟨nofun, hr⟩

/-- The value at a place. -/
lemma fetch_yields (hp : p.Sound T) : Yields env T L (fetch p) (Denotes T · p.type) := by
  cases p with
  | var v t => exact Yields.pure (denotes_of_isTarget trivial hp.2)
  | memory base off t =>
    simp only [fetch]
    split
    · rename_i ht
      have ht : t.isAtomic = false := by simpa using ht
      exact (address_yields hp trivial).weaken fun _ h => h.denotes ht
    · rename_i ht
      have ht : t.isAtomic = true := by simpa using ht
      refine Lowers.define (fun _ => ⟨rfl, rfl⟩) (fun r hr hT => ⟨trivial, (hp hT).1, ?_⟩)
        fun r hr => Yields.pure (denotes_of_isTarget trivial fun _ => hr)
      have hpath := (hp hT).2
      revert hpath
      cases off.bind fun o => o.path.getLast? with
      | some m => exact fun hpath => (hpath.type?_eq ht).trans (congrArg some hr.symm)
      | none => exact fun hpath s hs => (hpath ht s hs).elim

/-- An atomic value is put into a place. -/
lemma put_yields (hp : p.Sound T) (ht : p.type.isAtomic) (ho : T → o.HasType p.type.code) :
    Yields env T L (put p o) fun _ => True := by
  cases p with
  | var v t =>
    refine Yields.emit rfl rfl fun hT => ⟨trivial, by simpa using (ho hT).1, ?_⟩
    exact congrArg (· :: []) ((ho hT).2.trans (hp.2 hT).symm)
  | memory base off t =>
    refine Yields.emit rfl rfl fun hT => ⟨(ho hT).1, (hp hT).1, ?_⟩
    have hpath := (hp hT).2
    revert hpath
    cases off.bind fun o => o.path.getLast? with
    | some m => exact fun hpath => (hpath.type?_eq ht).trans (congrArg some (ho hT).2.symm)
    | none => exact fun hpath s hs => (hpath ht s hs).elim

/-- The value of a header field. -/
lemma loadField_yields (hp : p.Sound T) (hm : p.IsMemory) {m : StructMember} {t : VType}
    (ht : m.type? = some t) :
    Yields env T L (loadField p m) fun o => o.IsTarget ∧ o.type = t := by
  unfold loadField
  rw [ht]
  refine Lowers.define (fun _ => ⟨rfl, rfl⟩)
    (fun r hr hT => ⟨trivial, hp.base_hasType hm hT, ?_⟩) fun r hr => Yields.pure ⟨trivial, hr⟩
  simp [ht, Operand.type, hr]

/-- A header field is set. -/
lemma storeField_yields (hp : p.Sound T) (hm : p.IsMemory) {m : StructMember}
    (ho : T → o ≠ .absent ∧ m.type? = some o.type) :
    Yields env T L (storeField p m o) fun _ => True :=
  Yields.emit rfl rfl fun hT =>
    ⟨(ho hT).1, hp.base_hasType hm hT, by simpa using (ho hT).2⟩

/-! ## Storage -/

/-- The size of values of a type. -/
lemma sizeOf_yields (he : env.Sound e) (ht : e.program.Valid t) :
    Yields env T L (sizeOf t) fun _ => True := by
  unfold sizeOf
  cases t with
  | cls m c =>
    obtain ⟨d, hd, rfl⟩ := ht
    obtain ⟨s, hs, -⟩ := he.complete d hd
    refine Yields.bind Yields.read fun env' henv => ?_
    subst henv
    simp only [hs]
    exact Yields.pure trivial
  | _ => exact Yields.pure trivial

/-- A new slot for a value. -/
lemma slotFor_yields (he : env.Sound e) (ht : e.program.Valid t) (name : String) :
    Yields env T L (slotFor name t) fun o => ∃ s, o = .slot s := by
  refine Yields.bind (sizeOf_yields he ht) fun (size, align) _ => ?_
  refine Yields.bind Yields.read fun env' _ => ?_
  exact (Yields.newSlot _ _ _ _).weaken fun o ⟨s, hs, _⟩ => ⟨s, hs⟩

/-- The address of a slot. -/
lemma isAddress_slot (s : Slot) : IsAddress T (.slot s) := fun _ => ⟨nofun, rfl⟩

/-- A layout entry of a member variable that holds its values. -/
lemma memberOf_yields (he : env.Sound e) {c : Class} (hc : c ∈ e.program.classes)
    {v : MemberVar} (hv : v ∈ c.vars) :
    Yields env T L (memberOf v) fun m => StructMember.Places c.name v m := by
  obtain ⟨s, hs, hfits⟩ := he.complete c hc
  have hvalid := he.program_wf.classes_valid c hc
  obtain ⟨m, -, hm, hplaces⟩ := hfits.member?_eq_some hvalid.var_names hv
  refine Yields.bind Yields.read fun env' henv => ?_
  subst henv
  simp only [(hvalid.vars_own v hv).1, hs, hm]
  exact Yields.need hplaces

/-! ## Containers -/

/-- Operands that are indices. -/
def IsIndex (T : Prop) (o : Operand) : Prop := T → o.HasType .index

/-- A target of that type is an index. -/
lemma isIndex_of_isTarget (h : o.IsTarget) (ht : o.type = .index) : IsIndex T o :=
  fun _ => ⟨h.ne_absent, ht⟩

/-- A computed value. -/
lemma compute_yields {kind : AssignKind} {t : VType} {args : List Operand}
    (h : T → (∀ a ∈ args, a ≠ .absent) ∧ kind.Computes t (args.map Operand.type)) :
    Yields env T L (compute kind t args) fun o => o.IsTarget ∧ o.type = t := by
  refine Lowers.define (fun _ => ⟨rfl, rfl⟩) (fun r hr hT => ⟨trivial, (h hT).1, ?_⟩)
    fun r hr => Yields.pure ⟨trivial, hr⟩
  simpa [Operand.type, hr] using (h hT).2

/-- A number of bytes or elements that is computed from an index and a constant. -/
lemma computeIndex_yields {kind : AssignKind} {n : Operand} (hn : IsIndex T n) (x : UInt64)
    (hk : kind.Computes .index [.index, .index]) :
    Yields env T L (compute kind .index [n, .const (.ofInt .index x)]) (IsIndex T) := by
  refine (compute_yields fun hT => ⟨?_, ?_⟩).weaken fun o h => isIndex_of_isTarget h.1 h.2
  · simpa using (hn hT).1
  · simpa [show (Operand.const (.ofInt .index x)).type = .index from rfl, (hn hT).2] using hk

/-- The number of bytes of elements. -/
lemma scaled_yields (he : env.Sound e) (ht : e.program.Valid t) {n : Operand}
    (hn : IsIndex T n) : Yields env T L (do
      let (size, _) ← sizeOf t
      if size = 1 then return n
      compute .mul .index [n, .const (.ofInt .index size.toUInt64)]) (IsIndex T) := by
  refine Yields.bind (sizeOf_yields he ht) fun q _ => ?_
  dsimp only
  split
  · exact Yields.pure hn
  · exact computeIndex_yields hn _ rfl

/-- The number of bytes of a container is an index. -/
lemma byteSize_yields (he : env.Sound e) (ht : e.program.Valid t) (kind : SeqKind) {n : Operand}
    (hn : IsIndex T n) : Yields env T L (byteSize kind t n) (IsIndex T) := by
  refine Yields.bind Yields.read fun env' _ => ?_
  cases kind with
  | simd =>
    refine Yields.bind (computeIndex_yields hn _ rfl) fun sum hsum => ?_
    exact Yields.bind (computeIndex_yields hsum _ rfl) fun _ hcount => scaled_yields he ht hcount
  | array => exact scaled_yields he ht hn

/-- A container is made empty. -/
lemma emptyContainer_yields (hp : p.Sound T) (hm : p.IsMemory) :
    Yields env T L (emptyContainer p) fun _ => True :=
  Yields.bind (storeField_yields hp hm fun _ => ⟨nofun, rfl⟩) fun _ _ =>
    storeField_yields hp hm fun _ => ⟨nofun, rfl⟩

/-- The header of a container is set. -/
lemma storeHeader_yields (hp : p.Sound T) (hm : p.IsMemory) {data n : Operand}
    (hdata : IsAddress T data) (hn : IsIndex T n) :
    Yields env T L (do
      storeField p .headerData data
      storeField p .headerLen n) fun _ => True :=
  Yields.bind (storeField_yields hp hm fun hT => ⟨(hdata hT).1, congrArg some (hdata hT).2.symm⟩)
    fun _ _ => storeField_yields hp hm fun hT => ⟨(hn hT).1, congrArg some (hn hT).2.symm⟩

/-- Elements are allocated for a container. -/
lemma allocContainer_yields (he : env.Sound e) (hp : p.Sound T) {m : Modifier} {k : SeqKind}
    (ht : p.type = .container m k t) (hv : e.program.Valid t) {n : Operand} (hn : IsIndex T n) :
    Yields env T L (allocContainer p n) fun _ => True := by
  unfold allocContainer
  rw [ht]
  refine Lowers.defineAfter (byteSize_yields he hv k hn) (fun _ _ => ⟨rfl, rfl⟩)
    (fun r a hr ha hT => ⟨trivial, hr, ha hT⟩) fun r a hr _ => ?_
  exact storeHeader_yields hp (hp.isMemory (by rw [ht]; rfl)) (fun _ => ⟨nofun, hr⟩) hn

/-- The elements of a container are copied, the address of the others being known. -/
lemma copyElements_yields (he : env.Sound e) (hp : p.Sound T) (hq : q.Sound T) (hm : p.IsMemory)
    (hm' : q.IsMemory) (kind : SeqKind) (hv : e.program.Valid t) {data : Operand}
    (hdata : IsAddress T data) :
    Yields env T L (do
      let n ← loadField q .headerLen
      let bytes ← byteSize kind t n
      let copy ← newReg .ptr
      emit (.alloc copy bytes)
      emit (.memcpy copy data bytes)
      storeField p .headerData copy
      storeField p .headerLen n) fun _ => True := by
  refine Yields.bind (loadField_yields hq hm' rfl) fun n hn => ?_
  refine Yields.bind (byteSize_yields he hv kind (isIndex_of_isTarget hn.1 hn.2)) fun bytes hb => ?_
  refine Lowers.define (fun _ => ⟨rfl, rfl⟩) (fun r hr hT => ⟨trivial, hr, hb hT⟩) fun r hr => ?_
  refine Yields.bind (Yields.emit rfl rfl fun hT => ⟨⟨nofun, hr⟩, hdata hT, hb hT⟩) fun _ _ => ?_
  exact storeHeader_yields hp hm (fun _ => ⟨nofun, hr⟩) (isIndex_of_isTarget hn.1 hn.2)

/-- A container gets its own copy of elements. -/
lemma copyContainer_yields (he : env.Sound e) (hp : p.Sound T) (hq : q.Sound T) {m : Modifier}
    {k : SeqKind} (ht : p.type = .container m k t) (hv : e.program.Valid t) (hm : q.IsMemory) :
    Yields env T L (copyContainer p q) fun _ => True := by
  unfold copyContainer
  rw [ht]
  refine Yields.bind (loadField_yields hq hm rfl) fun data hdata => ?_
  exact copyElements_yields he hp hq (hp.isMemory (by rw [ht]; rfl)) hm k hv fun _ =>
    ⟨hdata.1.ne_absent, hdata.2⟩

/-! ## Creates and assigns -/

/-- Types with which parameters are passed. -/
def passed (ps : List Param) : List VType := ps.map fun a => paramType a.type

/-- A parameter that is not atomic is passed by its address. -/
lemma paramType_of_isAtomic_eq_false (h : t.isAtomic = false) : paramType t = .ptr := by
  simp [paramType, h]

/-- A function that has a declaration may be called. -/
lemma calls_of_lookup {f : MemberFunction} {d : FuncDecl}
    (h : env.decls.lookup (f.cls.id, f.index) = some d) : env.Calls d := by
  obtain ⟨l₁, l₂, hl, -⟩ := List.lookup_eq_some_iff.1 h
  exact .inl (by simp [hl])

/-- The declaration of a function. -/
lemma declOf_yields (he : env.Sound e) {f : MemberFunction} (hf : e.program.Declares f) :
    Yields env T L (declOf f) fun d => (∃ n, d = memberDecl e f n) ∧ env.Calls d := by
  obtain ⟨n, hn⟩ := he.decls_eq f hf
  refine Yields.bind Yields.read fun env' henv => ?_
  subst henv
  simp only [hn]
  exact Yields.pure ⟨⟨n, rfl⟩, calls_of_lookup hn⟩

/-- What creates and assigns take: the instance and the arguments. -/
lemma params_of_kind (hp : e.program.WellFormed) {f : MemberFunction}
    (hf : e.program.Declares f) (hk : f.kind = .create ∨ f.kind = .assign) (n : Nat) :
    (memberDecl e f n).params = .ptr :: passed f.sig.params ∧ (memberDecl e f n).results = [] := by
  have hres := (hf.validFunc hp).results_nil hk
  have hself : f.hasSelf = true := by
    obtain hk | hk := hk <;> simp [MemberFunction.hasSelf, hk]
  constructor
  · simp [memberDecl, hself, Signature.hiddenResults, hres, passed]
  · simp [memberDecl, Signature.valueResults, hres]

/-- The call of a create or assign. -/
lemma emitCall_yields (he : env.Sound e) {f : MemberFunction} (hf : e.program.Declares f)
    (hk : f.kind = .create ∨ f.kind = .assign) {n : Nat}
    (hn : env.Calls (memberDecl e f n)) {self : Operand} {args : List Operand}
    (hself : IsAddress T self)
    (hargs : T → List.Forall₂ Operand.HasType args (passed f.sig.params)) :
    Yields env T L (emit (.call (memberDecl e f n) (self :: args) [])) fun _ => True := by
  obtain ⟨hps, hrs⟩ := params_of_kind he.program_wf hf hk n
  refine Yields.emit rfl rfl fun hT => ⟨hn, ?_, ?_, by simp⟩
  · rw [hps]
    exact .cons (hself hT) (hargs hT)
  · rw [hrs]
    exact .nil

/-- A create or assign is called, unless it has nothing to do. -/
lemma invoke_yields (he : env.Sound e) {f : MemberFunction} (hf : e.program.Declares f)
    (hk : f.kind = .create ∨ f.kind = .assign) {self : Operand} {args : List Operand}
    (hself : IsAddress T self)
    (hargs : T → List.Forall₂ Operand.HasType args (passed f.sig.params)) :
    Yields env T L (invoke f self args) fun _ => True := by
  refine Yields.bind (declOf_yields he hf) fun d hd => ?_
  obtain ⟨⟨n, rfl⟩, hcalls⟩ := hd
  split
  · exact emitCall_yields he hf hk hcalls hself hargs
  · exact Yields.pure trivial

/-- The addresses of places in memory. -/
lemma addresses_yields : ∀ (ps : List Place), (∀ p ∈ ps, p.Sound T ∧ p.IsMemory) →
    Yields env T L (addresses ps) (List.Forall₂ (fun _ => IsAddress T) ps)
  | [], _ => Yields.pure .nil
  | p :: ps, h => by
    obtain ⟨hp, hps⟩ := List.forall_mem_cons.1 h
    exact Yields.bind (address_yields hp.1 hp.2) fun a ha =>
      Yields.bind (addresses_yields ps hps) fun as has => Yields.pure (.cons ha has)

/-- A create or assign is called on places, unless it has nothing to do. -/
lemma invokeAt_yields (he : env.Sound e) {f : MemberFunction} (hf : e.program.Declares f)
    (hk : f.kind = .create ∨ f.kind = .assign) {self : Place} {args : List Place}
    (hself : self.Sound T ∧ self.IsMemory) (hargs : ∀ q ∈ args, q.Sound T ∧ q.IsMemory)
    (hps : List.Forall₂ (fun (a : Param) (_ : Place) => a.type.isAtomic = false)
      f.sig.params args) :
    Yields env T L (invokeAt f self args) fun _ => True := by
  refine Yields.bind (declOf_yields he hf) fun d hd => ?_
  obtain ⟨⟨n, rfl⟩, hcalls⟩ := hd
  split
  · refine Yields.bind (addresses_yields args hargs) fun as has => ?_
    refine Yields.bind (address_yields hself.1 hself.2) fun a ha => ?_
    refine emitCall_yields he hf hk hcalls ha fun hT => ?_
    have hrel : ∀ {ps : List Param} {qs : List Place} {as : List Operand},
        List.Forall₂ (fun (a : Param) (_ : Place) => a.type.isAtomic = false) ps qs →
        List.Forall₂ (fun _ => IsAddress T) qs as →
        List.Forall₂ Operand.HasType as (passed ps) := by
      intro ps qs as h
      induction h generalizing as with
      | nil =>
        rintro ⟨⟩
        exact .nil
      | cons hp _ ih =>
        rintro (_ | ⟨ha, has⟩)
        refine .cons ?_ (ih has)
        show Operand.HasType _ (paramType _)
        rw [paramType_of_isAtomic_eq_false hp]
        exact ha hT
    exact hrel hps has
  · exact Yields.pure trivial

/-- A selected create or assign is one of the class, and agrees with the arguments. -/
lemma select_yields (he : env.Sound e) (c : ClassRef) (kind : FuncKind) (args : List Ty) :
    Yields env T L (select c kind args) fun o => ∀ f, o = some f →
      e.program.Declares f ∧ f.kind = kind ∧
        List.Forall₂ (fun (a : Param) (t : Ty) => a.type.compatible t) f.sig.params args := by
  refine Yields.bind Yields.read fun env' henv => Yields.pure fun f hf => ?_
  subst henv
  rw [he.program_eq] at hf
  cases hres : (e.program.classOf c).resolve kind.name args [kind] with
  | error => simp [hres, Except.toOption] at hf
  | ok g =>
    obtain rfl : g = f := by simpa [hres, Except.toOption] using hf
    obtain ⟨hm, hk, ha⟩ := Class.of_resolve_eq_ok hres (by simp)
    exact ⟨Program.declares_of_mem_classOf hm, by simpa using hk,
      Signature.forall₂_of_applicable ha⟩

/-- A class instance is constructed or assigned from another one, if there is a way to do so. -/
lemma selectAt_yields (he : env.Sound e) {m : Modifier} {c : ClassRef} (hp : p.Sound T)
    (ht : p.type = .cls m c) (hq : q.Sound T ∧ q.IsMemory) (kind : FuncKind)
    (hk : kind = .create ∨ kind = .assign) :
    Yields env T L (do
      match ← select c kind [.cls .cref c] with
      | some f => invokeAt f p [q]
      | none => return) fun _ => True := by
  refine Yields.bind (select_yields he c kind _) fun o ho => ?_
  cases o with
  | none => exact Yields.pure trivial
  | some f =>
    obtain ⟨hf, hkind, hargs⟩ := ho f rfl
    obtain ⟨a, as, ha, has, has'⟩ := List.forall₂_cons_right_iff.1 hargs
    obtain rfl := List.forall₂_nil_right_iff.1 has
    refine invokeAt_yields he hf (hkind ▸ hk) ⟨hp, hp.isMemory (by rw [ht]; rfl)⟩
      (by simpa using hq) (has' ▸ .cons ?_ .nil)
    have hvalid := ((hf.validFunc he.program_wf).params_valid a (by simp [has'])).1
    exact Ty.isAtomic_eq_of_compatible ha hvalid.isError_eq_false rfl

/-- The value at a place is constructed as a copy of another. -/
lemma copyValue_yields (he : env.Sound e) (hp : p.Sound T) (hv : e.program.Valid p.type)
    (hq : q.Sound T) (ht : q.type = p.type) (hm : q.IsMemory ∨ p.type.isAtomic) :
    Yields env T L (copyValue p q) fun _ => True := by
  unfold copyValue
  split
  · rename_i m k t hpt
    rw [hpt] at hv hm
    exact copyContainer_yields he hp hq hpt hv (hm.resolve_right nofun)
  · rename_i m c hpt
    rw [hpt] at hm
    exact selectAt_yields he hp hpt ⟨hq, hm.resolve_right nofun⟩ .create (.inl rfl)
  · rename_i hcon hcls
    exact Yields.bind (fetch_yields hq) fun o ho =>
      put_yields hp (hv.isAtomic_of hcon hcls) fun hT =>
      ht ▸ (ho hT).1

/-- The value at a place is constructed without arguments. -/
lemma defaultValue_yields (he : env.Sound e) (hp : p.Sound T) (hv : e.program.Valid p.type) :
    Yields env T L (defaultValue p) fun _ => True := by
  unfold defaultValue
  split
  · rename_i hpt
    exact emptyContainer_yields hp (hp.isMemory (by rw [hpt]; rfl))
  · rename_i m c hpt
    refine Yields.bind (select_yields he c .create []) fun o ho => ?_
    cases o with
    | none => exact Yields.pure trivial
    | some f =>
      obtain ⟨hf, hkind, hargs⟩ := ho f rfl
      have hps := List.forall₂_nil_right_iff.1 hargs
      exact invokeAt_yields he hf (.inl hkind) ⟨hp, hp.isMemory (by rw [hpt]; rfl)⟩ (by simp)
        (hps ▸ .nil)
  · rename_i hcon hcls
    exact put_yields hp (hv.isAtomic_of hcon hcls) fun _ => ⟨nofun, rfl⟩

/-- A copy of another value is assigned to the value at a place. -/
lemma assignValue_yields (he : env.Sound e) (hp : p.Sound T) (hv : e.program.Valid p.type)
    (hq : q.Sound T) (ht : q.type = p.type) (hm : q.IsMemory ∨ p.type.isAtomic) :
    Yields env T L (assignValue p q) fun _ => True := by
  unfold assignValue
  split
  · rename_i m c hpt
    rw [hpt] at hm
    exact selectAt_yields he hp hpt ⟨hq, hm.resolve_right nofun⟩ .assign (.inr rfl)
  · exact copyValue_yields he hp hv hq ht hm

end Places

end Lane.Lowering
