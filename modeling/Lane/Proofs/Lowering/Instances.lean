import Lane.Proofs.Analysis.Generated
import Lane.Proofs.Lowering.Names

set_option relaxedAutoImplicit false
set_option autoImplicit false

/-!
# Instances that lowering constructs, copies and assigns

Lowering treats values of its own accord in three places: a function copies the parameters that it
may change, constructs the results that its caller provides storage for, and a function of the
compiler constructs, copies or assigns the member variables of its class. A value of class type is
treated by the one function of the class that fits, which is called once, on the address of the
value, or has nothing to do. One value is left as it is: that which is to be constructed, and whose
class has creates that were written, all of which take something.

## Main definitions

* `Lane.Lowering.TreatsClass`, `Lane.Lowering.Treats`: the code that treats a value.
* `Lane.Lowering.TreatsInstances`: the code of a function treats what it has to.

## Main results

* `Lane.Lowering.treat_writes`: lowering treats a value.
* `Lane.Accepted.treats_instances`: functions of accepted programs treat what they have to.
-/

namespace Lane.Lowering

open Code
open Lane.Class (givenTo)

/-! ## Treatments -/

/-- What is done with a value. -/
inductive Treatment where
  | construct
  | copy
  | assign
  deriving DecidableEq

namespace Treatment

/-- The kind of function that does it. -/
def kind : Treatment → FuncKind
  | .construct | .copy => .create
  | .assign => .assign

/-- Whether another value is copied. -/
def isCopy : Treatment → Bool
  | .construct => false
  | .copy | .assign => true

/-- The places of the arguments. -/
def sources (x : Treatment) (src : Place) : List Place := if x.isCopy then [src] else []

/-- What a function of the compiler does with the member variables. -/
def ofFunction (f : MemberFunction) : Treatment :=
  if f.isCopy then if f.kind = .assign then .assign else .copy else .construct

end Treatment

/-- Treat the value at a place. -/
def treat (x : Treatment) (dst src : Place) : Lower Unit :=
  match x with
  | .construct => defaultValue dst
  | .copy => copyValue dst src
  | .assign => assignValue dst src

/-! ## Code that treats values -/

/-- **Code that gives the address of a place**: the base of the place if the distance is zero. -/
inductive Addresses : Place → Operand → List Instr → Prop
  | base {b : Operand} {o : Option Offset} {t : Ty} (h : Offset.value o = 0) :
    Addresses (.memory b o t) b []
  | path {b : Operand} {o : Option Offset} {t : Ty} (r : Reg) (h : Offset.value o ≠ 0) :
    Addresses (.memory b o t) (.reg r) [.lea (.reg r) b o]

/-- Code that gives the addresses of places. -/
inductive AddressesAll : List Place → List Operand → List Instr → Prop
  | nil : AddressesAll [] [] []
  | cons {p : Place} {ps : List Place} {a : Operand} {as : List Operand} {is js : List Instr}
    (h : Addresses p a is) (hs : AddressesAll ps as js) :
    AddressesAll (p :: ps) (a :: as) (is ++ js)

/-- **Code that treats an instance of a class**: the one function that fits has nothing to do, or is
called on the addresses of the instance and of the one that is copied. An instance that is to be
constructed is left as it is if creates were written for its class and none of them takes
nothing. -/
inductive TreatsClass (e : Elaborated) (c : ClassRef) (x : Treatment) (dst src : Place) :
    List Instr → Prop
  | idle {g : MemberFunction}
    (hg : (e.program.classOf c).fitting x.kind (givenTo c x.isCopy) = [g])
    (ht : isTrivial e g = true) : TreatsClass e c x dst src []
  | call {g : MemberFunction} {n : Nat} {self : Operand} {args : List Operand} {is js : List Instr}
    (hg : (e.program.classOf c).fitting x.kind (givenTo c x.isCopy) = [g])
    (ht : isTrivial e g = false) (hn : (memberFuncs e)[n]? = some g)
    (hargs : AddressesAll (x.sources src) args is) (hself : Addresses dst self js) :
    TreatsClass e c x dst src (is ++ js ++ [.call (memberDecl e g n) (self :: args) []])
  | unconstructed (hx : x = .construct)
    (hnone : (e.program.classOf c).fitting .create [] = [])
    (hw : ∃ g ∈ (e.program.classOf c).lookup FuncKind.create.name [.create],
      g.isGenerated = false) : TreatsClass e c x dst src []

/-- Code that only computes in registers. -/
def IsComputed (is : List Instr) : Prop := ∀ i ∈ is, ∃ k r args, i = .assign k (.reg r) args

/-- The path of a header field of the container at a place. -/
def Place.header (p : Place) (m : StructMember) : Option Offset := some (Offset.step p.offset? m)

/-- **Code that treats a value**. Scalars and pointers are zeroed or moved; a container is made
empty, or gets its own copy of the elements, the number of bytes of which is computed in
registers. -/
inductive Treats (e : Elaborated) (x : Treatment) (dst src : Place) : List Instr → Prop
  | instance {m : Modifier} {c : ClassRef} {is : List Instr} (ht : dst.type = .cls m c)
    (h : TreatsClass e c x dst src is) : Treats e x dst src is
  | zero (ht : dst.type.isAtomic = true) (hx : x = .construct) :
    Treats e x dst src [.store dst.base dst.offset? (.const (.zero dst.type.code))]
  | move (r : Reg) (ht : dst.type.isAtomic = true) (hx : x.isCopy = true) :
    Treats e x dst src
      [.load (.reg r) src.base src.offset?, .store dst.base dst.offset? (.reg r)]
  | empty (ht : dst.type.isContainer = true) (hx : x = .construct) :
    Treats e x dst src
      [.store dst.base (dst.header .headerData) (.const (.zero .ptr)),
        .store dst.base (dst.header .headerLen) (.const (.zero .index))]
  | elements {bytes : Operand} {size : List Instr} (data n new : Reg)
    (ht : dst.type.isContainer = true) (hx : x.isCopy = true)
    (hsize : IsComputed size) :
    Treats e x dst src
      ([.load (.reg data) src.base (src.header .headerData),
          .load (.reg n) src.base (src.header .headerLen)] ++ size ++
        [.alloc (.reg new) bytes, .memcpy (.reg new) (.reg data) bytes,
          .store dst.base (dst.header .headerData) (.reg new),
          .store dst.base (dst.header .headerLen) (.reg n)])

/-! ## Lowering adds such code -/

/-- **Added code**, without a change of where locals live. -/
structure Writes (b : Builder) (is : List Instr) (b' : Builder) : Prop where
  code_eq : b'.code = b.code ++ is
  locals_eq : b'.locals = b.locals

section Writes

variable {env : Env} {e : Elaborated} {b b' b'' : Builder} {is js : List Instr} {p q : Place}
  {o : Operand}

/-- Nothing is written. -/
lemma Writes.refl : Writes b [] b := ⟨by simp, rfl⟩

/-- What is written in two parts. -/
lemma Writes.trans (h : Writes b is b') (h' : Writes b' js b'') : Writes b (is ++ js) b'' :=
  ⟨by rw [h'.code_eq, h.code_eq, List.append_assoc], h'.locals_eq.trans h.locals_eq⟩

/-- An instruction is written. -/
lemma writes_emit {i : Instr} {a : Unit} (h : Runs env (emit i) b a b') : Writes b [i] b' := by
  obtain ⟨-, rfl⟩ := Prod.mk.inj (Except.ok.inj h)
  exact ⟨rfl, rfl⟩

/-- A new register writes nothing. -/
lemma writes_newReg {t : VType} (h : Runs env (newReg t) b o b') :
    Writes b [] b' ∧ ∃ r, o = .reg r := by
  obtain ⟨rfl, rfl⟩ := Prod.mk.inj (Except.ok.inj h)
  exact ⟨⟨by simp, rfl⟩, _, rfl⟩

/-- Code for an address is written. -/
lemma address_writes (h : Runs env (address p) b o b') :
    ∃ is, Writes b is b' ∧ Addresses p o is := by
  cases p with
  | var v t => cases h
  | memory base off t =>
    simp only [address] at h
    split at h
    · rename_i hzero
      obtain ⟨rfl, rfl⟩ := h.of_pure
      exact ⟨[], .refl, .base hzero⟩
    · rename_i hzero
      obtain ⟨r, b₁, hr, h⟩ := h.of_bind
      obtain ⟨⟨⟩, b₂, hi, h⟩ := h.of_bind
      obtain ⟨rfl, rfl⟩ := h.of_pure
      obtain ⟨hw, r, rfl⟩ := writes_newReg hr
      exact ⟨_, hw.trans (writes_emit hi), .path r hzero⟩

/-- Code for addresses is written. -/
lemma addresses_writes : ∀ {ps : List Place} {as : List Operand} {b b' : Builder},
    Runs env (addresses ps) b as b' → ∃ is, Writes b is b' ∧ AddressesAll ps as is
  | [], as, b, b', h => by
    obtain ⟨rfl, rfl⟩ := h.of_pure
    exact ⟨[], .refl, .nil⟩
  | p :: ps, as, b, b', h => by
    obtain ⟨a, b₁, ha, h⟩ := h.of_bind
    obtain ⟨as', b₂, has, h⟩ := h.of_bind
    obtain ⟨rfl, rfl⟩ := h.of_pure
    obtain ⟨is, hw, haddr⟩ := address_writes ha
    obtain ⟨js, hw', haddr'⟩ := addresses_writes has
    exact ⟨is ++ js, hw.trans hw', .cons haddr haddr'⟩

/-! ### Containers -/

/-- A load of a field is written. -/
lemma loadField_writes {m : StructMember} (h : Runs env (loadField p m) b o b') :
    ∃ r, o = .reg r ∧ Writes b [.load (.reg r) p.base (p.header m)] b' := by
  obtain ⟨o', b₁, hr, h⟩ := h.of_bind
  obtain ⟨⟨⟩, b₂, hi, h⟩ := h.of_bind
  obtain ⟨rfl, rfl⟩ := h.of_pure
  obtain ⟨hw, r, rfl⟩ := writes_newReg hr
  exact ⟨r, rfl, hw.trans (writes_emit hi)⟩

/-- Code of two computations is computed. -/
lemma IsComputed.append (h : IsComputed is) (h' : IsComputed js) : IsComputed (is ++ js) :=
  fun i hi => (List.mem_append.1 hi).elim (h i) (h' i)

/-- Code for a computation is written. -/
lemma compute_writes {k : AssignKind} {t : VType} {args : List Operand}
    (h : Runs env (compute k t args) b o b') : ∃ is, Writes b is b' ∧ IsComputed is := by
  obtain ⟨o', b₁, hr, h⟩ := h.of_bind
  obtain ⟨⟨⟩, b₂, hi, h⟩ := h.of_bind
  obtain ⟨rfl, rfl⟩ := h.of_pure
  obtain ⟨hw, r, rfl⟩ := writes_newReg hr
  exact ⟨_, hw.trans (writes_emit hi), fun i hi => ⟨k, r, args, List.mem_singleton.1 hi⟩⟩

/-- The size of a type is looked up. -/
lemma sizeOf_writes {t : Ty} {q : Int64 × Int64} (h : Runs env (sizeOf t) b q b') : b' = b := by
  unfold sizeOf at h
  split at h
  · obtain ⟨_, b₁, hread, h⟩ := h.of_bind
    obtain ⟨rfl, rfl⟩ := Prod.mk.inj (Except.ok.inj hread)
    split at h
    · exact h.of_pure.2.symm
    · exact absurd h not_runs_throw
  · exact h.of_pure.2.symm
  · exact h.of_pure.2.symm

/-- Code for a scaled number is written. -/
lemma scaled_writes {t : Ty} {n : Operand} (h : Runs env (do
      let (size, _) ← sizeOf t
      if size = 1 then return n
      compute .mul .index [n, .const (.ofInt .index size.toUInt64)]) b o b') :
    ∃ is, Writes b is b' ∧ IsComputed is := by
  obtain ⟨q, b₁, hsize, hrest⟩ := h.of_bind
  obtain rfl := sizeOf_writes hsize
  dsimp only at hrest
  split at hrest
  · obtain ⟨-, rfl⟩ := hrest.of_pure
    exact ⟨[], .refl, List.forall_mem_nil _⟩
  · exact compute_writes hrest

/-- Code for a number of bytes is written. -/
lemma byteSize_writes {kind : SeqKind} {t : Ty} {n : Operand}
    (h : Runs env (byteSize kind t n) b o b') : ∃ is, Writes b is b' ∧ IsComputed is := by
  obtain ⟨_, b₁, hread, h⟩ := h.of_bind
  obtain ⟨rfl, rfl⟩ := Prod.mk.inj (Except.ok.inj hread)
  cases kind with
  | simd =>
    obtain ⟨sum, b₂, hsum, h⟩ := h.of_bind
    obtain ⟨count, b₃, hcount, h⟩ := h.of_bind
    obtain ⟨is, his, hcis⟩ := compute_writes hsum
    obtain ⟨js, hjs, hcjs⟩ := compute_writes hcount
    obtain ⟨ks, hks, hcks⟩ := scaled_writes h
    exact ⟨_, his.trans (hjs.trans hks), hcis.append (hcjs.append hcks)⟩
  | array => exact scaled_writes h

/-- A store to a field is written. -/
lemma storeField_writes {m : StructMember} (h : Runs env (storeField p m o) b () b') :
    Writes b [.store p.base (p.header m) o] b' := writes_emit h

/-- Code that empties a container constructs it. -/
lemma emptyContainer_writes (h : Runs env (emptyContainer p) b () b')
    (ht : p.type.isContainer = true) : ∃ is, Writes b is b' ∧ Treats e .construct p q is := by
  obtain ⟨⟨⟩, b₁, hdata, hlen⟩ := h.of_bind
  exact ⟨_, (storeField_writes hdata).trans (storeField_writes hlen), .empty ht rfl⟩

/-- Code that copies a container treats it. -/
lemma copyContainer_writes {x : Treatment} (h : Runs env (copyContainer p q) b () b')
    (ht : p.type.isContainer = true) (hx : x.isCopy = true) :
    ∃ is, Writes b is b' ∧ Treats e x p q is := by
  unfold copyContainer at h
  split at h
  · obtain ⟨data, b₁, hdata, h⟩ := h.of_bind
    obtain ⟨n, b₂, hn, h⟩ := h.of_bind
    obtain ⟨bytes, b₃, hbytes, h⟩ := h.of_bind
    obtain ⟨new, b₄, hnew, h⟩ := h.of_bind
    obtain ⟨⟨⟩, b₅, halloc, h⟩ := h.of_bind
    obtain ⟨⟨⟩, b₆, hcopy, h⟩ := h.of_bind
    obtain ⟨⟨⟩, b₇, hstore, hlen⟩ := h.of_bind
    obtain ⟨data, rfl, hwdata⟩ := loadField_writes hdata
    obtain ⟨n, rfl, hwn⟩ := loadField_writes hn
    obtain ⟨size, hwsize, hsize⟩ := byteSize_writes hbytes
    obtain ⟨hwnew, new, rfl⟩ := writes_newReg hnew
    have hw := ((hwdata.trans hwn).trans hwsize).trans (hwnew.trans ((writes_emit halloc).trans
      ((writes_emit hcopy).trans ((storeField_writes hstore).trans (storeField_writes hlen)))))
    exact ⟨_, hw, .elements data n new ht hx hsize⟩
  · exact absurd h not_runs_throw

/-! ### Instances of classes -/

/-- Environments of a program whose classes are equipped. -/
structure Furnishes (env : Env) (e : Elaborated) : Prop where
  program_eq : env.program = e.program
  program_wf : e.program.WellFormed
  orderly : e.program.All Class.Orderly
  equipped : e.program.All Class.Equipped
  decls_eq : ∀ f, e.program.Declares f → ∃ n, (memberFuncs e)[n]? = some f ∧
    env.decls.lookup (f.cls.id, f.index) = some (memberDecl e f n)

/-- A function is called, unless it has nothing to do. -/
lemma invokeAt_writes (he : Furnishes env e) {c : ClassRef} {x : Treatment} {g : MemberFunction}
    (hg : (e.program.classOf c).fitting x.kind (givenTo c x.isCopy) = [g])
    (h : Runs env (invokeAt g p (x.sources q)) b () b') :
    ∃ is, Writes b is b' ∧ TreatsClass e c x p q is := by
  have hmem : g ∈ (e.program.classOf c).funcs :=
    (Class.mem_lookup.1 (Class.mem_fitting.1 (hg ▸ List.mem_singleton_self g)).1).1
  obtain ⟨n, hn, hdecl⟩ := he.decls_eq g (Program.declares_of_mem_classOf hmem)
  obtain ⟨d, b₁, hd, h⟩ := h.of_bind
  obtain ⟨_, b₂, hread, hd⟩ := hd.of_bind
  obtain ⟨rfl, rfl⟩ := Prod.mk.inj (Except.ok.inj hread)
  rw [hdecl] at hd
  obtain ⟨rfl, rfl⟩ := hd.of_pure
  split at h
  · rename_i ht
    obtain ⟨args, b₃, hargs, h⟩ := h.of_bind
    obtain ⟨self, b₄, hself, h⟩ := h.of_bind
    obtain ⟨is, hw, hargs⟩ := addresses_writes hargs
    obtain ⟨js, hw', hself⟩ := address_writes hself
    have ht : isTrivial e g = false := by simpa [memberDecl] using ht
    exact ⟨_, (hw.trans hw').trans (writes_emit h), .call hg ht hn hargs hself⟩
  · rename_i ht
    obtain ⟨-, rfl⟩ := h.of_pure
    have ht : isTrivial e g = true := by simpa [memberDecl] using ht
    exact ⟨[], .refl, .idle hg ht⟩

/-- **An instance of a class is treated** by the function that is selected for it. -/
lemma selectAt_writes (he : Furnishes env e) {c : ClassRef} {x : Treatment}
    (hc : ∃ d ∈ e.program.classes, d.ref = c) (hn : ScalarKind.ofName? c.name = none)
    (h : Runs env (do
      match ← select c x.kind (givenTo c x.isCopy) with
      | some f => invokeAt f p (x.sources q)
      | none => return) b () b') : ∃ is, Writes b is b' ∧ TreatsClass e c x p q is := by
  obtain ⟨d, hd, rfl⟩ := hc
  have hclass : e.program.classOf d.ref = d := he.program_wf.classOf_eq hd
  obtain ⟨f?, b₁, hselect, h⟩ := h.of_bind
  obtain ⟨_, b₂, hread, hselect⟩ := hselect.of_bind
  obtain ⟨rfl, rfl⟩ := Prod.mk.inj (Except.ok.inj hread)
  obtain ⟨rfl, rfl⟩ := hselect.of_pure
  rw [he.program_eq, hclass] at h
  have called : ∀ g, d.fitting x.kind (givenTo d.ref x.isCopy) = [g] →
      ∃ is, Writes b is b' ∧ TreatsClass e d.ref x p q is := by
    intro g hg
    rw [Class.resolve_eq_ok_iff.2 hg] at h
    exact invokeAt_writes he (by rwa [hclass]) h
  have hequipped := he.equipped d hd
  cases x with
  | copy =>
    obtain ⟨g, hg⟩ := hequipped.copies .create (.inl rfl) hn
    exact called g hg
  | assign =>
    obtain ⟨g, hg⟩ := hequipped.copies .assign (.inr rfl) hn
    exact called g hg
  | construct =>
    obtain ⟨g, hg⟩ | ⟨hnone, hw⟩ := hequipped.creates
    · exact called g hg
    · cases hres : d.resolve Treatment.construct.kind.name (givenTo d.ref false)
          [Treatment.construct.kind] with
      | ok g => exact called g (Class.resolve_eq_ok_iff.1 hres)
      | error x =>
        rw [show Treatment.construct.isCopy = false from rfl, hres] at h
        obtain ⟨-, rfl⟩ := h.of_pure
        exact ⟨[], .refl, .unconstructed rfl (by rwa [hclass]) (by rwa [hclass])⟩

/-- A scalar or pointer is moved. -/
lemma move_writes {x : Treatment} (hq : q.IsMemory) (hp : p.IsMemory)
    (ht : q.type.isAtomic = true) (ht' : p.type.isAtomic = true) (hx : x.isCopy = true)
    (h : Runs env (do put p (← fetch q)) b () b') : ∃ is, Writes b is b' ∧ Treats e x p q is := by
  cases p with
  | var v t => exact hp.elim
  | memory base off t =>
  cases q with
  | var v u => exact hq.elim
  | memory base' off' u =>
  have ht : u.isAtomic = true := ht
  obtain ⟨o, b₁, hfetch, hput⟩ := h.of_bind
  simp only [fetch, ht, Bool.not_true, Bool.false_eq_true, if_false] at hfetch
  obtain ⟨r, b₂, hr, hfetch⟩ := hfetch.of_bind
  obtain ⟨⟨⟩, b₃, hload, hfetch⟩ := hfetch.of_bind
  obtain ⟨rfl, rfl⟩ := hfetch.of_pure
  obtain ⟨hw, r, rfl⟩ := writes_newReg hr
  exact ⟨_, (hw.trans (writes_emit hload)).trans (writes_emit hput), .move r ht' hx⟩

/-- **Values are treated.** -/
theorem treat_writes (he : Furnishes env e) {x : Treatment} (hp : p.IsMemory) (hq : q.IsMemory)
    (hv : e.program.Valid p.type) (hn : p.type.IsNamed) (hsame : q.type = p.type)
    (h : Runs env (treat x p q) b () b') : ∃ is, Writes b is b' ∧ Treats e x p q is := by
  cases p with
  | var v t => exact hp.elim
  | memory base off t =>
  cases q with
  | var v u => exact hq.elim
  | memory base' off' u =>
  obtain rfl : u = t := hsame
  cases u with
  | cls m c =>
    obtain ⟨is, hw, ht⟩ := selectAt_writes (x := x) (p := .memory base off (.cls m c))
      (q := .memory base' off' (.cls m c)) he hv (hn m c rfl) (by cases x <;> exact h)
    exact ⟨is, hw, .instance rfl ht⟩
  | container m k inner =>
    cases x with
    | construct => exact emptyContainer_writes h rfl
    | copy | assign => exact copyContainer_writes h rfl rfl
  | error => exact hv.elim
  | scalar | ptr =>
    cases x with
    | construct => exact ⟨_, writes_emit h, .zero rfl rfl⟩
    | copy | assign => exact move_writes trivial trivial rfl rfl rfl h

/-- Values are treated one after the other. -/
lemma forM_writes {α : Type} {g : α → Lower Unit} {R : α → List Instr → Prop} {L : Locals} :
    ∀ {l : List α} {b b' : Builder}, b.locals = L →
    (∀ a ∈ l, ∀ c c', c.locals = L → Runs env (g a) c () c' → ∃ is, Writes c is c' ∧ R a is) →
    Runs env (l.forM g) b () b' → ∃ pieces, Writes b pieces.flatten b' ∧ List.Forall₂ R l pieces
  | [], b, b', _, _, h => by
    obtain ⟨-, rfl⟩ := h.of_pure
    exact ⟨[], .refl, .nil⟩
  | a :: l, b, b', hb, hg, h => by
    obtain ⟨ha, hl⟩ := List.forall_mem_cons.1 hg
    obtain ⟨⟨⟩, b₁, h₁, h⟩ := h.of_bind
    obtain ⟨is, hw, hR⟩ := ha b b₁ hb h₁
    obtain ⟨pieces, hw', hall⟩ := forM_writes (hw.locals_eq.trans hb) hl h
    exact ⟨is :: pieces, hw.trans hw', .cons hR hall⟩

end Writes

/-! ## The opening of a function -/

section Opening

variable {env : Env} {e : Elaborated} {f : MemberFunction} {b b' : Builder} {a : Param}
  {as : List Param} {o : Operand} {os : List Operand}

/-- **Parameters that are bound**, to operands that are their addresses if they are passed by
address. -/
structure Binding (as : List Param) (os : List Operand) (b b' : Builder) : Prop where
  code_eq : b'.code = b.code
  length_eq : os.length = as.length
  lookup_eq : ∀ a o, (a, o) ∈ as.zip os → isByAddress a.type →
    b'.locals.lookup a.localId = some (.memory o)
  frame : ∀ i, i ∉ as.map Param.localId → b'.locals.lookup i = b.locals.lookup i

/-- How one parameter is bound. -/
def BindsOne (env : Env) (m : Lower Operand) (a : Param) : Prop :=
  ∀ b o b', Runs env m b o b' → b'.code = b.code ∧
    ∃ s, b'.locals = (a.localId, s) :: b.locals ∧ (isByAddress a.type → s = .memory o)

/-- A parameter passed by address binds one local. -/
lemma bindAddress_bindsOne (a : Param) : BindsOne env (bindAddress a) a := by
  intro b o b' h
  obtain ⟨rfl, rfl⟩ := Prod.mk.inj (Except.ok.inj h)
  exact ⟨rfl, _, rfl, fun _ => rfl⟩

/-- A parameter passed by value binds one local. -/
lemma bindValue_bindsOne (ha : isByAddress a.type = false) : BindsOne env (bindValue a) a := by
  intro b o b' h
  obtain ⟨rfl, rfl⟩ := Prod.mk.inj (Except.ok.inj h)
  exact ⟨rfl, _, rfl, fun h => nomatch ha.symm.trans h⟩

/-- A parameter binds one local. -/
lemma bindParam_bindsOne (a : Param) : BindsOne env (bindParam a) a := by
  unfold bindParam
  split
  · exact bindAddress_bindsOne a
  · rename_i ha
    exact bindValue_bindsOne (by simpa using ha)

/-- Parameters are bound in order. -/
lemma mapM_binding {g : Param → Lower Operand} : ∀ {as : List Param} {os : List Operand}
    {b b' : Builder}, (∀ a ∈ as, BindsOne env (g a) a) → (as.map Param.localId).Nodup →
    Runs env (as.mapM g) b os b' → Binding as os b b'
  | [], os, b, b', _, _, h => by
    have h : Runs env (pure []) b os b' := List.mapM_nil (m := Lower) (f := g) ▸ h
    obtain ⟨rfl, rfl⟩ := h.of_pure
    exact ⟨rfl, rfl, by simp, fun _ _ => rfl⟩
  | a :: as, os, b, b', hg, hn, h => by
    obtain ⟨hga, hgas⟩ := List.forall_mem_cons.1 hg
    obtain ⟨hnew, hn⟩ := List.nodup_cons.1 hn
    rw [List.mapM_cons] at h
    obtain ⟨o, b₁, ho, h⟩ := h.of_bind
    obtain ⟨os', b₂, hos, h⟩ := h.of_bind
    obtain ⟨rfl, rfl⟩ := h.of_pure
    obtain ⟨hcode, s, hlocals, hs⟩ := hga b o b₁ ho
    have hrest := mapM_binding hgas hn hos
    refine ⟨hrest.code_eq.trans hcode, by simp [hrest.length_eq], ?_, ?_⟩
    · rintro a' o' hmem hby
      obtain heq | hmem := List.mem_cons.1 hmem
      · obtain ⟨rfl, rfl⟩ := Prod.mk.inj heq
        rw [hrest.frame _ hnew, hlocals, List.lookup_cons_self, hs hby]
      · exact hrest.lookup_eq a' o' hmem hby
    · intro i hi
      have hne : i ≠ a.localId := fun he => hi (he ▸ List.mem_cons_self)
      rw [hrest.frame i fun h => hi (List.mem_cons_of_mem _ h), hlocals, List.lookup_cons,
        beq_false_of_ne hne]

/-- The place of a parameter that is bound to an address. -/
lemma paramPlace_eq {q : Place} (hb : b.locals.lookup a.localId = some (.memory o))
    (h : Runs env (paramPlace a) b q b') : q = .memory o none a.type ∧ b' = b := by
  obtain ⟨_, b₁, hget, h⟩ := h.of_bind
  obtain ⟨rfl, rfl⟩ := Prod.mk.inj (Except.ok.inj hget)
  rw [hb] at h
  obtain ⟨rfl, rfl⟩ := h.of_pure
  exact ⟨rfl, rfl⟩

/-- **The copy of a parameter**: the value at an address is copied to a slot. -/
def CopiesParam (e : Elaborated) (as : List Param) (os : List Operand) (a : Param)
    (is : List Instr) : Prop :=
  ∃ o s, (a, o) ∈ as.zip os ∧
    Treats e .copy (.memory (.slot s) none a.type) (.memory o none a.type) is

/-- **The construction of a result** at the address that the caller passed. -/
def ConstructsResult (e : Elaborated) (as : List Param) (os : List Operand) (a : Param)
    (is : List Instr) : Prop :=
  ∃ o, (a, o) ∈ as.zip os ∧
    Treats e .construct (.memory o none a.type) (.memory o none a.type) is

/-- Types of instances that lowering treats. -/
def IsTreated (e : Elaborated) (t : Ty) : Prop := e.program.Valid t ∧ t.IsNamed

/-- A slot is made without code. -/
lemma slotFor_writes {name : String} {t : Ty} (h : Runs env (slotFor name t) b o b') :
    Writes b [] b' ∧ ∃ s, o = .slot s := by
  obtain ⟨q, b₁, hsize, h⟩ := h.of_bind
  obtain ⟨_, b₂, hread, h⟩ := h.of_bind
  obtain rfl := sizeOf_writes hsize
  obtain ⟨rfl, rfl⟩ := Prod.mk.inj (Except.ok.inj hread)
  obtain ⟨rfl, rfl⟩ := Prod.mk.inj (Except.ok.inj h)
  exact ⟨⟨by simp, rfl⟩, _, rfl⟩

/-- A parameter that the function owns is copied. -/
lemma ownCopy_writes (he : Furnishes env e) (ht : IsTreated e a.type)
    (hb : b.locals.lookup a.localId = some (.memory o)) (h : Runs env (ownCopy a) b () b') :
    ∃ is s, b'.code = b.code ++ is ∧ b'.locals = (a.localId, .memory (.slot s)) :: b.locals ∧
      Treats e .copy (.memory (.slot s) none a.type) (.memory o none a.type) is := by
  obtain ⟨src, b₁, hsrc, htemp⟩ := h.of_bind
  obtain ⟨rfl, rfl⟩ := paramPlace_eq hb hsrc
  obtain ⟨addr, b₂, haddr, hrest⟩ := htemp.of_bind
  obtain ⟨⟨⟩, b₃, hcopy, hset⟩ := hrest.of_bind
  obtain ⟨hslot, s, rfl⟩ := slotFor_writes haddr
  obtain ⟨is, hw, ht⟩ := treat_writes (x := .copy) (p := .memory (.slot s) none a.type)
    (q := .memory o none a.type) he trivial trivial ht.1 ht.2 rfl hcopy
  obtain ⟨-, rfl⟩ := Prod.mk.inj (Except.ok.inj hset)
  have hw := hslot.trans hw
  exact ⟨is, s, hw.code_eq, congrArg _ hw.locals_eq, ht⟩

/-- The parameters that a function owns are copied, in order. -/
lemma copies_writes (he : Furnishes env e) (params : List Param) (ins : List Operand) :
    ∀ {as : List Param} {b b' : Builder}, (as.map Param.localId).Nodup →
    (∀ a ∈ as, IsTreated e a.type ∧
      ∃ o, (a, o) ∈ params.zip ins ∧ b.locals.lookup a.localId = some (.memory o)) →
    Runs env (as.forM ownCopy) b () b' →
    ∃ pieces, b'.code = b.code ++ pieces.flatten ∧
      List.Forall₂ (CopiesParam e params ins) as pieces ∧
      ∀ i ∉ as.map Param.localId, b'.locals.lookup i = b.locals.lookup i
  | [], b, b', _, _, h => by
    obtain ⟨-, rfl⟩ := h.of_pure
    exact ⟨[], by simp, .nil, fun _ _ => rfl⟩
  | a :: as, b, b', hn, has, h => by
    obtain ⟨⟨ht, o, hmem, ho⟩, has⟩ := List.forall_mem_cons.1 has
    obtain ⟨hnew, hn⟩ := List.nodup_cons.1 hn
    obtain ⟨⟨⟩, b₁, h₁, h⟩ := h.of_bind
    obtain ⟨is, s, hcode, hlocals, htreats⟩ := ownCopy_writes he ht ho h₁
    have other : ∀ i, i ≠ a.localId → b₁.locals.lookup i = b.locals.lookup i := fun i hi => by
      rw [hlocals, List.lookup_cons, beq_false_of_ne hi]
    have has' : ∀ x ∈ as, IsTreated e x.type ∧
        ∃ o, (x, o) ∈ params.zip ins ∧ b₁.locals.lookup x.localId = some (.memory o) := by
      intro x hx
      rw [other _ fun he => hnew (he ▸ List.mem_map_of_mem hx)]
      exact has x hx
    obtain ⟨pieces, hcode', hall, hframe⟩ := copies_writes he params ins hn has' h
    refine ⟨is :: pieces, by rw [hcode', hcode, List.flatten_cons, List.append_assoc],
      .cons ⟨o, s, hmem, htreats⟩ hall, fun i hi => ?_⟩
    rw [hframe i fun h => hi (List.mem_cons_of_mem _ h)]
    exact other i fun he => hi (he ▸ List.mem_cons_self)

/-- The results of a function are constructed, in order. -/
lemma results_write (he : Furnishes env e) (hidden : List Operand)
    (has : ∀ a ∈ as, IsTreated e a.type ∧
      ∃ o, (a, o) ∈ as.zip hidden ∧ b.locals.lookup a.localId = some (.memory o))
    (h : Runs env (as.forM fun a => do defaultValue (← paramPlace a)) b () b') :
    ∃ pieces, Writes b pieces.flatten b' ∧ List.Forall₂ (ConstructsResult e as hidden)
      as pieces := by
  refine forM_writes rfl (fun a ha c c' hc hrun => ?_) h
  obtain ⟨ht, o, hmem, ho⟩ := has a ha
  obtain ⟨q, b₁, hq, hdefault⟩ := hrun.of_bind
  obtain ⟨rfl, rfl⟩ := paramPlace_eq (hc ▸ ho) hq
  obtain ⟨is, hw, ht⟩ := treat_writes (x := .construct) (p := .memory o none a.type)
    (q := .memory o none a.type) he trivial trivial ht.1 ht.2 rfl hdefault
  exact ⟨is, hw, o, hmem, ht⟩

/-- **The opening of a function**: its parameters are the instance, the values that it takes, and
the addresses of results. The values that it may change are copied, and the results are
constructed. -/
structure OpensWith (e : Elaborated) (f : MemberFunction) (params inst ins hidden : List Operand)
    (copies results : List (List Instr)) : Prop where
  params_eq : params = inst ++ ins ++ hidden
  self_length : inst.length = if f.hasSelf then 1 else 0
  ins_length : ins.length = f.sig.params.length
  hidden_length : hidden.length = f.sig.hiddenResults.length
  copies_all : List.Forall₂ (CopiesParam e f.sig.params ins) (copied f) copies
  results_all : List.Forall₂ (ConstructsResult e f.sig.hiddenResults hidden) f.sig.hiddenResults
    results

/-- The state after the opening, in which the parameters that are not copied are where they were. -/
structure IsOpened (e : Elaborated) (f : MemberFunction) (q : List Operand × List Operand)
    (inst ins hidden : List Operand) (copies results : List (List Instr)) (b : Builder) : Prop
    extends OpensWith e f q.1 inst ins hidden copies results where
  code_eq : b.code = copies.flatten ++ results.flatten
  self_bound : ∀ o ∈ inst, b.locals.lookup f.selfId = some (.memory o)
  params_bound : ∀ a o, (a, o) ∈ f.sig.params.zip ins → isByAddress a.type → a ∉ copied f →
    b.locals.lookup a.localId = some (.memory o)

/-- Functions whose types lowering can treat. -/
structure IsTreatable (e : Elaborated) (f : MemberFunction) : Prop where
  valid : e.program.ValidFunc f
  named : ∀ a ∈ f.sig.params ++ f.sig.results, a.type.IsNamed

/-- Each parameter has an operand. -/
lemma exists_mem_zip (h : os.length = as.length) (ha : a ∈ as) : ∃ o, (a, o) ∈ as.zip os := by
  obtain ⟨i, hi, rfl⟩ := List.getElem_of_mem ha
  refine ⟨os[i], List.mem_iff_getElem.2 ⟨i, ?_, List.getElem_zip⟩⟩
  rw [List.length_zip]
  omega

/-- **What is bound** before the code of a function begins. -/
structure IsBound (f : MemberFunction) (inst ins hidden : List Operand) (b : Builder) : Prop where
  code_eq : b.code = []
  self_length : inst.length = if f.hasSelf then 1 else 0
  ins_length : ins.length = f.sig.params.length
  hidden_length : hidden.length = f.sig.hiddenResults.length
  self_bound : ∀ o ∈ inst, b.locals.lookup f.selfId = some (.memory o)
  params_bound : ∀ a o, (a, o) ∈ f.sig.params.zip ins → isByAddress a.type →
    b.locals.lookup a.localId = some (.memory o)
  results_bound : ∀ a o, (a, o) ∈ f.sig.hiddenResults.zip hidden →
    b.locals.lookup a.localId = some (.memory o)

/-- The numbers of the locals of a function are all different. -/
lemma localIds_apart (hf : IsTreatable e f) :
    (f.sig.params.map Param.localId).Nodup ∧ (f.sig.results.map Param.localId).Nodup ∧
      (f.sig.params.map Param.localId).Disjoint (f.sig.results.map Param.localId) ∧
      f.selfId ∉ f.sig.params.map Param.localId ∧ f.selfId ∉ f.sig.results.map Param.localId := by
  obtain ⟨hself, hids⟩ := List.nodup_cons.1 hf.valid.locals_nodup
  rw [List.map_append] at hself hids
  obtain ⟨hparams, hresults, hdisj⟩ := List.nodup_append'.1 hids
  exact ⟨hparams, hresults, hdisj, fun h => hself (List.mem_append_left _ h),
    fun h => hself (List.mem_append_right _ h)⟩

/-- A result that the caller provides storage for is passed by address. -/
lemma isByAddress_of_mem_hiddenResults (ha : a ∈ f.sig.hiddenResults) : isByAddress a.type := by
  simp [isByAddress, isAtomic_of_mem_hiddenResults ha]

/-- The parameters and results are bound in turn. -/
lemma isBound_of_runs (hf : IsTreatable e f) {b₁ b₂ : Builder} {inst ins hidden outs : List Operand}
    {b₀ : Builder} (hb : b₀.code = []) (hlen : inst.length = if f.hasSelf then 1 else 0)
    (hself : ∀ o ∈ inst, b₀.locals.lookup f.selfId = some (.memory o))
    (hins : Runs env (f.sig.params.mapM bindParam) b₀ ins b₁)
    (hhidden : Runs env (f.sig.hiddenResults.mapM bindAddress) b₁ hidden b₂)
    (houts : Runs env (f.sig.valueResults.mapM bindValue) b₂ outs b) :
    IsBound f inst ins hidden b := by
  obtain ⟨hparams, hresults, hdisj, hselfP, hselfR⟩ := localIds_apart hf
  have hhiddenSub : f.sig.hiddenResults.Sublist f.sig.results := List.filter_sublist
  have hvalueSub : f.sig.valueResults.Sublist f.sig.results := List.filter_sublist
  have h₁ : Binding f.sig.params ins b₀ b₁ :=
    mapM_binding (fun a _ => bindParam_bindsOne a) hparams hins
  have h₂ : Binding f.sig.hiddenResults hidden b₁ b₂ := mapM_binding
    (fun a _ => bindAddress_bindsOne a) (hresults.sublist (hhiddenSub.map _)) hhidden
  have h₃ : Binding f.sig.valueResults outs b₂ b := by
    refine mapM_binding (fun a ha => bindValue_bindsOne ?_)
      (hresults.sublist (hvalueSub.map _)) houts
    simp [isByAddress, isAtomic_of_mem_valueResults hf.valid ha,
      (hf.valid.results_valid a (hvalueSub.subset ha)).2.2]
  -- What is no result stays where it was when the results are bound.
  have frame : ∀ i ∉ f.sig.results.map Param.localId,
      b.locals.lookup i = b₁.locals.lookup i := fun i hi =>
    (h₃.frame i fun h => hi ((hvalueSub.map _).subset h)).trans
      (h₂.frame i fun h => hi ((hhiddenSub.map _).subset h))
  refine ⟨?_, hlen, h₁.length_eq, h₂.length_eq, fun o ho => ?_, fun a o hmem hby => ?_,
    fun a o hmem => ?_⟩
  · rw [h₃.code_eq, h₂.code_eq, h₁.code_eq, hb]
  · rw [frame _ hselfR, h₁.frame _ hselfP]
    exact hself o ho
  · rw [frame _ (hdisj (List.mem_map_of_mem (List.of_mem_zip hmem).1))]
    exact h₁.lookup_eq a o hmem hby
  · have ha := (List.of_mem_zip hmem).1
    rw [h₃.frame _ fun h => ?_]
    · exact h₂.lookup_eq a o hmem (isByAddress_of_mem_hiddenResults ha)
    · obtain ⟨w, hw, heq⟩ := List.mem_map.1 h
      obtain rfl := List.inj_on_of_nodup_map hresults (hvalueSub.subset hw)
        (hhiddenSub.subset ha) heq
      simpa [(List.mem_filter.1 ha).2] using (List.mem_filter.1 hw).2

/-- Once all is bound, parameters are copied and results are constructed. -/
lemma isOpened_of_runs (he : Furnishes env e) (hf : IsTreatable e f)
    {inst ins hidden outs : List Operand} (hb : IsBound f inst ins hidden b)
    {b₁ : Builder} (hcopies : Runs env ((copied f).forM ownCopy) b () b₁)
    (hres : Runs env (f.sig.hiddenResults.forM fun p => do defaultValue (← paramPlace p))
      b₁ () b') :
    ∃ copies results, IsOpened e f (inst ++ ins ++ hidden, outs) inst ins hidden copies results
      b' := by
  obtain ⟨hparams, hresults, hdisj, hselfP, -⟩ := localIds_apart hf
  have hsub : (copied f).Sublist f.sig.params := List.filter_sublist
  have treated : ∀ a ∈ f.sig.params ++ f.sig.results, IsTreated e a.type := fun a ha =>
    ⟨(List.mem_append.1 ha).elim (fun h => (hf.valid.params_valid a h).1)
      fun h => (hf.valid.results_valid a h).1, hf.named a ha⟩
  obtain ⟨copies, hcode, hall, hframe⟩ := copies_writes he f.sig.params ins
    (hparams.sublist (hsub.map _)) (fun a ha => by
      obtain ⟨o, ho⟩ := exists_mem_zip hb.ins_length (hsub.subset ha)
      refine ⟨treated a (List.mem_append_left _ (hsub.subset ha)), o, ho,
        hb.params_bound a o ho ?_⟩
      have := (List.mem_filter.1 ha).2
      simp only [Bool.and_eq_true, Bool.not_eq_true'] at this
      simp [isByAddress, this.1]) hcopies
  have frame : ∀ i ∉ f.sig.params.map Param.localId, b₁.locals.lookup i = b.locals.lookup i :=
    fun i hi => hframe i fun h => hi ((hsub.map _).subset h)
  obtain ⟨results, hw, hall'⟩ := results_write he hidden (fun a ha => by
    have hmem : a ∈ f.sig.results := (List.mem_filter.1 ha).1
    obtain ⟨o, ho⟩ := exists_mem_zip hb.hidden_length ha
    refine ⟨treated a (List.mem_append_right _ hmem), o, ho, ?_⟩
    rw [frame _ fun h => hdisj h (List.mem_map_of_mem hmem)]
    exact hb.results_bound a o ho) hres
  refine ⟨copies, results, ⟨rfl, hb.self_length, hb.ins_length, hb.hidden_length, hall, hall'⟩, ?_,
    fun o ho => ?_, fun a o hmem hby hnot => ?_⟩
  · rw [hw.code_eq, hcode, hb.code_eq, List.nil_append]
  · rw [hw.locals_eq, frame _ hselfP]
    exact hb.self_bound o ho
  · rw [hw.locals_eq, hframe _ fun h => ?_]
    · exact hb.params_bound a o hmem hby
    · obtain ⟨w, hw', heq⟩ := List.mem_map.1 h
      obtain rfl := List.inj_on_of_nodup_map hparams (hsub.subset hw') (List.of_mem_zip hmem).1 heq
      exact hnot hw'

/-- Everything after the instance is bound. -/
lemma exists_isOpened (he : Furnishes env e) (hf : IsTreatable e f) {inst : List Operand}
    {q : List Operand × List Operand} (hb : b.code = [])
    (hlen : inst.length = if f.hasSelf then 1 else 0)
    (hself : ∀ o ∈ inst, b.locals.lookup f.selfId = some (.memory o))
    (h : Runs env (do
      let ins ← f.sig.params.mapM bindParam
      let hidden ← f.sig.hiddenResults.mapM bindAddress
      let outs ← f.sig.valueResults.mapM bindValue
      (copied f).forM ownCopy
      f.sig.hiddenResults.forM fun p => do defaultValue (← paramPlace p)
      return (inst ++ ins ++ hidden, outs)) b q b') :
    ∃ ins hidden copies results, IsOpened e f q inst ins hidden copies results b' := by
  obtain ⟨ins, b₁, hins, h₁⟩ := h.of_bind
  obtain ⟨hidden, b₂, hhidden, h₂⟩ := h₁.of_bind
  obtain ⟨outs, b₃, houts, h₃⟩ := h₂.of_bind
  obtain ⟨⟨⟩, b₄, hcopies, h₄⟩ := h₃.of_bind
  obtain ⟨⟨⟩, b₅, hres, h₅⟩ := h₄.of_bind
  obtain ⟨rfl, rfl⟩ := h₅.of_pure
  have hbound := isBound_of_runs hf hb hlen hself hins hhidden houts
  obtain ⟨copies, results, hopens⟩ := isOpened_of_runs he hf hbound hcopies hres
  exact ⟨ins, hidden, copies, results, hopens⟩

/-- **The opening copies parameters and constructs results.** -/
theorem prologue_opens (he : Furnishes env e) (hf : IsTreatable e f)
    {q : List Operand × List Operand} (hb : b = {}) (h : Runs env (prologue f) b q b') :
    ∃ inst ins hidden copies results, IsOpened e f q inst ins hidden copies results b' := by
  unfold prologue at h
  split at h
  · rename_i hself
    obtain ⟨v, b₁, hv, h₁⟩ := h.of_bind
    obtain ⟨⟨⟩, b₂, hset, h₂⟩ := h₁.of_bind
    obtain ⟨inst, b₃, hpure, h₃⟩ := h₂.of_bind
    obtain ⟨rfl, rfl⟩ := hpure.of_pure
    obtain ⟨rfl, rfl⟩ := Prod.mk.inj (Except.ok.inj hv)
    obtain ⟨-, rfl⟩ := Prod.mk.inj (Except.ok.inj hset)
    exact ⟨_, exists_isOpened he hf (by rw [hb]) (by simp [hself])
      (fun o ho => by simp [List.mem_singleton.1 ho]) h₃⟩
  · rename_i hself
    obtain ⟨inst, b₃, hpure, h₃⟩ := h.of_bind
    obtain ⟨rfl, rfl⟩ := hpure.of_pure
    exact ⟨_, exists_isOpened he hf (by rw [hb]) (by simp [hself]) (List.forall_mem_nil _) h₃⟩

end Opening

/-! ## Functions of the compiler -/

section Generated

variable {env : Env} {e : Elaborated} {f : MemberFunction} {b b' : Builder}

/-- A member variable of the instance at an address. -/
def memberAt (o : Operand) (m : StructMember) (v : MemberVar) : Place :=
  .memory o (some (Offset.step none m)) v.type

/-- **The treatment of a member variable**, as the layout of the class places it. -/
def TreatsMember (e : Elaborated) (l : Layouts) (f : MemberFunction) (o other : Operand)
    (v : MemberVar) (is : List Instr) : Prop :=
  ∃ s m, l.struct? f.cls = some s ∧ s.member? v.name = some m ∧
    Treats e (.ofFunction f) (memberAt o m v) (memberAt other m v) is

/-- The layout entry of a member variable is looked up. -/
lemma memberOf_eq {v : MemberVar} {m : StructMember} (h : Runs env (memberOf v) b m b') :
    ∃ s, env.layouts.struct? v.cls = some s ∧ s.member? v.name = some m ∧ b' = b := by
  obtain ⟨_, b₁, hread, h₁⟩ := h.of_bind
  obtain ⟨rfl, rfl⟩ := Prod.mk.inj (Except.ok.inj hread)
  split at h₁
  · exact absurd h₁ not_runs_throw
  · rename_i s hs
    cases hm : s.member? v.name with
    | none =>
      rw [hm] at h₁
      exact absurd h₁ not_runs_throw
    | some m' =>
      rw [hm] at h₁
      obtain ⟨rfl, rfl⟩ := h₁.of_pure
      exact ⟨s, hs, hm, rfl⟩

/-- Member variables are treated one after the other. -/
lemma members_write (he : Furnishes env e) (hf : e.program.Declares f) (o other : Operand)
    (h : Runs env (((e.program.classOf f.cls).vars).forM fun v => do
      let m ← memberOf v
      treat (.ofFunction f) (memberAt o m v) (memberAt other m v)) b () b') :
    ∃ pieces, Writes b pieces.flatten b' ∧
      List.Forall₂ (TreatsMember e env.layouts f o other)
        (e.program.classOf f.cls).vars pieces := by
  obtain ⟨c, hc, hfc⟩ := hf
  have hvalid := he.program_wf.classes_valid c hc
  obtain ⟨hcls, -⟩ := hvalid.funcs_own f hfc
  rw [hcls, he.program_wf.classOf_eq hc] at h ⊢
  refine forM_writes rfl (fun v hv d d' _ hrun => ?_) h
  obtain ⟨m, d₁, hmember, htreat⟩ := hrun.of_bind
  obtain ⟨s, hs, hm, rfl⟩ := memberOf_eq hmember
  obtain ⟨hvc, hvt⟩ := hvalid.vars_own v hv
  obtain ⟨is, hw, ht⟩ := treat_writes (p := memberAt o m v) (q := memberAt other m v) he trivial
    trivial hvt ((he.orderly c hc).vars_named v hv) rfl htreat
  exact ⟨is, hw, s, m, by rw [hcls, ← hvc]; exact hs, hm, ht⟩

end Generated

/-! ## Functions -/

end Lane.Lowering

namespace Lane.Accepted

open Code Lowering

variable {file name : String} {text : List Rune} {e : Elaborated} {width : Int} {ds : Diagnostics}
  {p : LoweredProgram}

/-- The classes of an accepted program have the functions that every class has. -/
lemma furnishes (h : Accepted file text e) (l : Layouts) (width : Nat) (current : FuncDecl) :
    Furnishes (envOf e l width current) e := by
  have hwf := h.typed.program_wf
  obtain ⟨tree, ds, -, rfl, hok⟩ := h
  exact ⟨rfl, hwf, Elaborated.orderly_of_isOk tree ds hok, Elaborated.equipped_of_isOk tree ds hok,
    fun f hf => exists_number hwf hf⟩

/-- A declared function of an accepted program can be treated. -/
lemma isTreatable (h : Accepted file text e) {f : MemberFunction} (hf : e.program.Declares f) :
    IsTreatable e f := by
  refine ⟨hf.validFunc h.typed.program_wf, ?_⟩
  obtain ⟨tree, ds, -, rfl, hok⟩ := h
  obtain ⟨c, hc, hfc⟩ := hf
  exact (Elaborated.orderly_of_isOk tree ds hok c hc).funcs_named f hfc

end Lane.Accepted
