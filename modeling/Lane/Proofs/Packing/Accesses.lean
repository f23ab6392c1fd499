import Lane.Proofs.Packing.Program

set_option relaxedAutoImplicit false
set_option autoImplicit false

/-!
# Accesses of packed memory

Packed code reads and writes memory once where scalar code does. A path into packed memory leads to
the packed member at that address, which is accessed in its own form. An address without a path is
accessed as one value for each instance, and that is the form of every member that it may be the
address of, unless these hold truth values or addresses. An address that is not known to be packed
is accessed as in scalar code.

## Main definitions

* `Lane.Packing.IsMemberFor`: packed members that hold values of a machine type.
* `Lane.Packing.Accessed`: how packed code accesses memory.
* `Lane.Packing.KeepsLayouts`: packed code that accesses memory so.
* `Lane.Packing.Task.KeepsLayouts`: packed functions with such code.

## Main results

* `Lane.Packing.Stored.accessed`: packed accesses have the form of the packed member, or the form of
  all members but masks and addresses.
* `Lane.Accepted.packed_keepsLayouts`: the accesses of the functions of a packed program.
-/

namespace Lane.Packing

open Code Lowering

variable {p : Program} {l : PackedLayouts} {W : Nat} {t u : VType} {o o' : Option Offset}
  {x : PackedMember} {lane : LaneKind}

/-- **Packed members for values** of a machine type: those for member variables of this type. -/
def IsMemberFor (p : Program) (l : PackedLayouts) (t : VType) (x : PackedMember) : Prop :=
  ∃ d ∈ p.classes, ∃ v ∈ d.vars, v.type.isAtomic ∧ v.type.code = t ∧
    l.members.lookup (d.name, v.name) = some x

/-- **How packed code accesses memory** where scalar code accesses a value of type `t`. A path leads
to a packed member, which is accessed as it is. Without a path, just members that hold neither truth
values nor addresses are accessed as they are. -/
inductive Accessed (p : Program) (l : PackedLayouts) (t : VType) :
    LaneKind → Option Offset → Option Offset → VType → Prop
  | member {o : Option Offset} {off : Offset} {x : PackedMember} {u : VType}
      (ho : ¬Offset.isTrivial o) (hoff : l.offset? o = some (off, x))
      (hu : x.member.type? = some u) : Accessed p l t .packed o (some off) u
  | whole {o o' : Option Offset} {u : VType} (ho : Offset.isTrivial o) (ho' : Offset.isTrivial o')
      (hu : ∀ x, IsMemberFor p l t x → (x.member.type? = some u ↔ t ≠ .bool ∧ t ≠ .ptr)) :
      Accessed p l t .packed o o' u
  | shared {o : Option Offset} : Accessed p l t .uniform o o t

/-- **Packed code that keeps to the layouts**, with the counterparts `ops` of operands: it accesses
memory where the scalar instruction does, once, at the counterpart of the address, and computes the
address of a packed member where that computes the address of a member. Of addresses that differ
between the instances nothing is said. -/
structure KeepsLayouts (p : Program) (l : PackedLayouts) (lanes : Lanes)
    (ops : List (Operand × Operand)) (i : Instr) (js : List Instr) : Prop where
  access_eq : i.access? = none → js.filterMap Instr.access? = []
  access : ∀ a o t, i.access? = some (a, o, t) → lanes.get a ≠ .varying →
    ∃ b o' u, ops.lookup a = some b ∧ js.filterMap Instr.access? = [(b, o', u)] ∧
      Accessed p l t (lanes.get a) o o' u
  address : ∀ d a o, i = .lea d a o → lanes.get a ≠ .varying →
    ∃ n b o', ops.lookup d = some n ∧ ops.lookup a = some b ∧ js = [.lea n b o'] ∧
      Placed l (lanes.get a) (lanes.get d) o o'

/-- **Packed functions that keep to the layouts**: all code of the function does, and the parameters
and results are the counterparts of those of the function. -/
structure Task.KeepsLayouts (e : Elaborated) (p : LoweredProgram) (ds : Diagnostics) (t : Task)
    (g : Function) : Prop where
  params : List.Forall₂ (fun o n => (t.counterparts e p ds).lookup o = some n) t.scalar.params
    g.params
  results : List.Forall₂ (fun o n => (t.counterparts e p ds).lookup o = some n) t.scalar.results
    g.results
  code : ∃ jss : List (List Instr), g.body = Function.frame jss.flatten ∧
    List.Forall₂ (Packing.KeepsLayouts e.program (layoutsOf e p ds) (t.lanes e p (layoutsOf e p ds))
      (t.counterparts e p ds)) t.scalar.instrs jss

/-- A packed member has one lane of its values for each instance unless it holds truth values or
addresses. -/
lemma TakesForm.type?_eq_iff {v : MemberVar} {n : Nat} (hW : 2 ≤ W)
    (h : TakesForm W ((VType.scalar (.intOfSize n)).vector W) v x) (hv : v.type.isAtomic) :
    x.member.type? = some (v.type.code.vector W) ↔ v.type.code ≠ .bool ∧ v.type.code ≠ .ptr := by
  have hlanes : v.type.code.lanes = 0 := lanes_code _
  have hscalar : ∀ k, v.type.code.kind = k → v.type.code = .scalar k := by
    rintro k rfl
    rw [VType.scalar, ← hlanes]
  have htype : x.member.type? = some (packValue W ((VType.scalar (.intOfSize n)).vector W)
      v.type.code).1 := by
    rw [StructMember.type?, (h hv).1]
  rw [htype, Option.some.injEq]
  unfold packValue
  split
  · -- The lanes of a mask are no truth values.
    rename_i hk
    refine iff_of_false (fun heq => ?_) fun hne => hne.1 (hscalar _ hk)
    have hint := isInteger_intOfSize n
    rw [show Kind.intOfSize n = v.type.code.kind from congrArg VType.kind heq, hk] at hint
    cases hint
  · -- There is one address, and not several.
    rename_i hk
    refine iff_of_false (fun heq => ?_) fun hne => hne.2 (hscalar _ hk)
    have hW' : v.type.code.lanes = W := congrArg VType.lanes heq
    omega
  · rename_i hbool hptr
    exact iff_of_true rfl ⟨fun hb => hbool (congrArg VType.kind hb),
      fun hp => hptr (congrArg VType.kind hp)⟩

/-- **Packed accesses** have the form of the packed member that a path leads to, or the form of all
members that hold neither truth values nor addresses. -/
theorem Stored.accessed (hp : p.WellFormed) {layouts : Layouts} (hl : layouts.Fit p)
    (ds : Diagnostics) (hW : 2 ≤ W)
    (h : Stored (packAll p layouts W ds) W t lane o o' u) :
    Accessed p (packAll p layouts W ds) t lane o o' u := by
  cases h with
  | member ho hoff _ hu => exact .member ho hoff hu
  | whole ho ho' =>
    refine .whole ho ho' fun x ⟨d, hd, v, hv, hatomic, hcode, hx⟩ => ?_
    obtain ⟨d', hd', v', hv', hkey, hform⟩ := isEntry_of_lookup hp hl ds hx
    obtain ⟨hdname, hvname⟩ := Prod.mk.inj hkey
    obtain rfl := List.inj_on_of_nodup_map hp.names_nodup hd hd' hdname
    obtain rfl := List.inj_on_of_nodup_map (hp.classes_valid d hd).var_names hv hv' hvname
    rw [← hcode]
    exact hform.type?_eq_iff hW hatomic
  | shared => exact .shared

end Lane.Packing

namespace Lane.Accepted

open Code Lowering Packing

variable {file name : String} {text : List Rune} {e : Elaborated} {width : Int}
  {ds ds' : Diagnostics} {p : LoweredProgram}

/-- **How packed functions access memory**: once where the scalar function does, at the counterpart
of the address, unless the address differs between the instances. What is accessed through a path
into packed memory has the form of the packed member there, and so has what is accessed without a
path, unless it holds truth values or addresses. Parameters and results are counterparts, too. -/
theorem packed_keepsLayouts (h : Accepted file text e) (hp : (e.lower name width ds).2 = .ok p)
    (hok : p.isOk) (hW : 2 ≤ p.width) {q : PackedProgram} (hq : (p.pack e ds').2 = .ok q)
    (hqok : q.isOk) :
    ∃ gs, q.module.functions = p.module.functions ++ gs ∧
      List.Forall₂ (Task.KeepsLayouts e p ds')
        (tasks e p (layoutsOf e p ds')) gs := by
  obtain ⟨-, hlayouts, -⟩ := h.typed.of_lower_isOk hp hok
  have hfit : p.layouts.Fit e.program := hlayouts ▸ layoutAll_fit h.typed.program_wf ds
  obtain ⟨gs, hgs, hall⟩ := h.forall₂_of_pack hp hok hW hq hqok rfl
  refine ⟨gs, hgs, hall.imp fun t g ⟨hg, hs, _⟩ => ?_⟩
  obtain ⟨⟨jss, hbody, hjss⟩, hparams, hresults, -⟩ := packFunction_packed hs hg
  refine ⟨hparams, hresults, jss, hbody, hjss.imp fun i js hpacked =>
    ⟨hpacked.access_eq, fun a o v hi ha => ?_, hpacked.address⟩⟩
  obtain ⟨b, o', u, hb, hacc, hstored⟩ := hpacked.access a o v hi ha
  exact ⟨b, o', u, hb, hacc, hstored.accessed h.typed.program_wf hfit ds' hW⟩

/-- A program that accesses memory through a path: the member holds truth values. -/
def flipsMember : String :=
  "simd class P { var a: bool; simd writer w() { self.a = not self.a; } }"

/-- A packed function that accesses memory through a path. -/
theorem packed_keepsLayouts_not : ∃ e p q, vectorize? flipsMember = some (e, p, q) ∧
    p.isOk ∧ 2 ≤ p.width ∧ q.isOk ∧ p.module.functions.length < q.module.functions.length ∧
    ∃ gs, q.module.functions = p.module.functions ++ gs ∧
      List.Forall₂ (Task.KeepsLayouts e p {})
        (tasks e p (layoutsOf e p {})) gs := by
  have hrun : (vectorize? flipsMember).any fun (_, p, q) => p.isOk && decide (2 ≤ p.width) &&
      q.isOk && decide (p.module.functions.length < q.module.functions.length) := by
    rw [vectorize?, compile?, flipsMember, Rune.ascii_ofList]
    decide +kernel
  obtain ⟨⟨e, p, q⟩, hv, hrun⟩ := (Option.any_eq_true ..).1 hrun
  simp only [Bool.and_eq_true, decide_eq_true_eq] at hrun
  obtain ⟨⟨⟨hok, hW⟩, hqok⟩, hlen⟩ := hrun
  obtain ⟨hacc, hp, hq⟩ := of_vectorize? hv
  exact ⟨e, p, q, hv, hok, hW, hqok, hlen, hacc.packed_keepsLayouts hp hok hW hq hqok⟩

/-- Whether an instruction calls a function with these arguments. -/
def callsWith (c : FuncDecl) (ins : List Operand) : Instr → Bool
  | .call c' ins' _ => c' = c ∧ ins' = ins
  | _ => false

/-- Whether an instruction accesses memory at an address without a path, and not in this form. -/
def accessesNotAs (a : Operand) (t : VType) (i : Instr) : Bool :=
  match i.access? with
  | some (b, none, u) => b = a ∧ u ≠ t
  | _ => false

/-- A program that passes the address of a packed member to a parameter that is `ref`. -/
def passesMember : String :=
  "simd class P { var a: bool; simd routine s(b: ref bool) { b = true; }
    simd writer w() { s(self.a); } }"

/-- A packed member that is not accessed in its own form: its address, which is that of the
instance, is passed to a parameter that is `ref`, and there the truth values are no mask. -/
theorem not_accessed_ref : ∃ e p q, vectorize? passesMember = some (e, p, q) ∧ p.isOk ∧ q.isOk ∧
    ∃ f ∈ q.module.functions.drop p.module.functions.length,
    ∃ g ∈ q.module.functions.drop p.module.functions.length,
    ∃ a t x, f.body.any (callsWith g.decl f.params) ∧ f.params.length = 1 ∧ g.params = [a] ∧
      (layoutsOf e p {}).members.lookup ("P", "a") = some x ∧ x.member.offset = 0 ∧
      x.member.type? = some t ∧ g.body.any (accessesNotAs a t) := by
  have hrun : (vectorize? passesMember).any fun (e, p, q) => p.isOk && q.isOk &&
      (q.module.functions.drop p.module.functions.length).any fun f =>
        (q.module.functions.drop p.module.functions.length).any fun g =>
          f.body.any (callsWith g.decl f.params) && decide (f.params.length = 1) &&
          decide (g.params.length = 1) &&
          g.params.any fun a => ((layoutsOf e p {}).members.lookup ("P", "a")).any fun x =>
            decide (x.member.offset = 0) && x.member.type?.any fun t =>
              g.body.any (accessesNotAs a t) := by
    rw [vectorize?, compile?, passesMember, Rune.ascii_ofList]
    decide +kernel
  obtain ⟨⟨e, p, q⟩, hv, hrun⟩ := (Option.any_eq_true ..).1 hrun
  simp only [Bool.and_eq_true] at hrun
  obtain ⟨⟨hok, hqok⟩, hrun⟩ := hrun
  obtain ⟨f, hf, hrun⟩ := List.any_eq_true.1 hrun
  obtain ⟨g, hg, hrun⟩ := List.any_eq_true.1 hrun
  simp only [Bool.and_eq_true, decide_eq_true_eq] at hrun
  obtain ⟨⟨⟨hcall, hlen⟩, hone⟩, hrun⟩ := hrun
  obtain ⟨a, ha, hrun⟩ := List.any_eq_true.1 hrun
  obtain ⟨x, hx, hrun⟩ := (Option.any_eq_true ..).1 hrun
  simp only [Bool.and_eq_true, decide_eq_true_eq] at hrun
  obtain ⟨hoffset, hrun⟩ := hrun
  obtain ⟨t, ht, haccess⟩ := (Option.any_eq_true ..).1 hrun
  obtain ⟨b, hb⟩ := List.length_eq_one_iff.1 hone
  obtain rfl : a = b := by simpa [hb] using ha
  exact ⟨e, p, q, hv, hok, hqok, f, hf, g, hg, a, t, x, hcall, hlen, hb, hx, hoffset, ht, haccess⟩

end Lane.Accepted
