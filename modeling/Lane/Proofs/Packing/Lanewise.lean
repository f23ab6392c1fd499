import Lane.Proofs.Lowering.Containers
import Lane.Proofs.Packing.Additions
import Lane.Proofs.Packing.Plain

set_option relaxedAutoImplicit false
set_option autoImplicit false

/-!
# Packed functions work lane by lane

A packed function does in each lane what the function does for one instance. Where the lanes of
packed memory and of its variables hold what is in memory and in variables in as many runs of the
function, the packed function comes to an end if and only if all runs do, and the lanes hold the
results of the runs.

## Main definitions

* `Lane.Packing.Task.Uses`: the regions of memory on which a function works.
* `Lane.Packing.Task.IsPlaced`: instances that are the same or disjoint, in all runs alike.
* `Lane.Packing.Task.InLanes`: runs whose states are in the lanes of packed code.
* `Lane.Packing.Task.WorksLanewise`: packed functions that do the work of all runs.

## Main results

* `Lane.Accepted.packed_worksLanewise`: the packed functions of accepted programs.
-/

namespace Lane.Packing

open Code Lowering
open Code.Wide (Ends MirrorsAll)

/-! ## Runs in lanes -/

namespace Task

section Defs

variable (e : Elaborated) (p : LoweredProgram) (ds : Diagnostics) (t : Task)

/-- The counterpart of an operand. -/
def counterpart (o : Operand) : Operand := ((t.counterparts e p ds).lookup o).getD .absent

/-- **The regions on which a function works**: instances of classes that are passed to it or are in
its stack slots, and slots for single scalars. -/
def Uses (r : Region) : Prop :=
  (∃ n, (t.counterparts e p ds).lookup r.base = some n) ∧
    match r with
    | .object o c => Instances e.program p.layouts t.fn t.scalar.params o c
    | .spilled s => s.struct = none

/-- The addresses of regions in runs of the function. -/
def bases (s : Nat → Wide.State) (i : Nat) (o : Operand) : Word := (s i).lane o 0

/-- The addresses of regions in packed memory. -/
def packedBases (u : Wide.State) (o : Operand) : Word := u.lane (t.counterpart e p ds o) 0

/-- **Instances are the same or disjoint**, in the same way in all runs and in packed memory. -/
def IsPlaced (s : Nat → Wide.State) (u : Wide.State) : Prop :=
  ArePlaced p.layouts (t.widenEnv e p ds) (bases s) (t.packedBases e p ds u) (t.Uses e p ds)

/-- **Runs in lanes**: run `i` has the values that are in lane `i` of packed code, in variables and
in regions of memory. What is not a vector has the value of all runs. Registers do not matter: they
are not used before they are assigned. -/
structure InLanes (I : Operators) (s : Nat → Wide.State) (u : Wide.State) : Prop where
  values : ∀ o n, (t.counterparts e p ds).lookup o = some n → IsPlainOperand o → o.reg? = none →
    ∀ i < p.width, u.lane n (laneAt n i) = (s i).lane o 0
  scalars : ∀ r, t.Uses e p ds r → ∀ c, r.Holds e.program p.layouts (t.widenEnv e p ds) c →
    c.Holds I p.width (bases s) (t.packedBases e p ds u) s u

/-- **Packed functions that work lane by lane**, from states: they come to an end if and only if all
runs of the function do, the runs are in its lanes afterwards, and each lane of a result has the
result of the run. -/
structure WorksLanewise (g : Function) (I : Operators) (s : Nat → Wide.State) (u : Wide.State) :
    Prop where
  ends_iff : (∃ u', Ends I g.body g.body u u') ↔
    ∀ i < p.width, ∃ s', Ends I t.scalar.body t.scalar.body (s i) s'
  afterwards : ∀ (s' : Nat → Wide.State) (u' : Wide.State),
    (∀ i < p.width, Ends I t.scalar.body t.scalar.body (s i) (s' i)) → Ends I g.body g.body u u' →
    t.InLanes e p ds I s' u' ∧ ∀ i < p.width,
      List.Forall₂ (fun o n => u'.lane n i = (s' i).lane o 0) t.scalar.results g.results

end Defs

/-! ## What is known about a function -/

section Packed

variable {e : Elaborated} {p : LoweredProgram} {ds : Diagnostics} {t : Task} {g : Function}
  {σ₁ σ₂ F : WidenState} {I : Operators} {s s' : Nat → Wide.State} {u u' : Wide.State}

/-- The counterparts of what is in no register are in no register. -/
lemma reg?_counterpart (hord : Orderly (t.widenEnv e p ds) F)
    (hF : t.counterparts e p ds = F.operands)
    {o n : Operand} (hn : (t.counterparts e p ds).lookup o = some n) : n.reg? = none ↔
    o.reg? = none := by
  have hcp := hord.counterpart o n (hF ▸ hn)
  cases o with
  | const => exact hcp ▸ Iff.rfl
  | _ => cases n <;> first | exact hcp.elim | simp [Operand.reg?]

section Congr

variable (hord : Orderly (t.widenEnv e p ds) F) (hF : t.counterparts e p ds = F.operands)
  (hbase : ∀ r, t.Uses e p ds r → IsBase r.base) (hs : ∀ i < p.width, (s i).AgreesOn [] (s' i))
  (hu : u.AgreesOn [] u')

/-- States that agree have the same values of what is no register. -/
lemma lane_eq_of_agreesOn {v v' : Wide.State} (h : v.AgreesOn [] v') {o : Operand}
    (ho : o.reg? = none) : v.lane o = v'.lane o :=
  h.lane_eq fun r hr => by
    rw [hr] at ho
    cases ho

include hord hF hbase hs hu

/-- The addresses of regions are in no registers. -/
lemma bases_congr {r : Region} (hr : t.Uses e p ds r) :
    (∀ i < p.width, bases s i r.base = bases s' i r.base) ∧
      t.packedBases e p ds u r.base = t.packedBases e p ds u' r.base := by
  have hnone : r.base.reg? = none := by
    cases hb : r.base with
    | reg x => exact absurd hb ((hbase r hr).2 x)
    | _ => rfl
  obtain ⟨n, hn⟩ := hr.1
  refine ⟨fun i hi => congrFun (lane_eq_of_agreesOn (hs i hi) hnone) 0, ?_⟩
  rw [packedBases, packedBases, counterpart, hn]
  exact congrFun (lane_eq_of_agreesOn hu ((reg?_counterpart hord hF hn).2 hnone)) 0

/-- Whatever the registers are, and the runs above the lanes. -/
lemma InLanes.congr (h : t.InLanes e p ds I s u) : t.InLanes e p ds I s' u' where
  values o n hn hp ho i hi := by
    rw [← lane_eq_of_agreesOn (hs i hi) ho,
      ← lane_eq_of_agreesOn hu ((reg?_counterpart hord hF hn).2 ho)]
    exact h.values o n hn hp ho i hi
  scalars r hr c hc i hi := by
    obtain ⟨hscalar, hpacked⟩ := bases_congr hord hF hbase hs hu hr
    have hcell := h.scalars r hr c hc i hi
    rw [Cell.scalarAt, Cell.packedAt, hc.base_eq] at hcell ⊢
    rw [← hscalar i hi, ← hpacked, ← (hs i hi).mem, ← hu.mem]
    exact hcell

/-- Placement depends on the memory and its regions only. -/
lemma IsPlaced.congr (h : t.IsPlaced e p ds s u) : t.IsPlaced e p ds s' u' := by
  intro r r' hr hr'
  obtain ⟨hscalar, hpacked⟩ := bases_congr hord hF hbase hs hu hr
  obtain ⟨hscalar', hpacked'⟩ := bases_congr hord hF hbase hs hu hr'
  refine (h r r' hr hr').imp (fun hone => ?_) fun hdisjoint => ⟨fun i hi => ?_, ?_⟩
  · cases r with
    | object o c =>
      cases r' with
      | object o' c' =>
        obtain ⟨hc, hiff, hall, hone⟩ := hone
        exact ⟨hc, hiff, fun i hi => (hscalar i hi).symm.trans ((hall i hi).trans (hscalar' i hi)),
          hpacked.symm.trans (hone.trans hpacked')⟩
      | spilled => exact hone
    | spilled => cases r' <;> exact hone
  · rw [← hscalar i hi, ← hscalar' i hi]
    exact hdisjoint.scalar i hi
  · rw [← hpacked, ← hpacked']
    exact hdisjoint.packed

end Congr

/-- The scalars in the regions on which a function works. -/
def Cells (e : Elaborated) (p : LoweredProgram) (ds : Diagnostics) (t : Task) (c : Cell) : Prop :=
  ∃ r, t.Uses e p ds r ∧ r.Holds e.program p.layouts (t.widenEnv e p ds) c

/-- Runs in lanes agree with packed code, if there is nothing in registers. -/
lemma InLanes.agree (h : t.InLanes e p ds I (fun i => (s i).cleared) u.cleared)
    (hord : Orderly (t.widenEnv e p ds) F) (hF : t.counterparts e p ds = F.operands) :
    Agree I (t.widenEnv e p ds) F (t.Cells e p ds) (bases fun i => (s i).cleared)
      (t.packedBases e p ds u.cleared) (fun i => (s i).cleared) u.cleared where
  values o n hn ho i hi := by
    cases o with
    | reg r =>
      have hcp := hord.counterpart (.reg r) n hn
      cases n with
      | reg r' => rw [Wide.State.lane_cleared, Wide.State.lane_cleared]
      | _ => exact hcp.elim
    | _ => exact h.values _ n (hF ▸ hn) ho rfl i hi
  bases c _ n hn := by
    refine ⟨?_, fun i _ => rfl⟩
    rw [packedBases, counterpart, hF, hn]
    rfl
  cells c := fun ⟨r, hr, hc⟩ => h.scalars r hr c hc

/-- Runs that agree with packed code are in its lanes. -/
lemma inLanes_of_agree (hF : t.counterparts e p ds = F.operands)
    (h : Agree I (t.widenEnv e p ds) F (t.Cells e p ds) (bases s) (t.packedBases e p ds u) s' u') :
    t.InLanes e p ds I s' u' where
  values o n hn hp _ := h.values o n (hF ▸ hn) hp
  scalars r hr c hc i hi := by
    have hcell : t.Cells e p ds c := ⟨r, hr, hc⟩
    obtain ⟨n, hn⟩ := hr.1
    rw [← hc.base_eq] at hn
    obtain ⟨hu, hs⟩ := h.bases c hcell n (hF ▸ hn)
    have hbase : t.packedBases e p ds u' c.base = t.packedBases e p ds u c.base := by
      rw [← hu, packedBases, counterpart, hn]
      rfl
    have hscalar : c.scalarAt (bases s') i = c.scalarAt (bases s) i :=
      congrArg (· + Offset.word c.offset) (hs i hi)
    have hpacked : c.packedAt (t.packedBases e p ds u') = c.packedAt (t.packedBases e p ds u) :=
      congrArg (· + Offset.word c.packed) hbase
    rw [hscalar, hpacked]
    exact h.cells c hcell i hi

/-- **Mirrored code works lane by lane**. Registers are cleared first, as the runs do not depend on
them. -/
lemma worksLanewise_of_mirrors (hord : Orderly (t.widenEnv e p ds) F)
    (hF : t.counterparts e p ds = F.operands) (hpos : 0 < p.width)
    (hbases : ∀ r, t.Uses e p ds r → IsBase r.base) (hconfined : Confined [] t.scalar.body)
    (hconfined' : Confined [] g.body)
    (hresults : List.Forall₂ (fun o n => F.operands.lookup o = some n) t.scalar.results g.results)
    (hvary : ∀ o ∈ t.scalar.results, ∀ n, F.operands.lookup o = some n →
      IsPlainOperand o ∧ o.reg? = none ∧ ∀ i < p.width, laneAt n i = i)
    (hagree : Agree I (t.widenEnv e p ds) F (t.Cells e p ds) (bases fun i => (s i).cleared)
      (t.packedBases e p ds u.cleared) (fun i => (s i).cleared) u.cleared)
    (hall : MirrorsAll I p.width (Agree I (t.widenEnv e p ds) F (t.Cells e p ds)
      (bases fun i => (s i).cleared) (t.packedBases e p ds u.cleared)) (LabelsOf F)
      t.scalar.body g.body) :
    t.WorksLanewise e p ds g I s u := by
  refine ⟨⟨fun ⟨u', hu⟩ i hi => ?_, fun hs => ?_⟩, fun s' u' hs hu => ?_⟩
  · obtain ⟨v, hv, -⟩ := hu.of_agreesOn hconfined' hconfined' u.agreesOn_cleared
    obtain ⟨w, hw⟩ := (hall.ends_iff hord.oneForOne hpos hagree).1 ⟨v, hv⟩ i hi
    obtain ⟨s', hs', -⟩ := hw.of_agreesOn hconfined hconfined (s i).agreesOn_cleared.symm
    exact ⟨s', hs'⟩
  · obtain ⟨v, hv⟩ := (hall.ends_iff hord.oneForOne hpos hagree).2 fun i hi => by
      obtain ⟨s', hs'⟩ := hs i hi
      obtain ⟨w, hw, -⟩ := hs'.of_agreesOn hconfined hconfined (s i).agreesOn_cleared
      exact ⟨w, hw⟩
    obtain ⟨u', hu', -⟩ := hv.of_agreesOn hconfined' hconfined' u.agreesOn_cleared.symm
    exact ⟨u', hu'⟩
  · have hruns : ∀ i, ∃ w, i < p.width →
        Ends I t.scalar.body t.scalar.body (s i).cleared w ∧ (s' i).AgreesOn [] w := fun i => by
      by_cases hi : i < p.width
      · obtain ⟨w, hw⟩ := (hs i hi).of_agreesOn hconfined hconfined (s i).agreesOn_cleared
        exact ⟨w, fun _ => hw⟩
      · exact ⟨s' i, fun hlt => absurd hlt hi⟩
    choose w hw using hruns
    obtain ⟨v, hv, hvu⟩ := hu.of_agreesOn hconfined' hconfined' u.agreesOn_cleared
    obtain ⟨s'', hs'', hagree'⟩ := hall.ends hord.oneForOne hagree hv fun i hi => (hw i hi).1
    have hback : ∀ i < p.width, (s'' i).AgreesOn [] (s' i) := fun i hi =>
      hs'' i hi ▸ (hw i hi).2.symm
    refine ⟨(inLanes_of_agree hF hagree').congr hord hF hbases hback hvu.symm, fun i hi => ?_⟩
    have hzip := List.forall₂_iff_zip.1 hresults
    refine List.forall₂_iff_zip.2 ⟨hzip.1, fun {o n} hmem => ?_⟩
    have hlook := hzip.2 hmem
    obtain ⟨hplain, hnone, hlane⟩ := hvary o (List.of_mem_zip hmem).1 n hlook
    have hvalue := hagree'.values o n hlook hplain i hi
    rw [hlane i hi] at hvalue
    rw [lane_eq_of_agreesOn hvu ((reg?_counterpart hord hF (hF ▸ hlook)).2 hnone), hvalue,
      lane_eq_of_agreesOn (hback i hi) hnone]

end Packed

end Task

end Lane.Packing

namespace Lane.Accepted

open Code Lowering Packing
open Code.Wide (Ends MirrorsAll)

section Tasks

variable {file name : String} {text : List Rune} {e : Elaborated} {width : Int}
  {ds ds' : Diagnostics} {p : LoweredProgram} {t : Task} {l : PackedLayouts} {g : Function}
  {r : Region} {k : Nat} {I : Operators} {s : Nat → Wide.State} {u : Wide.State}

/-- The code of a task is well typed. -/
lemma wellTyped_of_mem (h : Accepted file text e) (hp : (e.lower name width ds).2 = .ok p)
    (hok : p.isOk) (ht : t ∈ tasks e p l) :
    t.scalar.WellTyped (· ∈ p.module.registry.decls) ∧
      ∀ i ∈ t.scalar.instrs, i.WellTyped (· ∈ p.module.registry.decls) := by
  obtain ⟨-, -, -, hregistry, -⟩ := h.typed.of_lower_isOk hp hok
  obtain ⟨n, hn⟩ := h.typed.isTask_of_mem hp hok ht
  have hdeclares : e.program.Declares t.fn :=
    mem_memberFuncs.1 (List.mem_of_getElem? hn.getElem?_eq)
  have htyped : t.scalar.WellTyped (· ∈ p.module.registry.decls) := by
    rw [hregistry]
    refine (IsCodeOf.spec ⟨n, hn.function_eq⟩ h.typed (h.lower_isOk hp hok).1 hdeclares
      hn.clean).1.2 ?_
    exact fun hgen => absurd hgen (by simp [hn.not_generated])
  refine ⟨htyped, fun i hi => htyped.body_typed i ?_⟩
  exact (((List.takeWhile_sublist _).trans (List.drop_sublist ..)).trans
    (List.dropWhile_sublist _)).mem hi

/-- Instances that a function knows are instances of flat classes. -/
lemma isFlat_of_instances (hself : (Ty.ofClass t.fn.cls).IsFlat e.program)
    (hparams : ∀ a ∈ t.fn.sig.params ++ t.fn.sig.results, a.type.IsFlat e.program)
    {ps : List Operand}
    {o : Operand} {c : ClassRef} (h : Instances e.program p.layouts t.fn ps o c) :
    (Ty.ofClass c).IsFlat e.program := by
  obtain ⟨q, hmem⟩ | ⟨hc, -⟩ := h
  · obtain hmem | hmem := List.mem_append.1 (List.of_mem_zip hmem).2
    · split at hmem
      · obtain ⟨-, rfl⟩ := Ty.cls.inj (List.mem_singleton.1 hmem)
        exact hself
      · cases hmem
    · obtain ⟨a, ha, hac⟩ := List.mem_map.1 hmem
      have hmem : a ∈ t.fn.sig.params ++ t.fn.sig.results := List.mem_append.2
        ((List.mem_append.1 ha).imp_right fun hr => (List.mem_filter.1 hr).1)
      exact (hac ▸ hparams a hmem :)
  · exact hc

/-- The types with which parameters are passed. -/
lemma params_memberDecl (e : Elaborated) (f : MemberFunction) (n : Nat) :
    (memberDecl e f n).params = (typesPassed f).map paramType := by
  rw [typesPassed, List.map_append (f := paramType), List.map_map]
  refine congrArg (· ++ _) ?_
  split <;> rfl

/-- **The address of a region** is in a variable or is that of a slot. -/
lemma isBase_of_uses (h : Accepted file text e) (hp : (e.lower name width ds).2 = .ok p)
    (hok : p.isOk) (ht : t ∈ tasks e p l) (hr : t.Uses e p ds' r) : IsBase r.base := by
  obtain ⟨n, hn⟩ := h.typed.isTask_of_mem hp hok ht
  obtain ⟨htyped, -⟩ := h.wellTyped_of_mem hp hok ht
  have hvars := (regular_of_function hn.function_eq).params_vars
  cases r with
  | spilled s => exact ⟨rfl, nofun⟩
  | object o c =>
    obtain ⟨q, hmem⟩ | ⟨-, s, st, rfl, -⟩ := hr.2
    · have hparams := htyped.params_typed
      rw [hn.decl_eq, params_memberDecl, List.forall₂_map_right_iff,
        List.forall₂_iff_zip] at hparams
      obtain ⟨-, v, rfl⟩ := hvars o (List.of_mem_zip hmem).1
      exact ⟨congrArg VType.kind (hparams.2 hmem).2, nofun⟩
    · exact ⟨rfl, nofun⟩

/-- **The layouts of the instances on which a function works**. -/
lemma isMirrored_of_uses (h : Accepted file text e) (hp : (e.lower name width ds).2 = .ok p)
    (hok : p.isOk) (hW : p.width = 2 ^ k) (hflat : FlatFunction e t.fn) (hr : t.Uses e p ds' r)
    (hsmall : r.IsSmall e.program p.layouts (t.widenEnv e p ds')) :
    r.IsMirrored e.program p.layouts (t.widenEnv e p ds') := by
  cases r with
  | spilled => trivial
  | object o c =>
    obtain ⟨hvalid, hsimd, -⟩ := isFlat_of_instances hflat.self_flat hflat.params_flat hr.2 c .refl
    exact h.mirrored hp hok ds' hW hvalid hsimd hsmall

/-- **The code of a function whose types are flat** is rooted. -/
lemma rooted_of_mem (h : Accepted file text e) (hp : (e.lower name width ds).2 = .ok p)
    (hok : p.isOk) (ht : t ∈ tasks e p l) (hflat : FlatFunction e t.fn) : ∃ env : Lowering.Env,
      env.program = e.program ∧ env.layouts = p.layouts ∧ ∀ i ∈ t.scalar.instrs,
        Rooted env (Instances e.program p.layouts t.fn t.scalar.params) i := by
  obtain ⟨n, hn⟩ := h.typed.isTask_of_mem hp hok ht
  have hdeclares : e.program.Declares t.fn :=
    mem_memberFuncs.1 (List.mem_of_getElem? hn.getElem?_eq)
  obtain ⟨b, hb⟩ : ∃ b, e.body? t.fn = some b := Option.ne_none_iff_exists'.1 fun hnone => by
    simpa [Elaborated.isClean, hn.not_generated, hnone] using hn.clean
  obtain ⟨htyped, hbf⟩ := typed_of_body? h.typed hdeclares hb
  obtain ⟨code, hbody, hroot⟩ := rooted_of_function
    (show (envOf e p.layouts p.width _).program = e.program from rfl) h.typed.program_wf hdeclares
      hn.not_generated hflat hb htyped hbf hn.function_eq
  exact ⟨_, rfl, rfl, fun i hi => hroot i ((Function.instrs_isPrefix hbody).subset hi)⟩

/-- **The code of a function whose types are flat** is plain, if it has a packed version and calls
nothing. -/
lemma isPlain_of_mem (h : Accepted file text e) (hp : (e.lower name width ds).2 = .ok p)
    (hok : p.isOk) (hW : p.width = 2 ^ k) (ht : t ∈ p.tasks e ds') (hflat : FlatFunction e t.fn)
    (hcall : ∀ i ∈ t.scalar.instrs, i.isCallOrLea = false) {σ F : WidenState}
    (hcode : Makes (t.widenEnv e p ds')
      (code t.scalar.params t.scalar.results t.scalar.instrs) σ () F)
    (hready : Ready (t.widenEnv e p ds') σ [] []) (hF : t.counterparts e p ds' = F.operands)
    (hsmall : ∀ r, t.Uses e p ds' r → r.IsSmall e.program p.layouts (t.widenEnv e p ds')) :
    ∀ i ∈ t.scalar.instrs, Packing.IsPlain (t.Cells e p ds') i := by
  obtain ⟨n, hn⟩ := h.typed.isTask_of_mem hp hok ht
  obtain ⟨-, htyped⟩ := h.wellTyped_of_mem hp hok ht
  obtain ⟨htidy, -⟩ := h.typed.isTidy_of_mem_tasks hp ht
  obtain ⟨env, hprogram, hlayouts, hroot⟩ := h.rooted_of_mem hp hok ht hflat
  intro i hi
  have hregular := (regular_of_function hn.function_eq).instrs i hi
  -- What is accessed has a counterpart, so it is in a region on which the function works.
  have named : ∀ {b off t'}, i.access? = some (b, off, t') → ∃ n,
      (t.counterparts e p ds').lookup b = some n := fun hacc =>
    hF ▸ hasCounterpart_of_access hcode hready htidy.confined htidy.numbers_nodup.of_map hi hacc
  have hplain : Packing.IsPlain (fun c => ∃ r, t.Uses e p ds' r ∧
      r.Holds env.program env.layouts (t.widenEnv e p ds') c) i :=
    isPlain_of_rooted (hroot i hi) (htyped i hi) hregular (hcall i hi)
      (fun b off t' hacc c hc => ?_) fun s off t' hacc hs => ⟨named hacc, hs⟩
  · rw [hprogram, hlayouts] at hplain
    exact hplain
  · have huses : t.Uses e p ds' (.object b c) := ⟨named hacc, hc⟩
    rw [hprogram, hlayouts]
    exact ⟨huses, h.isMirrored_of_uses hp hok hW hflat huses (hsmall _ huses)⟩

/-- The body of a task is the frame around its instructions. -/
lemma body_eq_frame_of_mem (h : Accepted file text e) (hp : (e.lower name width ds).2 = .ok p)
    (hok : p.isOk) (ht : t ∈ tasks e p l) : t.scalar.body = Function.frame t.scalar.instrs := by
  obtain ⟨n, hn⟩ := h.typed.isTask_of_mem hp hok ht
  have hcode : IsCodeOf e p.layouts p.width t.fn t.scalar := ⟨n, hn.function_eq⟩
  obtain ⟨code, hbody, htidy⟩ := hcode.exists_isTidy h.typed (h.lower_isOk hp hok).1
    (mem_memberFuncs.1 (List.mem_of_getElem? hn.getElem?_eq)) hn.clean
  rw [htidy.instrs_eq hbody, hbody]

/-- **Results are scalars** that differ between the instances. -/
lemma results_vary (h : Accepted file text e) (hp : (e.lower name width ds).2 = .ok p)
    (hok : p.isOk) (ht : t ∈ tasks e p l) (hflat : FlatFunction e t.fn) :
    ∀ o ∈ t.scalar.results, IsPlainOperand o ∧ (t.lanes e p l).get o = .varying := by
  obtain ⟨n, hn⟩ := h.typed.isTask_of_mem hp hok ht
  obtain ⟨htyped, -⟩ := h.wellTyped_of_mem hp hok ht
  have hregular := regular_of_function hn.function_eq
  have hwidens : (t.decl l p.width).Widens p.width t.scalar.decl := by
    rw [Task.decl, hn.decl_eq]
    exact declLanes_widens l p.width t.fn n
  have hvalid : e.program.ValidFunc t.fn :=
    (mem_memberFuncs.1 (List.mem_of_getElem? hn.getElem?_eq)).validFunc h.typed.program_wf
  intro o ho
  have hplain : IsPlainOperand o := by
    have hresults := htyped.results_typed
    rw [hn.decl_eq] at hresults
    obtain ⟨u, hu, hou⟩ := exists_of_forall₂ hresults ho
    obtain ⟨a, ha, rfl⟩ := List.mem_map.1 hu
    have hscalar : a.type.IsScalar :=
      (hflat.params_flat a (List.mem_append_right _ (List.mem_filter.1 ha).1)).isScalar
        (isAtomic_of_mem_valueResults hvalid ha)
    exact isPlainOperand_of (hregular.results_vars o ho).1 (hou.2 ▸ hscalar.kind_ne)
  obtain ⟨lane, hlane⟩ : ∃ lane, (o, lane) ∈ t.scalar.results.zip (t.decl l p.width).results := by
    have hlen : t.scalar.results.length = (t.decl l p.width).results.length :=
      htyped.results_typed.length_eq.trans hwidens.results_split.length_eq
    obtain ⟨lane, -, hlane⟩ := exists_of_forall₂ (List.forall₂_iff_zip.2 ⟨hlen, id⟩) ho
    exact ⟨lane, hlane⟩
  exact ⟨hplain, hwidens.get_eq htyped hregular (List.mem_append_right _ hlane) hplain.type_ne⟩

/-- **Packed functions work lane by lane**: the packed version of a function of an accepted program
comes to an end if and only if as many runs of the function do as there are lanes, and the lanes
have the results of the runs. All types in the function are scalars and `simd` classes of scalars,
and it calls no function and computes no address of a member. Masks have to keep truth values, and
the regions of memory may not be too large. -/
theorem packed_worksLanewise (h : Accepted file text e) (hp : (e.lower name width ds).2 = .ok p)
    (hok : p.isOk) (hW : p.width = 2 ^ k) {q : PackedProgram} (hq : (p.pack e ds').2 = .ok q)
    (ht : t ∈ p.tasks e ds')
    (hg : q.module.function? (packedId p.width t.scalar.decl) = some g)
    (hflat : FlatFunction e t.fn) (hcall : ∀ i ∈ t.scalar.instrs, i.isCallOrLea = false)
    (hI : KeepsMasks I)
    (hsmall : ∀ r, t.Uses e p ds' r → r.IsSmall e.program p.layouts (t.widenEnv e p ds'))
    (hplaced : t.IsPlaced e p ds' s u) (hlanes : t.InLanes e p ds' I s u) :
    t.WorksLanewise e p ds' g I s u := by
  obtain ⟨n, hn⟩ := h.typed.isTask_of_mem hp hok ht
  obtain ⟨htyped, hinstrs⟩ := h.wellTyped_of_mem hp hok ht
  obtain ⟨htidy, -⟩ := h.typed.isTidy_of_mem_tasks hp ht
  have hregular := regular_of_function hn.function_eq
  have hwidens : (t.decl (layoutsOf e p ds') p.width).Widens p.width t.scalar.decl := by
    rw [Task.decl, hn.decl_eq]
    exact declLanes_widens _ p.width t.fn n
  obtain ⟨hfrom, -⟩ := LoweredProgram.of_pack hq (l := layoutsOf e p ds') rfl
  rw [h.function?_packedId hp hok hfrom ht] at hg
  obtain ⟨d, hd, hpack⟩ := of_version? hg
  obtain rfl := h.typed.decl_of_packed? hp hok ht hd
  obtain ⟨σ₁, σ₂, F, hps, hrs, hcode, hmade⟩ := of_packFunction_eq_ok hpack
  have hF : t.counterparts e p ds' = F.operands := counterpartsOf_eq hps hrs hcode
  have hbody := h.body_eq_frame_of_mem hp hok ht
  obtain ⟨hr₁, he₁, hc₁, -⟩ := operands_ready hps ⟨orderly_empty _, numbersApart_empty,
    fun _ h => absurd h List.not_mem_nil⟩ rfl
  obtain ⟨hr₂, -⟩ := operands_ready hrs hr₁ hc₁
  have hplain := h.isPlain_of_mem hp hok hW ht hflat hcall hcode hr₂ hF hsmall
  have hmirrored := fun r hr => h.isMirrored_of_uses hp hok hW hflat hr (hsmall r hr)
  have hpos : 0 < p.width := hW ▸ Nat.two_pow_pos k
  have hfit : LanesFit (t.widenEnv e p ds') t.scalar.instrs :=
    lanesFit_ofFunction hregular htyped hinstrs hwidens hplain
  -- Runs do not depend on registers at the start, so that there may be nothing in them.
  have hconfined : Confined [] t.scalar.body := hbody ▸ htidy.confined.frame
  have hconfined' : Confined [] g.body := by
    rw [hmade]
    exact (isTidy_of_builds htidy hps hrs hcode).1.confined.frame
  have hsound : ∀ {B : Nat → Operand → Word} {P : Operand → Word},
      ArePlaced p.layouts (t.widenEnv e p ds') B P (t.Uses e p ds') →
      Sound I (t.widenEnv e p ds') t.scalar.instrs (t.Cells e p ds') B P := by
    intro B P hplaced
    refine ⟨hI, hfit, hpos, ?_, ?_, separate_of_arePlaced hpos hmirrored hplaced⟩
    · rintro c ⟨r, hr, hc⟩
      obtain ⟨m, -, hle⟩ := hc.packed_range hpos (hmirrored r hr)
      have hlt := (hsmall r hr).packedBytes_lt
      have hsize : UInt64.size = 2 ^ 64 := rfl
      omega
    · rintro c ⟨r, hr, hc⟩
      exact ⟨hc.known (hmirrored r hr), hc.base_eq ▸ h.isBase_of_uses hp hok ht hr⟩
  have hmirrors := fun {B : Nat → Operand → Word} {P : Operand → Word}
      (hplaced : ArePlaced p.layouts (t.widenEnv e p ds') B P (t.Uses e p ds')) =>
    packFunction_mirrors hps hrs hcode (by rw [hmade]) hbody (hsound hplaced) hplain
  obtain ⟨hord, -⟩ := hmirrors hplaced
  have hcleared : ∀ i < p.width, (s i).AgreesOn [] (s i).cleared :=
    fun i _ => (s i).agreesOn_cleared
  have hbases : ∀ r, t.Uses e p ds' r → IsBase r.base := fun r => h.isBase_of_uses hp hok ht
  have hagree := (hlanes.congr hord hF hbases hcleared u.agreesOn_cleared).agree hord hF
  obtain ⟨-, hparams, hresults, hall⟩ :=
    hmirrors (hplaced.congr hord hF hbases hcleared u.agreesOn_cleared)
  refine Task.worksLanewise_of_mirrors hord hF hpos hbases hconfined hconfined' hresults
    ?_ hagree hall
  intro o ho n hlook
  obtain ⟨hplain, hvaries⟩ := h.results_vary hp hok ht hflat o ho
  obtain ⟨-, v, rfl⟩ := hregular.results_vars o ho
  exact ⟨hplain, rfl, fun i hi => (hord.counterpart _ n hlook).laneAt_eq hfit hplain
    (fun _ => hvaries) hi⟩

end Tasks

end Lane.Accepted

namespace Lane.Packing

open Code Lowering

/-! ## Functions on one instance -/

/-- **Functions whose class, parameters, results and locals have flat types**, whatever the types of
their expressions are. -/
structure FlatStorage (e : Elaborated) (f : MemberFunction) : Prop where
  self_flat : (Ty.ofClass f.cls).IsFlat e.program
  params_flat : ∀ a ∈ f.sig.params ++ f.sig.results, a.type.IsFlat e.program
  by_value : ∀ a ∈ f.sig.params, a.type.isAtomic → a.type.modifier ≠ .ref
  locals_flat : ∀ b, e.body? f = some b → TStmt.EachAll
    (fun _ _ ps _ => ∀ l ∈ declaredBy ps, l.type.IsFlat e.program) (fun _ => True) b.body

/-- Whether a type is a scalar, or a `simd` class of the program that holds scalars only. -/
def isFlatType (p : Program) : Ty → Bool
  | .scalar _ _ => true
  | .cls _ c => p.classes.any (fun k => k.ref == c) && c.isSimd &&
      (p.classOf c).vars.all fun v => v.type.isAtomic && !v.type.isPtr
  | _ => false

/-- Whether all types in an expression are such types. The fuel bounds how deep it is. -/
def isFlatExpr (p : Program) : Nat → TExpr → Bool
  | 0, _ => false
  | fuel + 1, x => x.types.all (isFlatType p) && x.parts.all (isFlatExpr p fuel)

/-- Whether the class, the parameters, the results and the locals of a function whose statements are
assignments have such types. -/
def hasFlatStorage (e : Elaborated) (f : MemberFunction) : Bool :=
  isFlatType e.program (Ty.ofClass f.cls) &&
    (f.sig.params ++ f.sig.results).all (fun a => isFlatType e.program a.type) &&
    f.sig.params.all (fun a => !a.type.isAtomic || a.type.modifier != .ref) &&
    (e.body? f).all fun b => b.body.all fun
      | .assign _ _ _ ps _ => (declaredBy ps).all fun l => isFlatType e.program l.type
      | _ => false

/-- Whether all expressions in such a function have such types. -/
def hasFlatValues (fuel : Nat) (e : Elaborated) (f : MemberFunction) : Bool :=
  (e.body? f).all fun b => b.body.all fun
    | .assign _ _ vs ps ds => (vs ++ ps.filterMap Pair.place? ++ ds).all (isFlatExpr e.program fuel)
    | _ => false

section Flat

variable {p : Program} {t : Ty} {e : Elaborated} {f : MemberFunction} {fuel : Nat}

/-- A class of scalars holds no other class. -/
lemma eq_of_includes {c d : ClassRef} (hc : ∀ v ∈ (p.classOf c).vars, v.type.IsScalar)
    (h : Includes p c d) : d = c := by
  induction h using Relation.ReflTransGen.head_induction_on with
  | refl => rfl
  | head hnest _ _ =>
    obtain ⟨v, hv, q, hvt⟩ := hnest
    exact absurd (hvt ▸ hc v hv) Ty.not_isScalar_cls

/-- The check for flat types is right. -/
lemma isFlat_of_isFlatType (h : isFlatType p t) : t.IsFlat p := by
  unfold isFlatType at h
  split at h
  · trivial
  · rename_i q c
    simp only [Bool.and_eq_true, List.any_eq_true, beq_iff_eq, List.all_eq_true] at h
    obtain ⟨⟨hvalid, hsimd⟩, hvars⟩ := h
    have hscalar : ∀ v ∈ (p.classOf c).vars, v.type.IsScalar := fun v hv => by
      obtain ⟨hat, hptr⟩ := hvars v hv
      cases hvt : v.type with
      | scalar q k => exact ⟨q, k, rfl⟩
      | ptr =>
        rw [hvt] at hptr
        cases hptr
      | cls | container | error =>
        rw [hvt] at hat
        cases hat
    intro d hd
    obtain rfl := eq_of_includes hscalar hd
    exact ⟨hvalid, hsimd, fun v hv => .inl (hscalar v hv)⟩
  · cases h

/-- The check for flat expressions is right. -/
lemma isFlat_of_isFlatExpr {x : TExpr} (h : isFlatExpr p fuel x) : x.IsFlat p := by
  intro y hy
  induction hy generalizing fuel with
  | refl x =>
    cases fuel with
    | zero => cases h
    | succ fuel =>
      rw [isFlatExpr, Bool.and_eq_true, List.all_eq_true] at h
      exact fun t ht => isFlat_of_isFlatType (h.1 t ht)
  | part hy _ ih =>
    cases fuel with
    | zero => cases h
    | succ fuel =>
      rw [isFlatExpr, Bool.and_eq_true, List.all_eq_true, List.all_eq_true] at h
      exact ih (h.2 _ hy)

/-- What holds of each of the assignments that make up a body. -/
lemma eachAll_of_forall {A : AssignCondition} {C : TExpr → Prop} {ss : List TStmt}
    (h : ∀ s ∈ ss, ∃ pos gs vs ps ds, s = .assign pos gs vs ps ds ∧ A gs vs ps ds) :
    TStmt.EachAll A C ss := by
  induction ss with
  | nil => trivial
  | cons s ss ih =>
    obtain ⟨hs, hss⟩ := List.forall_mem_cons.1 h
    obtain ⟨_, _, _, _, _, rfl, hs⟩ := hs
    exact ⟨hs, ih hss⟩

/-- The check for flat storage is right. -/
lemma flatStorage_of_hasFlatStorage (h : hasFlatStorage e f) : FlatStorage e f := by
  simp only [hasFlatStorage, Bool.and_eq_true, List.all_eq_true, Bool.or_eq_true,
    Bool.not_eq_true', bne_iff_ne] at h
  obtain ⟨⟨⟨hself, hparams⟩, hvalue⟩, hbody⟩ := h
  refine ⟨isFlat_of_isFlatType hself, fun a ha => isFlat_of_isFlatType (hparams a ha),
    fun a ha hat => (hvalue a ha).resolve_left (by simp [hat]), fun b hb => ?_⟩
  rw [hb, Option.all_some, List.all_eq_true] at hbody
  refine eachAll_of_forall fun s hs => ?_
  have hs := hbody s hs
  split at hs
  · exact ⟨_, _, _, _, _, rfl, fun l hl => isFlat_of_isFlatType (List.all_eq_true.1 hs l hl)⟩
  · cases hs

/-- The checks for flat functions are right. -/
lemma flatFunction_of_hasFlatValues (h : hasFlatStorage e f) (hvalues : hasFlatValues fuel e f) :
    FlatFunction e f := by
  have hstorage := flatStorage_of_hasFlatStorage h
  refine ⟨hstorage.self_flat, hstorage.params_flat, hstorage.by_value, fun b hb => ?_⟩
  rw [hasFlatValues, hb, Option.all_some, List.all_eq_true] at hvalues
  refine eachAll_of_forall fun s hs => ?_
  have hvalue := hvalues s hs
  have hlocals := (hstorage.locals_flat b hb).of_mem hs
  split at hvalue
  · exact ⟨_, _, _, _, _, rfl, fun x hx => isFlat_of_isFlatExpr (List.all_eq_true.1 hvalue x hx),
      hlocals⟩
  · cases hvalue

end Flat

/-- Variables and registers are zero, and stack slots are at one place. -/
def startWith (m : Memory) : Wide.State := ⟨fun _ _ => 0, fun _ _ => 0, fun _ => 4096, m⟩

/-- A slot for the header of a container. -/
def headerSlot : Slot := ⟨1, "tmp", 16, 8, none⟩

/-- Whether an operand is a variable or a register. -/
def isChanging : Operand → Bool
  | .var _ | .reg _ => true
  | _ => false

/-- At the start, registers and variables hold zeros. -/
lemma lane_startWith {m : Memory} {o : Operand} (ho : isChanging o) (i : Nat) :
    (startWith m).lane o i = 0 := by
  have hcut : ∀ k : Kind, k.cut 0 = 0 := fun k => by simp [Kind.cut]
  have hheld : (startWith m).held o i = 0 := by
    cases o <;> first | rfl | cases ho
  unfold Wide.State.lane
  rw [hheld, hcut, ite_self]

/-- The header starts at an address of its own. -/
lemma lane_headerSlot (m : Memory) : (startWith m).lane (.slot headerSlot) 0 = 4096 := rfl

/-- The number in empty memory is zero. -/
lemma number_zero : ∀ (n : Nat) (a : Word), Memory.number (fun _ => 0) a n = 0
  | 0, _ => rfl
  | n + 1, a => by
    rw [Memory.number, number_zero n]
    rfl

/-- What is read from empty memory is zero. -/
lemma read_zero (t : VType) (a : Word) (i : Nat) : Memory.read (fun _ => 0) t a i = 0 :=
  congrArg UInt64.ofNat (number_zero _ _)

/-- Bytes that are zero make up the number zero. -/
lemma read_eq_zero {m : Memory} {t : VType} {a : Word} {i : Nat} (hi : i < t.width)
    (h : ∀ j < t.bytes, m (a + .ofNat j) = 0) : m.read t a i = 0 := by
  have hle : i * t.kind.size + t.kind.size ≤ t.bytes := by
    rw [← Nat.succ_mul]
    exact Nat.mul_le_mul_right _ hi
  have hnumber : m.number (a + .ofNat (i * t.kind.size)) t.kind.size =
      0 % 1 <<< (8 * t.kind.size) :=
    Memory.number_of_bytes fun j hj => by
      rw [UInt64.add_assoc, ← UInt64.ofNat_add, h _ (by omega), Nat.zero_shiftRight]
      rfl
  rw [Memory.read, Memory.scalar, hnumber, Nat.zero_mod]
  rfl

namespace Task

section Instance

variable (e : Elaborated) (p : LoweredProgram) (ds : Diagnostics) (t : Task)

/-- Whether a function works on a single instance, which it is given, and on nothing else but a slot
for a header. -/
def worksOn (o : Operand) (c : ClassRef) : Bool :=
  isChanging o && ((t.counterparts e p ds).lookup o).any isChanging &&
  ((t.counterparts e p ds).all fun (a, n) =>
    a == n && (a.isConst || a == .slot headerSlot) || isChanging a && isChanging n) &&
  (t.scalar.params.zip (typesPassed t.fn)).any (· == (o, .cls .var c)) &&
  ((t.scalar.params.zip (typesPassed t.fn)).all fun (a, ty) =>
    !ty.isClass || a == o && ty == Ty.ofClass c) &&
  decide ((Region.object o c).bytes p.layouts ≤ 1024) &&
  decide ((Region.object o c).packedBytes p.layouts (t.widenEnv e p ds) ≤ 1024) &&
  decide ((t.widenEnv e p ds).lanes.get (.slot headerSlot) ≠ .packed)

variable {e p ds t} {o : Operand} {c : ClassRef} {r : Region} {I : Operators}
  {s : Nat → Wide.State} {u : Wide.State} {m m' : Memory}

/-- Counterparts are those that were recorded. -/
lemma mem_counterparts {n : Operand} (h : (t.counterparts e p ds).lookup o = some n) :
    (o, n) ∈ t.counterparts e p ds := by
  obtain ⟨l₁, l₂, heq, -⟩ := List.lookup_eq_some_iff.1 h
  rw [heq]
  simp

/-- What is known about a function that works on a single instance. -/
structure WorksOn (e : Elaborated) (p : LoweredProgram) (ds : Diagnostics) (t : Task) (o : Operand)
    (c : ClassRef) : Prop where
  isChanging : isChanging o
  counterpart : ∃ n, (t.counterparts e p ds).lookup o = some n ∧ Packing.isChanging n
  counterparts : ∀ a n, (t.counterparts e p ds).lookup a = some n →
    a = n ∧ (a.isConst ∨ a = .slot headerSlot) ∨ Packing.isChanging a ∧ Packing.isChanging n
  passed : ∃ q, (o, Ty.cls q c) ∈ t.scalar.params.zip (typesPassed t.fn)
  passed_eq : ∀ a q d, (a, Ty.cls q d) ∈ t.scalar.params.zip (typesPassed t.fn) → a = o ∧ d = c
  bytes_le : (Region.object o c).bytes p.layouts ≤ 1024
  packedBytes_le : (Region.object o c).packedBytes p.layouts (t.widenEnv e p ds) ≤ 1024
  slot_ne : (t.widenEnv e p ds).lanes.get (.slot headerSlot) ≠ .packed

/-- The check of what a function works on is right. -/
lemma of_worksOn (h : t.worksOn e p ds o c) : WorksOn e p ds t o c := by
  simp only [worksOn, Bool.and_eq_true, Bool.or_eq_true, Option.any_eq_true, List.all_eq_true,
    List.any_eq_true, beq_iff_eq, decide_eq_true_eq] at h
  obtain ⟨⟨⟨⟨⟨⟨⟨ho, hn⟩, hall⟩, x, hx, rfl⟩, hclasses⟩, hle⟩, hle'⟩, hslot⟩ := h
  refine ⟨ho, hn, fun a n hlook => hall _ (mem_counterparts hlook), ⟨.var, hx⟩,
    fun a q d hmem => ?_, hle, hle', hslot⟩
  have hclass := hclasses _ hmem
  simp only [Ty.isClass, Bool.not_true, Bool.false_eq_true, false_or] at hclass
  obtain ⟨rfl, hc⟩ := hclass
  exact ⟨rfl, (Ty.cls.inj hc).2⟩

namespace WorksOn

variable (h : WorksOn e p ds t o c)
include h

/-- The instance is among the regions. -/
lemma uses : t.Uses e p ds (.object o c) :=
  ⟨h.counterpart.imp fun _ => And.left, .inl h.passed⟩

/-- The only regions are the instance and the slot. -/
lemma eq_of_uses (hr : t.Uses e p ds r) : r = .object o c ∨ r = .spilled headerSlot := by
  obtain ⟨⟨n, hn⟩, hr⟩ := hr
  have slot : ∀ s, r.base = .slot s → s = headerSlot ∧ n = .slot headerSlot := by
    intro s hs
    rw [hs] at hn
    obtain ⟨rfl, hconst | hslot⟩ | ⟨hc, -⟩ := h.counterparts _ _ hn
    · cases hconst
    · obtain rfl := Operand.slot.inj hslot
      exact ⟨rfl, rfl⟩
    · cases hc
  cases r with
  | spilled s => exact .inr (congrArg _ (slot s rfl).1)
  | object a d =>
    obtain ⟨q, hmem⟩ | ⟨-, s, st, rfl, -, hs⟩ := hr
    · obtain ⟨rfl, rfl⟩ := h.passed_eq a q d hmem
      exact .inl rfl
    · obtain ⟨rfl, -⟩ := slot s rfl
      cases hs

/-- Regions are small where all structs are. -/
lemma isSmall
    (hscalar : p.layouts.classes.all fun x => x.2.all fun s => decide (s.extent < 2 ^ 63))
    (hpacked : (layoutsOf e p ds).classes.all fun x => x.2.all fun s => decide (s.extent < 2 ^ 63))
    (hr : t.Uses e p ds r) : r.IsSmall e.program p.layouts (t.widenEnv e p ds) := by
  obtain rfl | rfl := h.eq_of_uses hr
  · rw [List.all_eq_true] at hscalar hpacked
    refine fun d _ => ⟨fun s hs => ?_, fun s hs => ?_⟩
    · simpa using hscalar _ (Layouts.mem_of_struct? hs)
    · simpa using hpacked _ (PackedLayouts.mem_of_struct? hs)
  · exact fun hpacked => absurd hpacked h.slot_ne

/-- The address of the instance. -/
lemma bases_eq (i : Nat) : bases (fun _ => startWith m) i o = 0 := lane_startWith h.isChanging 0

/-- At the start, the addresses of packed instances are zeros. -/
lemma packedBases_eq : t.packedBases e p ds (startWith m) o = 0 := by
  obtain ⟨n, hn, hchanging⟩ := h.counterpart
  rw [packedBases, Task.counterpart, hn]
  exact lane_startWith hchanging 0

/-- The instance and the slot are in different places. -/
lemma isPlaced : t.IsPlaced e p ds (fun _ => startWith m) (startWith m') := by
  have apart : ∀ n ≤ 1024, Apart 0 n 4096 16 := by
    intro n hn i hi j hj heq
    have hsize : UInt64.size = 2 ^ 64 := rfl
    have heq : UInt64.ofNat i = .ofNat (4096 + j) := by
      rw [UInt64.ofNat_add, ← UInt64.zero_add (.ofNat i)]
      exact heq
    have heq := congrArg UInt64.toNat heq
    rw [UInt64.toNat_ofNat_of_lt' (by omega), UInt64.toNat_ofNat_of_lt' (by omega)] at heq
    omega
  have hslot : t.Uses e p ds (.spilled headerSlot) →
      t.packedBases e p ds (startWith m') (.slot headerSlot) = 4096 := by
    rintro ⟨⟨n, hn⟩, -⟩
    rw [packedBases, Task.counterpart,
      show (t.counterparts e p ds).lookup (.slot headerSlot) = some n from hn]
    obtain ⟨rfl, -⟩ | ⟨hc, -⟩ := h.counterparts _ _ hn
    · exact lane_headerSlot m'
    · cases hc
  have disjoint : t.Uses e p ds (.spilled headerSlot) → (Region.object o c).Disjoint p.layouts
      (t.widenEnv e p ds) (bases fun _ => startWith m) (t.packedBases e p ds (startWith m'))
      (.spilled headerSlot) := by
    refine fun hr => ⟨fun i _ => ?_, ?_⟩
    · rw [show (Region.object o c).base = o from rfl, h.bases_eq]
      exact apart _ h.bytes_le
    · rw [show (Region.object o c).base = o from rfl, h.packedBases_eq,
        show (Region.spilled headerSlot).base = .slot headerSlot from rfl, hslot hr,
        Region.packedBytes_of_ne (r := .spilled headerSlot) h.slot_ne]
      exact apart _ h.packedBytes_le
  intro r r' hr hr'
  obtain rfl | rfl := h.eq_of_uses hr <;> obtain rfl | rfl := h.eq_of_uses hr'
  · exact .inl ⟨rfl, Iff.rfl, fun _ _ => rfl, rfl⟩
  · exact .inr (disjoint hr')
  · exact .inr ⟨fun i hi => ((disjoint hr).scalar i hi).symm, (disjoint hr).packed.symm⟩
  · exact .inl rfl

/-- The slot is too large for a scalar. -/
lemma base_of_holds (hr : t.Uses e p ds r) {a : Cell}
    (ha : r.Holds e.program p.layouts (t.widenEnv e p ds) a) : r = .object o c := by
  obtain hr | rfl := h.eq_of_uses hr
  · exact hr
  · cases ha with
    | @spilled _ n hs =>
      unfold Kind.intOfSize at hs
      split at hs <;> cases hs

/-- Runs are in lanes where all scalars are zero. -/
lemma inLanes (hI : ∀ k, Kind.i1.cut (I.binary .ne (.scalar k) 0 0) = 0)
    (hzero : ∀ a, (Region.object o c).Holds e.program p.layouts (t.widenEnv e p ds) a →
    ∀ i < p.width,
      m.read (.scalar a.kind) (Offset.word a.offset) 0 = 0 ∧
      m'.read (a.type p.width) (Offset.word a.packed) (a.laneOf i) = 0) :
    t.InLanes e p ds I (fun _ => startWith m) (startWith m') where
  values a n hn ha _ i _ := by
    obtain ⟨rfl, hconst | rfl⟩ | ⟨ha', hn'⟩ := h.counterparts _ _ hn
    · obtain ⟨k, -, hk⟩ := ha
      rw [laneAt, hk]
      cases a with
      | const b => rfl
      | _ => cases hconst
    · exact absurd rfl ha.kind_ne
    · rw [lane_startWith ha', lane_startWith hn']
  scalars r hr a ha i hi := by
    obtain rfl := h.base_of_holds hr ha
    have hcut : ∀ k : Kind, k.cut 0 = 0 := fun k => by simp [Kind.cut]
    have hbase : a.base = o := ha.base_eq
    obtain ⟨hs, hu⟩ := hzero a ha i hi
    rw [Cell.packedAt, Cell.scalarAt, hbase, h.bases_eq, h.packedBases_eq, UInt64.zero_add,
      UInt64.zero_add]
    show a.shown I (m'.read _ _ _) = a.kind.cut (m.read _ _ _)
    rw [hs, hu, Cell.shown, hcut, hcut, hI, ite_self]

/-- Runs are in lanes where memory is zero below an address. -/
lemma inLanes_low (hpos : 0 < p.width)
    (hmirrored : (Region.object o c).IsMirrored e.program p.layouts (t.widenEnv e p ds))
    (hI : ∀ k, Kind.i1.cut (I.binary .ne (.scalar k) 0 0) = 0)
    (hlow : ∀ n < 1024, m' (.ofNat n) = 0) :
    t.InLanes e p ds I (fun _ => startWith fun _ => 0) (startWith m') := by
  refine h.inLanes hI fun a ha i hi =>
    ⟨read_zero .., read_eq_zero (a.laneOf_lt hpos hi) fun j hj => ?_⟩
  obtain ⟨n, hn, hle⟩ := ha.packed_range hpos hmirrored
  rw [hn, ← UInt64.ofNat_add]
  have hbytes := h.packedBytes_le
  have hj : j < (a.type (t.widenEnv e p ds).width).bytes := hj
  exact hlow _ (by omega)

/-- Runs are in lanes where all memory is zero. -/
lemma inLanes_zero (hI : ∀ k, Kind.i1.cut (I.binary .ne (.scalar k) 0 0) = 0) :
    t.InLanes e p ds I (fun _ => startWith fun _ => 0) (startWith fun _ => 0) :=
  h.inLanes hI fun _ _ _ _ => ⟨read_zero .., read_zero ..⟩

end WorksOn

end Instance

end Task

/-- Operators that convert truth values to numbers and back keep masks. -/
lemma keepsMasks_indexOperators : KeepsMasks indexOperators := by
  rintro k w -
  obtain hw | hw : Kind.i1.cut w = 0 ∨ Kind.i1.cut w = 1 := by
    have hlt : (Kind.i1.cut w).toNat < 2 := by
      rw [Kind.toNat_cut]
      exact Nat.mod_lt _ (by decide)
    obtain h | h : (Kind.i1.cut w).toNat = 0 ∨ (Kind.i1.cut w).toNat = 1 := by omega
    · exact .inl (UInt64.toNat_inj.1 h)
    · exact .inr (UInt64.toNat_inj.1 h)
  · rw [hw]
    cases k <;> rfl
  · rw [hw]
    cases k <;> rfl

end Lane.Packing

namespace Lane.Accepted

open Code Lowering Packing

/-- A `simd` function that adds to a member and gives back the sum. -/
def addsToMember : String :=
  "simd class P { var x: int;
    simd writer w(a: int) -> (r: int) { self.x = self.x + a; r = self.x; } }"

/-- A packed function works lane by lane: it adds to a member and gives back the sum. -/
theorem packed_worksLanewise_add : ∃ e p q, vectorize? addsToMember =
      some (e, p, q) ∧ p.isOk ∧ p.width = 2 ^ 2 ∧ ∃ t ∈ p.tasks e {}, ∃ g,
    q.module.function? (packedId p.width t.scalar.decl) = some g ∧ FlatFunction e t.fn ∧
    (∀ i ∈ t.scalar.instrs, i.isCallOrLea = false) ∧ t.scalar.results.length = 1 ∧
    (∃ r, t.Uses e p {} r) ∧ ∃ I s u, KeepsMasks I ∧
    (∀ r, t.Uses e p {} r → r.IsSmall e.program p.layouts (t.widenEnv e p {})) ∧
    t.IsPlaced e p {} s u ∧ t.InLanes e p {} I s u ∧ t.WorksLanewise e p {} g I s u := by
  have hrun : (vectorize? addsToMember).any
        fun (e, p, q) => p.isOk && decide (p.width = 2 ^ 2) &&
          p.layouts.classes.all (fun x => x.2.all fun s => decide (s.extent < 2 ^ 63)) &&
          (layoutsOf e p {}).classes.all (fun x => x.2.all fun s => decide (s.extent < 2 ^ 63)) &&
          (p.tasks e {}).any fun t =>
            (q.module.function? (packedId p.width t.scalar.decl)).isSome && hasFlatStorage e t.fn &&
            hasFlatValues 4 e t.fn &&
            t.scalar.instrs.all (fun i => !i.isCallOrLea) && t.scalar.results.length == 1 &&
            t.worksOn e p {} (.var ⟨1, "self", .ptr⟩) ⟨81, "P", true⟩ := by
    rw [vectorize?, compile?, addsToMember, Rune.ascii_ofList]
    decide +kernel
  obtain ⟨⟨e, p, q⟩, hv, hrun⟩ := (Option.any_eq_true ..).1 hrun
  simp only [Bool.and_eq_true, decide_eq_true_eq, List.any_eq_true, beq_iff_eq,
    Option.isSome_iff_exists] at hrun
  obtain ⟨⟨⟨⟨hok, hW⟩, hscalar⟩, hpacked⟩, t, ht, ⟨⟨⟨⟨⟨g, hg⟩, hflat⟩, hvalues⟩, hcall⟩, hlen⟩,
    hworks⟩ := hrun
  obtain ⟨hacc, hp, hq⟩ := of_vectorize? hv
  have hflat := flatFunction_of_hasFlatValues hflat hvalues
  have hcall : ∀ i ∈ t.scalar.instrs, i.isCallOrLea = false := by simpa using hcall
  have hworks := Task.of_worksOn hworks
  have hsmall := fun r => hworks.isSmall (r := r) hscalar hpacked
  have hlanes : t.InLanes e p {} indexOperators (fun _ => startWith fun _ => 0)
      (startWith fun _ => 0) :=
    hworks.inLanes_zero fun k => rfl
  exact ⟨e, p, q, hv, hok, hW, t, ht, g, hg, hflat, hcall, hlen, ⟨_, hworks.uses⟩,
    indexOperators, _, _,
    keepsMasks_indexOperators, hsmall, hworks.isPlaced, hlanes,
      hacc.packed_worksLanewise hp hok hW hq ht
      hg hflat hcall keepsMasks_indexOperators hsmall hworks.isPlaced hlanes⟩

/-! ## Functions that do not work lane by lane -/

/-- The state in which code ends, if it does after a number of instructions. -/
def endState? (I : Operators) (body : List Instr) :
    Nat → List Instr → Wide.State → Option Wide.State
  | _, [], s => some s
  | 0, _ :: _, _ => none
  | n + 1, i :: is, s => (Wide.step? I body (i :: is) s).bind fun x => endState? I body n x.1 x.2

/-- Code that is run to its end ends. -/
lemma ends_of_endState? {I : Operators} {body : List Instr} {n : Nat} {is : List Instr}
    {s s' : Wide.State} (h : endState? I body n is s = some s') : Wide.Ends I body is s s' := by
  induction n generalizing is s with
  | zero =>
    cases is with
    | nil => exact Option.some.inj h ▸ ⟨0, .done s⟩
    | cons => cases h
  | succ n ih =>
    cases is with
    | nil => exact Option.some.inj h ▸ ⟨0, .done s⟩
    | cons i is =>
      obtain ⟨x, hx, h⟩ := Option.bind_eq_some_iff.1 h
      obtain ⟨k, hk⟩ := ih h
      exact ⟨k + 1, .step hx hk⟩

/-- The packed offset of a single member. -/
lemma offset?_singleton {l : PackedLayouts} {m : StructMember} {x : PackedMember}
    (h : l.member? m = some x) :
    l.offset? (some (.ofPath [m])) = some (.ofPath [x.member], x) := by
  simp [PackedLayouts.offset?, h]

/-- Whether a type is a scalar. -/
def isScalarType : Ty → Bool
  | .scalar _ _ => true
  | _ => false

/-- The check for scalar types is right. -/
lemma isScalar_of_isScalarType {t : Ty} (h : isScalarType t) : t.IsScalar := by
  unfold isScalarType at h
  split at h
  · exact ⟨_, _, rfl⟩
  · cases h

/-- Whether packed code comes to an end with something else in the lanes of a member than a run
has. -/
def missesMember (e : Elaborated) (p : LoweredProgram) (ds : Diagnostics) (t : Task) (g : Function)
    (I : Operators) (s u : Wide.State) (o : Operand) (c : ClassRef) (name : String) : Bool :=
  (endState? I t.scalar.body 16 t.scalar.body s).any fun s' =>
    (endState? I g.body 16 g.body u).any fun u' =>
      decide ((t.widenEnv e p ds).lanes.get o = .packed) && (p.layouts.struct? c).any fun l =>
        (e.program.classOf c).vars.any fun v => v.name == name && isScalarType v.type &&
          (l.member? v.name).any fun m => ((t.widenEnv e p ds).layouts.member? m).any fun x =>
            x.member.type?.any fun k => decide (k.lanes = p.width) &&
              let a : Cell := ⟨o, some (.ofPath [m]), v.type.code.kind,
                some (.ofPath [x.member]), k.kind, x.isMask, false⟩
              decide (a.shown I
                (u'.mem.read (a.type p.width) (a.packedAt (t.packedBases e p ds u')) 0) ≠
                a.kind.cut (s'.mem.read (.scalar a.kind) (a.scalarAt (Task.bases fun _ => s') 0) 0))

section Misses

variable {e : Elaborated} {p : LoweredProgram} {ds : Diagnostics} {t : Task} {g : Function}
  {I : Operators} {s u : Wide.State} {o : Operand} {c : ClassRef} {name : String}

/-- Packed code that misses a member of the instance does not work lane by lane. -/
lemma not_worksLanewise_of_missesMember (hpos : 0 < p.width) (hworks : t.WorksOn e p ds o c)
    (h : missesMember e p ds t g I s u o c name) : ¬ t.WorksLanewise e p ds g I (fun _ => s) u := by
  intro hlanewise
  simp only [missesMember, Option.any_eq_true, Bool.and_eq_true, List.any_eq_true,
    decide_eq_true_eq] at h
  obtain ⟨s', hs, u', hu, ho, l, hl, v, hv, ⟨-, hscalar⟩, m, hm, x, hx, k, hk, hlanes, hne⟩ := h
  have hcells := (hlanewise.afterwards (fun _ => s') u' (fun _ _ => ends_of_endState? hs)
    (ends_of_endState? hu)).1.scalars _ hworks.uses
  refine hne (hcells _ (.member ho (.last hl hv hm) (isScalar_of_isScalarType hscalar)
    (offset?_singleton hx) ?_) 0 hpos)
  rw [hk, show (t.widenEnv e p ds).width = p.width from rfl, ← hlanes]

end Misses

/-- Operators for which no values differ, so that no masks are seen. -/
def maskless : Operators where
  unary _ _ a := a
  binary _ _ _ _ := 0
  convert _ _ a := a

/-- A `simd` function that sets a truth value. -/
def setsTruth : String := "simd class P { var a: bool; simd writer w() { self.a = true; } }"

/-- A function that sets a truth value, where operators keep no masks: lanes that are not zero do
not say that the value is set. -/
lemma not_worksLanewise_maskless : ∃ e p q, vectorize? setsTruth = some (e, p, q) ∧
    p.isOk ∧ p.width = 2 ^ 2 ∧ ∃ t ∈ p.tasks e {}, ∃ g,
    q.module.function? (packedId p.width t.scalar.decl) = some g ∧ FlatFunction e t.fn ∧
    (∀ i ∈ t.scalar.instrs, i.isCallOrLea = false) ∧ ∃ s u,
    (∀ r, t.Uses e p {} r → r.IsSmall e.program p.layouts (t.widenEnv e p {})) ∧
    t.IsPlaced e p {} s u ∧ t.InLanes e p {} maskless s u ∧
    ¬ t.WorksLanewise e p {} g maskless s u := by
  have hrun : (vectorize? setsTruth).any
      fun (e, p, q) => p.isOk && decide (p.width = 2 ^ 2) &&
        p.layouts.classes.all (fun x => x.2.all fun s => decide (s.extent < 2 ^ 63)) &&
        (layoutsOf e p {}).classes.all (fun x => x.2.all fun s => decide (s.extent < 2 ^ 63)) &&
        (p.tasks e {}).any fun t => hasFlatStorage e t.fn && hasFlatValues 4 e t.fn &&
          t.scalar.instrs.all (fun i => !i.isCallOrLea) &&
          t.worksOn e p {} (.var ⟨1, "self", .ptr⟩) ⟨81, "P", true⟩ &&
          (q.module.function? (packedId p.width t.scalar.decl)).any fun g =>
          missesMember e p {} t g maskless
            (startWith fun _ => 0) (startWith fun _ => 0) (.var ⟨1, "self", .ptr⟩)
              ⟨81, "P", true⟩ "a" := by
    rw [vectorize?, compile?, setsTruth, Rune.ascii_ofList]
    decide +kernel
  obtain ⟨⟨e, p, q⟩, hv, hrun⟩ := (Option.any_eq_true ..).1 hrun
  simp only [Bool.and_eq_true, decide_eq_true_eq, List.any_eq_true, Option.any_eq_true] at hrun
  obtain ⟨⟨⟨⟨hok, hW⟩, hscalar⟩, hpacked⟩, t, ht, ⟨⟨⟨hflat, hvalues⟩, hcall⟩, hworks⟩, g, hg,
    hmiss⟩ := hrun
  have hworks := Task.of_worksOn hworks
  exact ⟨e, p, q, hv, hok, hW, t, ht, g, hg, flatFunction_of_hasFlatValues hflat hvalues,
    by simpa using hcall, _, _, fun r => hworks.isSmall hscalar hpacked, hworks.isPlaced,
    hworks.inLanes_zero fun _ => rfl,
    not_worksLanewise_of_missesMember (hW ▸ Nat.two_pow_pos 2) hworks hmiss⟩

/-- A result that is there is one of success. -/
lemma eq_ok_of_toOption {α ε : Type} {x : Except ε α} {a : α} (h : x.toOption = some a) :
    x = .ok a := by
  cases x with
  | error => cases h
  | ok b => exact congrArg _ (Option.some.inj h)

/-- A `simd` function that sets one of two members. -/
def setsFirst : String :=
  "simd class P { var a: int; var b: int; simd writer w() { self.a = 1; } }"

/-- A function that sets one of two members, where the packed struct is too large: both members are
at one place. -/
lemma not_worksLanewise_large : ∃ e p q,
    accept? "" (Rune.ascii setsFirst) = some e ∧
    (e.lower "" 4611686018427387904 {}).2 = .ok p ∧ (p.pack e {}).2 = .ok q ∧
    p.isOk ∧ p.width = 2 ^ 62 ∧ ∃ t ∈ p.tasks e {}, ∃ g,
    q.module.function? (packedId p.width t.scalar.decl) = some g ∧ FlatFunction e t.fn ∧
    (∀ i ∈ t.scalar.instrs, i.isCallOrLea = false) ∧ ∃ I s u, KeepsMasks I ∧
    t.IsPlaced e p {} s u ∧ t.InLanes e p {} I s u ∧ ¬ t.WorksLanewise e p {} g I s u := by
  have hrun : (accept? "" (Rune.ascii setsFirst)).any
      fun e => (e.lower "" 4611686018427387904 {}).2.toOption.any fun p =>
        (p.pack e {}).2.toOption.any fun q => p.isOk && decide (p.width = 2 ^ 62) &&
        (p.tasks e {}).any fun t => hasFlatStorage e t.fn && hasFlatValues 4 e t.fn &&
          t.scalar.instrs.all (fun i => !i.isCallOrLea) &&
          t.worksOn e p {} (.var ⟨1, "self", .ptr⟩) ⟨81, "P", true⟩ &&
          (q.module.function? (packedId p.width t.scalar.decl)).any fun g =>
            missesMember e p {} t g indexOperators (startWith fun _ => 0) (startWith fun _ => 0)
              (.var ⟨1, "self", .ptr⟩) ⟨81, "P", true⟩ "b" := by
    rw [setsFirst, Rune.ascii_ofList]
    decide +kernel
  obtain ⟨e, he, hrun⟩ := (Option.any_eq_true ..).1 hrun
  obtain ⟨p, hp, hrun⟩ := (Option.any_eq_true ..).1 hrun
  obtain ⟨q, hq, hrun⟩ := (Option.any_eq_true ..).1 hrun
  simp only [Bool.and_eq_true, decide_eq_true_eq, List.any_eq_true, Option.any_eq_true] at hrun
  obtain ⟨⟨hok, hW⟩, t, ht, ⟨⟨⟨hflat, hvalues⟩, hcall⟩, hworks⟩, g, hg, hmiss⟩ := hrun
  have hworks := Task.of_worksOn hworks
  exact ⟨e, p, q, he, eq_ok_of_toOption hp, eq_ok_of_toOption hq, hok, hW, t, ht, g, hg,
    flatFunction_of_hasFlatValues hflat hvalues, by simpa using hcall, indexOperators, _, _,
    keepsMasks_indexOperators, hworks.isPlaced, hworks.inLanes_zero fun _ => rfl,
    not_worksLanewise_of_missesMember (hW ▸ Nat.two_pow_pos 62) hworks hmiss⟩

/-- A `simd` function that reads an element of a container that is never made. -/
def readsUnmade : String :=
  "simd class P { var x: int; simd routine make() -> (r: array{int}) { }
    simd writer w() { self.x = P::make()[index(0)]; } }"

/-- Memory with the address of a number in a header. -/
def headerMemory : Memory := fun a => if a = 4097 then 8 else if a = 2048 then 1 else 0

/-- A function that reads an element of a container, which a call that is left out does not make:
the header in the stack slot is whatever was there, which differs between the runs and packed
code. -/
lemma not_worksLanewise_header : ∃ e p q, vectorize? readsUnmade =
      some (e, p, q) ∧ p.isOk ∧ p.width = 2 ^ 2 ∧ ∃ t ∈ p.tasks e {}, ∃ g,
    q.module.function? (packedId p.width t.scalar.decl) = some g ∧ FlatStorage e t.fn ∧
    (∀ i ∈ t.scalar.instrs, i.isCallOrLea = false) ∧ ∃ I s u, KeepsMasks I ∧
    (∀ r, t.Uses e p {} r → r.IsSmall e.program p.layouts (t.widenEnv e p {})) ∧
    t.IsPlaced e p {} s u ∧ t.InLanes e p {} I s u ∧ ¬ t.WorksLanewise e p {} g I s u := by
  have hrun : (vectorize? readsUnmade).any
      fun (e, p, q) => p.isOk && decide (p.width = 2 ^ 2) &&
        p.layouts.classes.all (fun x => x.2.all fun s => decide (s.extent < 2 ^ 63)) &&
        (layoutsOf e p {}).classes.all (fun x => x.2.all fun s => decide (s.extent < 2 ^ 63)) &&
        (p.tasks e {}).any fun t => hasFlatStorage e t.fn &&
          t.scalar.instrs.all (fun i => !i.isCallOrLea) &&
          t.worksOn e p {} (.var ⟨1, "self", .ptr⟩) ⟨81, "P", true⟩ &&
          (q.module.function? (packedId p.width t.scalar.decl)).any fun g =>
            missesMember e p {} t g indexOperators (startWith fun _ => 0) (startWith headerMemory)
              (.var ⟨1, "self", .ptr⟩) ⟨81, "P", true⟩ "x" := by
    rw [vectorize?, compile?, readsUnmade, Rune.ascii_ofList]
    decide +kernel
  obtain ⟨⟨e, p, q⟩, hv, hrun⟩ := (Option.any_eq_true ..).1 hrun
  simp only [Bool.and_eq_true, decide_eq_true_eq, List.any_eq_true, Option.any_eq_true] at hrun
  obtain ⟨⟨⟨⟨hok, hW⟩, hscalar⟩, hpacked⟩, t, ht, ⟨⟨hflat, hcall⟩, hworks⟩, g, hg, hmiss⟩ := hrun
  obtain ⟨hacc, hp, -⟩ := of_vectorize? hv
  have hworks := Task.of_worksOn hworks
  have hstorage := flatStorage_of_hasFlatStorage hflat
  have hsmall := fun r => hworks.isSmall (r := r) hscalar hpacked
  have hmirrored : (Region.object (.var ⟨1, "self", .ptr⟩) ⟨81, "P", true⟩).IsMirrored e.program
      p.layouts (t.widenEnv e p {}) := by
    obtain ⟨hvalid, hsimd, -⟩ := isFlat_of_instances hstorage.self_flat hstorage.params_flat
      hworks.uses.2 _ .refl
    exact hacc.mirrored hp hok {} hW hvalid hsimd (hsmall _ hworks.uses)
  refine ⟨e, p, q, hv, hok, hW, t, ht, g, hg, hstorage, by simpa using hcall, indexOperators, _, _,
    keepsMasks_indexOperators, hsmall, hworks.isPlaced, hworks.inLanes_low (hW ▸ Nat.two_pow_pos 2)
      hmirrored (fun _ => rfl) fun n hn => ?_,
    not_worksLanewise_of_missesMember (hW ▸ Nat.two_pow_pos 2) hworks hmiss⟩
  have hne : ∀ k, 1024 < k → k < 4098 → UInt64.ofNat n ≠ .ofNat k := fun k hk hlt heq => by
    have hsize : UInt64.size = 2 ^ 64 := rfl
    have heq := congrArg UInt64.toNat heq
    rw [UInt64.toNat_ofNat_of_lt' (by omega), UInt64.toNat_ofNat_of_lt' (by omega)] at heq
    omega
  exact (if_neg (hne 4097 (by decide) (by decide))).trans
    (if_neg (hne 2048 (by decide) (by decide)))

/-- **Packed functions that do not work lane by lane**: where a packed struct takes more bytes than
a number can tell, where operators lose masks, and where an expression is of a type that is not
flat. -/
theorem packed_not_worksLanewise :
    (∃ e p q, accept? "" (Rune.ascii setsFirst) = some e ∧
      (e.lower "" 4611686018427387904 {}).2 = .ok p ∧ (p.pack e {}).2 = .ok q ∧
      p.isOk ∧ p.width = 2 ^ 62 ∧ ∃ t ∈ p.tasks e {}, ∃ g,
      q.module.function? (packedId p.width t.scalar.decl) = some g ∧ FlatFunction e t.fn ∧
      (∀ i ∈ t.scalar.instrs, i.isCallOrLea = false) ∧ ∃ I s u, KeepsMasks I ∧
      t.IsPlaced e p {} s u ∧ t.InLanes e p {} I s u ∧ ¬ t.WorksLanewise e p {} g I s u) ∧
    (∃ e p q, vectorize? setsTruth = some (e, p, q) ∧
      p.isOk ∧ p.width = 2 ^ 2 ∧ ∃ t ∈ p.tasks e {}, ∃ g,
      q.module.function? (packedId p.width t.scalar.decl) = some g ∧ FlatFunction e t.fn ∧
      (∀ i ∈ t.scalar.instrs, i.isCallOrLea = false) ∧ ∃ s u,
      (∀ r, t.Uses e p {} r → r.IsSmall e.program p.layouts (t.widenEnv e p {})) ∧
      t.IsPlaced e p {} s u ∧ t.InLanes e p {} maskless s u ∧
      ¬ t.WorksLanewise e p {} g maskless s u) ∧
    ∃ e p q, vectorize? readsUnmade =
        some (e, p, q) ∧ p.isOk ∧ p.width = 2 ^ 2 ∧ ∃ t ∈ p.tasks e {}, ∃ g,
      q.module.function? (packedId p.width t.scalar.decl) = some g ∧ FlatStorage e t.fn ∧
      (∀ i ∈ t.scalar.instrs, i.isCallOrLea = false) ∧ ∃ I s u, KeepsMasks I ∧
      (∀ r, t.Uses e p {} r → r.IsSmall e.program p.layouts (t.widenEnv e p {})) ∧
      t.IsPlaced e p {} s u ∧ t.InLanes e p {} I s u ∧ ¬ t.WorksLanewise e p {} g I s u :=
  ⟨not_worksLanewise_large, not_worksLanewise_maskless, not_worksLanewise_header⟩

end Lane.Accepted
