import Lane.Proofs.Llvm.Typed
import Lane.Proofs.Packing.Closed
import Lane.Proofs.Packing.Heapless

set_option relaxedAutoImplicit false
set_option autoImplicit false

/-!
# Calls of the runtime

Memory is allocated and copied by functions that are looked up by name among those that the program
declares. A foreign function of such a name is taken for the one of the runtime whatever its type
is. Allocations and copies are emitted as calls of functions of the right types exactly if the
foreign functions of these names have them.

## Main definitions

* `Lane.Code.Module.runtime`: the function that a module calls for one of the runtime.
* `Lane.Code.Module.emitEnv`: what emission of a function of a module reads.
* `Lane.Code.Module.emitted`: what emission of a module makes of its functions.
* `Lane.Elaborated.FitsRuntime`: programs whose foreign functions fit the runtime.

## Main results

* `Lane.Accepted.calls_runtime`: the calls of the runtime in the code and the packed code of
  accepted programs.
* `Lane.Accepted.misfit_malloc`: a program that calls a foreign function with a value of another
  type.
-/

namespace Lane.Code

open Llvm

/-! ## Modules -/

namespace Module

/-- The declared functions of a module, without blocks. -/
def declaredFunctions (m : Module) : List Llvm.Function := m.registry.decls.map declared

/-- **The function of a module for one of the runtime**: one that is declared with its name, or the
one of the runtime if there is none. -/
def runtime (m : Module) (f : Llvm.Function) : Llvm.Function :=
  (withRuntime m.declaredFunctions f).1

/-- The functions of a module and of the runtime, without blocks. -/
def withRuntimes (m : Module) : List Llvm.Function :=
  (withRuntime (withRuntime m.declaredFunctions mallocDecl).2 memcpyDecl).2

/-- **What emission of a function of a module reads.** -/
def emitEnv (m : Module) (f : Function) : EmitEnv :=
  ⟨m.registry.decls.map fun d => (d.id, declared d), m.runtime mallocDecl, m.runtime memcpyDecl, f⟩

/-- Emit functions of a module in turn, each of them in place of the function of its name. -/
def emitEach (m : Module) :
    List Function → List Llvm.Function → Except EmitError (List Llvm.Function)
  | [], fs => return fs
  | f :: rest, fs => do
    match fs.find? fun g => g.name == f.decl.id with
    | none => throw (.fault .missing)
    | some g =>
      let (_, b) ← ((emitFunction f).run (m.emitEnv f)).run ⟨g, 0, [], []⟩
      m.emitEach rest (replaceFunction fs b.function)

/-- **The emitted module**: all functions of a module are emitted. -/
def emitted (m : Module) : Except EmitError Llvm.Module := do
  let functions ← m.emitEach m.functions m.withRuntimes
  return { name := m.name, structs := m.structs.map Struct.llvm, functions }

variable {m : Module} {f g : Llvm.Function}

/-- Another function of the runtime does not change which function is found. -/
lemma withRuntime_of_ne {fs : List Llvm.Function} (h : g.name ≠ f.name) :
    (withRuntime (withRuntime fs g).2 f).1 = (withRuntime fs f).1 := by
  have hne : (g.name == f.name) = false := beq_eq_false_iff_ne.2 h
  unfold withRuntime
  cases hg : fs.find? fun k => k.name == g.name with
  | some k => rfl
  | none =>
    rw [List.find?_append]
    cases fs.find? fun k => k.name == f.name <;> simp [hne]

/-- The functions are emitted in turn, whatever was emitted before. -/
lemma emitFunctions_eq (m : Module) : ∀ (rest : List Function) (fs : List Llvm.Function),
    emitFunctions (m.runtime mallocDecl) (m.runtime memcpyDecl)
      (m.registry.decls.map fun d => (d.id, declared d)) rest fs = m.emitEach rest fs
  | [], _ => rfl
  | f :: rest, fs => by
    unfold emitFunctions emitEach
    cases fs.find? fun g => g.name == f.decl.id with
    | none => rfl
    | some g => exact bind_congr fun r => emitFunctions_eq m rest (replaceFunction fs r.2.function)

/-- **How a module is emitted**: one function after the other, all of which read the same. -/
lemma toLlvm_eq (m : Module) : m.toLlvm = m.emitted := by
  rw [emitted, ← emitFunctions_eq, runtime, runtime,
    ← withRuntime_of_ne (g := mallocDecl) (f := memcpyDecl) (by decide)]
  rfl

/-- **The function of a module matches** the one of the runtime exactly if the functions that the
module declares with its name do. -/
lemma matches_runtime_iff (hn : (m.registry.decls.map FuncDecl.id).Nodup) :
    (m.runtime f).Matches f ↔ ∀ d ∈ m.registry.decls, d.id = f.name → (declared d).Matches f := by
  unfold runtime withRuntime
  cases hg : m.declaredFunctions.find? fun k => k.name == f.name with
  | none =>
    refine ⟨fun _ d hd hid => ?_, fun _ => ⟨rfl, rfl, rfl⟩⟩
    have hnot := List.find?_eq_none.1 hg (declared d) (List.mem_map_of_mem hd)
    exact absurd (beq_iff_eq.2 hid) hnot
  | some k =>
    obtain ⟨d, hd, rfl⟩ := List.mem_map.1 (List.mem_of_find?_eq_some hg)
    have hname := List.find?_some hg
    have hid : d.id = f.name := beq_iff_eq.1 hname
    refine ⟨fun h d' hd' hid' => ?_, fun h => h d hd hid⟩
    obtain rfl := List.inj_on_of_nodup_map hn hd hd' (hid.trans hid'.symm)
    exact h

/-- Declared functions are found by their identifiers. -/
lemma lookup_emitEnv (hn : (m.registry.decls.map FuncDecl.id).Nodup) (fn : Function) {d : FuncDecl}
    (hd : d ∈ m.registry.decls) : (m.emitEnv fn).functions.lookup d.id = some (declared d) := by
  unfold emitEnv
  revert hn hd
  generalize m.registry.decls = ds
  intro hn hd
  induction ds with
  | nil => cases hd
  | cons c ds ih =>
    obtain ⟨hnew, hn⟩ := List.nodup_cons.1 hn
    rw [List.map_cons, List.lookup_cons]
    obtain rfl | hd := List.mem_cons.1 hd
    · simp
    · have hne : (d.id == c.id) = false :=
        beq_eq_false_iff_ne.2 fun he => hnew (he ▸ List.mem_map_of_mem hd)
      rw [hne]
      exact ih hn hd

end Module

/-! ## Functions -/

section Functions

variable {f : Function} {code before after : List Instr} {i : Instr}

/-- What an instruction uses is among its operands. -/
lemma Instr.uses_subset_operands (i : Instr) : i.uses ⊆ i.operands := by
  cases i <;> simp [Instr.uses, Instr.operands]

/-- An allocation or a copy in a function stands in the code that the frame was put around. -/
lemma exists_split_of_isHeap (hf : f.body = Function.frame code)
    (hsplit : f.code = before ++ i :: after) (hi : i.isHeap) :
    ∃ after, code = before ++ i :: after := by
  have hcode : f.code = code ++ [.label .epilogue, .results] := by
    rw [Function.code, hf]
    rfl
  obtain ⟨between, hb, hrest⟩ | ⟨between, hb, hrest⟩ :=
    List.append_eq_append_iff.1 (hcode.symm.trans hsplit)
  · have hmem : i ∈ [Instr.label .epilogue, .results] := by simp [hrest]
    simp only [List.mem_cons, List.not_mem_nil, or_false] at hmem
    obtain rfl | rfl := hmem <;> cases hi
  · cases between with
    | nil =>
      obtain ⟨rfl, -⟩ := List.cons.inj hrest
      cases hi
    | cons k between =>
      obtain ⟨rfl, -⟩ := List.cons.inj hrest
      exact ⟨between, hb⟩

end Functions

end Lane.Code

namespace Lane.Llvm

open Lane.Code (Operand IsGuarded)

/-! ## Missing operands -/

section Missing

variable {env : EmitEnv} {b b' : Builder} {i : Code.Instr} {is : List Code.Instr}
  {f : Code.Function}

/-- What is absent has no value, and so no run. -/
lemma not_run_values : ∀ {os : List Operand} {b b' : Builder} {vs : List Value}, .absent ∈ os →
    ((values os).run env).run b ≠ .ok (vs, b')
  | o :: os, b, b', vs, h, hrun => by
    obtain ⟨v, c, hv, hrest⟩ := of_run_bind hrun
    obtain ⟨vs', c', hvs, -⟩ := of_run_bind hrest
    obtain rfl | h := List.mem_cons.1 h
    · cases hv
    · exact not_run_values h hvs

/-- What is absent has no address, and so no run. -/
lemma not_run_address {o : Option Code.Offset} {v : Value} :
    ((address .absent o).run env).run b ≠ .ok (v, b') := by
  intro hrun
  obtain ⟨p, c, hp, -⟩ := of_run_bind hrun
  cases hp

/-- **Instructions that use an operand that is not there** are not emitted. -/
lemma absent_notMem_uses (hrun : ((emitStep i).run env).run b = .ok ((), b')) :
    .absent ∉ i.uses := by
  intro hu
  have hi : i.isLabel = false ∧ i.isResults = false := by
    cases i <;> first | exact ⟨rfl, rfl⟩ | cases hu
  rw [run_emitStep hi.1 hi.2] at hrun
  cases i with
  | branch c yes no =>
    obtain rfl := List.mem_singleton.1 hu
    obtain ⟨v, c, hv, -⟩ := of_run_bind hrun
    cases hv
  | assign kind d args =>
    obtain ⟨v, c, hv, -⟩ := of_run_bind hrun
    obtain ⟨vs, c, hvs, -⟩ := of_run_bind hv
    exact not_run_values hu hvs
  | load d p o =>
    obtain rfl := List.mem_singleton.1 hu
    obtain ⟨t, c, -, hrest⟩ := of_run_bind hrun
    obtain ⟨v, c, hv, -⟩ := of_run_bind hrest
    exact not_run_address hv
  | lea d p o =>
    obtain rfl := List.mem_singleton.1 hu
    obtain ⟨v, c, hv, -⟩ := of_run_bind hrun
    exact not_run_address hv
  | store p o s =>
    obtain ⟨t, c, ht, hrest⟩ := of_run_bind hrun
    obtain ⟨v, c, hv, -⟩ := of_run_bind hrest
    obtain rfl | hu := List.mem_cons.1 hu
    · exact not_run_address hv
    · obtain rfl := List.mem_singleton.1 hu
      cases ht
  | alloc d n =>
    obtain rfl := List.mem_singleton.1 hu
    obtain ⟨v, c, hv, -⟩ := of_run_bind hrun
    cases hv
  | memcpy d s n =>
    obtain ⟨vs, c, hvs, -⟩ := of_run_bind hrun
    exact not_run_values hu hvs
  | call g ins outs =>
    obtain ⟨vs, c, hvs, -⟩ := of_run_bind hrun
    exact not_run_values hu hvs
  | _ => cases hu

/-- Emitted code uses nothing that is absent. -/
lemma absent_notMem_of_emitBody : ∀ {is : List Code.Instr} {b b' : Builder},
    ((emitBody is).run env).run b = .ok ((), b') → ∀ j ∈ is, .absent ∉ j.uses
  | [], _, _, _ => List.forall_mem_nil _
  | i :: is, b, b', hrun => by
    rw [emitBody_cons] at hrun
    obtain ⟨⟨⟩, c, hi, his⟩ := of_run_bind hrun
    exact List.forall_mem_cons.2 ⟨absent_notMem_uses hi, absent_notMem_of_emitBody his⟩

/-- **Emission does not come to an allocation or a copy** in guarded code. -/
lemma not_run_of_isGuarded {code before after : List Code.Instr} (h : IsGuarded code)
    (hsplit : code = before ++ i :: after) (hi : i.isHeap) (hb : b.function.blocks = #[]) :
    ((emitUpTo f before).run env).run b ≠ .ok ((), b') := by
  intro hrun
  rw [run_emitUpTo hb] at hrun
  obtain ⟨_, c, -, hbody⟩ := of_run_bind hrun
  obtain ⟨j, hj, hu⟩ := h before i after hsplit hi
  exact absent_notMem_of_emitBody hbody j hj hu

/-- Other instructions do not call the runtime. -/
lemma callsRuntime_of_not_isHeap (hi : i.isHeap = false) : CallsRuntime env b i := by
  cases i with
  | alloc | memcpy => cases hi
  | _ => trivial

end Missing

end Lane.Llvm

namespace Lane

open Code Llvm Lowering Packing

/-! ## Programs -/

/-- **Programs that fit the runtime**: a foreign function with the name of a function of the runtime
takes and returns the same types. -/
def Elaborated.FitsRuntime (e : Elaborated) : Prop :=
  ∀ x ∈ e.program.foreigns, ∀ f ∈ [mallocDecl, memcpyDecl], x.name = f.name →
    (declared (foreignDecl x)).Matches f

/-- **The modules of a program**: that of its code, and those to which packed versions were
added. -/
def LoweredProgram.HasModule (p : LoweredProgram) (e : Elaborated) (m : Code.Module) : Prop :=
  m = p.module ∨ ∃ ds q, (p.pack e ds).2 = .ok q ∧ m = q.module

namespace Accepted

variable {file name : String} {text : List Rune} {e : Elaborated} {width : Int} {ds : Diagnostics}
  {p : LoweredProgram} {m : Code.Module}

/-- The declarations of a module have different identifiers: those of the program are there, and
those of packed versions have a dot. -/
lemma exists_decls (h : Accepted file text e) (hp : (e.lower name width ds).2 = .ok p)
    (hok : p.isOk) (hm : p.HasModule e m) : (m.registry.decls.map FuncDecl.id).Nodup ∧
    ∃ packed, m.registry.decls = (declaredOf e).registry.decls ++ packed ∧
      ∀ d ∈ packed, ¬ Lane.IsPlain d.id := by
  obtain ⟨-, -, -, hregistry, -⟩ := h.typed.of_lower_isOk hp hok
  obtain rfl | ⟨ds', q, hq, rfl⟩ := hm
  · rw [hregistry]
    exact ⟨h.nodup_ids_declaredOf, [], (List.append_nil _).symm, List.forall_mem_nil _⟩
  · obtain ⟨hfrom, -, -⟩ := LoweredProgram.of_pack hq rfl
    obtain ⟨r, hr⟩ := h.typed.declareAll_eq h.isPlain_foreign hp (layoutsOf e p ds')
    refine ⟨?_, (tasks e p (layoutsOf e p ds')).map fun t =>
      (t.decl (layoutsOf e p ds') p.width).decl, ?_, ?_⟩
    · rw [hfrom.registry_eq, ← registry_of_declareAll _ _ hr]
      exact nodup_ids_of_declareAll _ _ hr (hregistry ▸ h.nodup_ids_declaredOf)
    · rw [hfrom.registry_eq, hregistry]
    · refine List.forall_mem_map.2 fun t _ => ?_
      exact not_isPlain_packedId t.scalar.decl

/-- **The functions of the runtime are right** exactly if the foreign functions of their names
are. -/
lemma matches_iff_fitsRuntime (h : Accepted file text e) (hp : (e.lower name width ds).2 = .ok p)
    (hok : p.isOk) (hm : p.HasModule e m) :
    (∀ f ∈ [mallocDecl, memcpyDecl], (m.runtime f).Matches f) ↔ e.FitsRuntime := by
  obtain ⟨hn, packed, hdecls, hpacked⟩ := h.exists_decls hp hok hm
  have hplain : ∀ f ∈ [mallocDecl, memcpyDecl], Lane.IsPlain f.name := by
    simp [mallocDecl, memcpyDecl, Lane.IsPlain]
  simp only [Code.Module.matches_runtime_iff hn]
  constructor
  · intro hall x hx f hf hname
    refine hall f hf (foreignDecl x) ?_ hname
    rw [hdecls]
    refine List.mem_append_left _ (List.mem_append_left _ ?_)
    exact List.mem_map.2 ⟨_, List.mem_map_of_mem hx, rfl⟩
  · intro hfits f hf d hd hid
    rw [hdecls] at hd
    obtain hd | hd := List.mem_append.1 hd
    · obtain hd | hd := List.mem_append.1 hd
      · obtain ⟨_, hentry, rfl⟩ := List.mem_map.1 hd
        obtain ⟨x, hx, rfl⟩ := List.mem_map.1 hentry
        exact hfits x hx f hf hid
      · obtain ⟨g, n, -, rfl⟩ := mem_declsFrom hd
        exact (not_isPlain_identifier g n (show Lane.IsPlain (memberDecl e g n).id from
          hid ▸ hplain f hf)).elim
    · exact (hpacked d hd (hid ▸ hplain f hf)).elim

/-- **The code of a function** is well typed, or does not come to allocate. -/
lemma exists_typedCode (h : Accepted file text e) (hp : (e.lower name width ds).2 = .ok p)
    (hok : p.isOk) {fn : Code.Function} (hfn : fn ∈ p.module.functions) :
    (∀ o ∈ fn.params, ∃ v, o = .var v) ∧ ∃ code, fn.body = Function.frame code ∧
      (IsTypedCode (· ∈ (declaredOf e).registry.decls) code ∨ IsGuarded code) := by
  obtain ⟨hcomplete, -, -, -⟩ := h.lower_isOk hp hok
  obtain ⟨f, hf, hclean, hcode⟩ := h.exists_isCodeOf hp hok hfn
  have htyped := (hcode.spec h.typed hcomplete hf hclean).1
  obtain ⟨code, hbody, htidy⟩ := hcode.exists_isTidy h.typed hcomplete hf hclean
  obtain ⟨n, hfunction⟩ := hcode
  have hregular := regular_of_function hfunction
  have hinstrs := htidy.instrs_eq hbody
  refine ⟨fun o ho => (hregular.params_vars o ho).2, ?_⟩
  by_cases hcopies : CopiesClass e f
  · refine ⟨code, hbody, .inl ?_⟩
    have hwell := htyped.2 hcopies
    obtain ⟨q, b, hrun, hfneq⟩ := of_function_eq_ok hfunction
    have hframe : Function.frame b.code = Function.frame code :=
      (congrArg Code.Function.body hfneq).symm.trans hbody
    obtain rfl : b.code = code := by simpa [Function.frame] using hframe
    refine ⟨fun i hi => ?_, fun i hi o ho => ?_, (confined_of_build hrun).2,
      (confined_of_build hrun).1, htidy.numbers_nodup, fun d size hi => ?_⟩
    · refine hwell.body_typed i (hbody ▸ ?_)
      exact List.mem_append_left _ (List.mem_append_right _ hi)
    · exact (hregular.instrs i (hinstrs ▸ hi)).scalar o (i.uses_subset_operands ho)
    · exact (hregular.instrs (.alloc d size) (hinstrs ▸ hi)).fresh d (List.mem_singleton_self d)
  · obtain ⟨code', hbody', hguarded⟩ := isGuarded_of_not_copiesClass
      (h.furnishes p.layouts p.width (memberDecl e f n)) hf (h.isTreatable hf) hcopies hfunction
    exact ⟨code', hbody', .inr hguarded⟩

/-- **Allocations and copies are calls of the runtime** with values of the types that it takes,
exactly if the foreign functions with the names of the runtime have its types. Then none of them
stops emission, wherever it stands in the code or the packed code of an accepted program. The
functions of a module are emitted in turn, and all of them call the same functions of the runtime.

**Proof sketch.** Functions of the runtime are looked up by name, and only foreign functions have
names without dots (`matches_iff_fitsRuntime`). The registers that an allocation or a copy uses have
values of their types (`areValues_of_emitUpTo`), unless the function copies what is no instance of
its class: then an operand is missing before (`not_run_of_isGuarded`). Packed versions do not
allocate. -/
theorem calls_runtime (h : Accepted file text e) (hp : (e.lower name width ds).2 = .ok p)
    (hok : p.isOk) (hm : p.HasModule e m) :
    m.toLlvm = m.emitted ∧
    ((∀ f ∈ [mallocDecl, memcpyDecl], (m.runtime f).Matches f) ↔ e.FitsRuntime) ∧
    (e.FitsRuntime → ∀ fn ∈ m.functions, ∀ before i after, fn.code = before ++ i :: after →
      ∀ (g : Llvm.Function) (b : Llvm.Builder), g.blocks = #[] →
        ((emitUpTo fn before).run (m.emitEnv fn)).run ⟨g, 0, [], []⟩ = .ok ((), b) →
        CallsRuntime (m.emitEnv fn) b i) := by
  have hfits := h.matches_iff_fitsRuntime hp hok hm
  refine ⟨m.toLlvm_eq, hfits, fun hruntime fn hfn before i after hsplit g b hg hrun => ?_⟩
  obtain ⟨hn, packed, hdecls, -⟩ := h.exists_decls hp hok hm
  have hmatches := hfits.2 hruntime
  have hserves : (m.emitEnv fn).Serves (· ∈ (declaredOf e).registry.decls) :=
    ⟨fun d hd => Code.Module.lookup_emitEnv hn fn (hdecls ▸ List.mem_append_left _ hd),
      hmatches _ List.mem_cons_self, hmatches _ (List.mem_cons_of_mem _ List.mem_cons_self)⟩
  cases hi : i.isHeap with
  | false => exact callsRuntime_of_not_isHeap hi
  | true =>
    have hscalar : fn ∈ p.module.functions := by
      obtain rfl | ⟨ds', q, hq, rfl⟩ := hm
      · exact hfn
      · obtain hfn | ⟨t, -, env, d, hpack⟩ := of_mem_pack hq hfn
        · exact hfn
        · have hmem : i ∈ fn.body := by
            have hcode : i ∈ fn.code := by simp [hsplit]
            exact (List.dropWhile_suffix _).subset (List.mem_of_mem_drop hcode)
          rw [packFunction_heapless hpack i hmem] at hi
          cases hi
    obtain ⟨hps, code, hbody, hcode⟩ := h.exists_typedCode hp hok hscalar
    obtain ⟨after', hsplit'⟩ := exists_split_of_isHeap hbody hsplit hi
    obtain htyped | hguarded := hcode
    · exact htyped.callsRuntime hserves hps hsplit' hg rfl hrun
    · exact absurd hrun (not_run_of_isGuarded hguarded hsplit' hi hg)

/-- A program with a foreign `malloc` that fits. -/
def fittingMalloc : String :=
  "extern malloc(n: index) -> (p: ptr{int8});
    class B { routine f(n: index) { var a: array{int} = n; } }"

/-- A foreign `malloc` that fits: an array is allocated by it. -/
theorem calls_runtime_array : ∃ e p, compile? fittingMalloc = some (e, p) ∧ p.isOk ∧
    e.FitsRuntime ∧ p.module.toLlvm = p.module.emitted ∧
    (∀ f ∈ [mallocDecl, memcpyDecl], (p.module.runtime f).Matches f) ∧
    ∃ fn ∈ p.module.functions, ∃ before i after b, fn.code = before ++ i :: after ∧ i.isHeap ∧
      ((emitUpTo fn before).run (p.module.emitEnv fn)).run ⟨declared fn.decl, 0, [], []⟩ =
        .ok ((), b) ∧ CallsRuntime (p.module.emitEnv fn) b i := by
  have hrun : (compile? fittingMalloc).any fun q => q.2.isOk &&
      (q.1.program.foreigns.all fun x =>
        decide (foreignDecl x = ⟨"malloc", [.index], [.ptr], false, true⟩)) &&
      q.2.module.functions.any fun fn => (List.range fn.code.length).any fun k =>
        fn.code[k]?.any Instr.isHeap &&
          (((emitUpTo fn (fn.code.take k)).run (q.2.module.emitEnv fn)).run
            ⟨declared fn.decl, 0, [], []⟩).toBool := by
    rw [compile?, fittingMalloc, Rune.ascii_ofList]
    decide +kernel
  obtain ⟨⟨e, p⟩, hc, hrun⟩ := (Option.any_eq_true ..).1 hrun
  simp only [Bool.and_eq_true, List.all_eq_true, List.any_eq_true, decide_eq_true_eq,
    Option.any_eq_true] at hrun
  obtain ⟨⟨hok, hforeign⟩, fn, hfn, k, -, ⟨i, hget, hheap⟩, hemit⟩ := hrun
  obtain ⟨hacc, hp⟩ := of_compile? hc
  have hfits : e.FitsRuntime := by
    intro x hx f hf hname
    rw [hforeign x hx]
    have hx : x.name = "malloc" := congrArg FuncDecl.id (hforeign x hx)
    simp only [List.mem_cons, List.not_mem_nil, or_false] at hf
    obtain rfl | rfl := hf
    · exact ⟨rfl, rfl, rfl⟩
    · exact absurd (hx.symm.trans hname) (by decide)
  obtain ⟨b, hb⟩ : ∃ b, ((emitUpTo fn (fn.code.take k)).run (p.module.emitEnv fn)).run
      ⟨declared fn.decl, 0, [], []⟩ = .ok ((), b) := by
    cases hcase : ((emitUpTo fn (fn.code.take k)).run (p.module.emitEnv fn)).run
        ⟨declared fn.decl, 0, [], []⟩ with
    | error x =>
      rw [hcase] at hemit
      cases hemit
    | ok r => exact ⟨r.2, rfl⟩
  have hsplit : fn.code = fn.code.take k ++ i :: fn.code.drop (k + 1) := by
    obtain ⟨hk, rfl⟩ := List.getElem?_eq_some_iff.1 hget
    rw [List.getElem_cons_drop, List.take_append_drop]
  obtain ⟨heq, hmatches, hcalls⟩ := hacc.calls_runtime hp hok (.inl rfl)
  exact ⟨e, p, hc, hok, hfits, heq, hmatches.2 hfits, fn, hfn, _, i, _, b, hsplit, hheap, hb,
    hcalls hfits fn hfn _ i _ hsplit (declared fn.decl) b rfl hb⟩

end Accepted

/-- Whether a function is called somewhere in another one, with values of these types. -/
def Llvm.Function.hasCall (g : Llvm.Function) (callee : String) (ts : List LType) : Bool :=
  g.blocks.toList.any fun k => k.instrs.toList.any fun i =>
    match i.op with
    | .call _ f args => f == callee && LType.sameAll (args.map Value.type) ts
    | _ => false

namespace Accepted

/-- A program with a foreign `malloc` that does not fit. -/
def misfittingMalloc : String :=
  "extern malloc(n: int) -> (p: ptr{int8});
    class B { routine f(n: index) { var a: array{int} = n; } }"

/-- **A foreign function that does not fit**: it takes words of 32 bits, and is called with a word
of 64 bits to allocate an array. The program is accepted, and its module is emitted. -/
theorem misfit_malloc : ∃ e p llvm, compile? misfittingMalloc = some (e, p) ∧ p.isOk ∧
    p.module.toLlvm = .ok llvm ∧
    (∃ f ∈ llvm.functions, f.name = "malloc" ∧
      LType.sameAll (f.params.map Llvm.Param.type) [.int 32]) ∧
    ∃ g ∈ llvm.functions, g.hasCall "malloc" [.int 64] := by
  have hrun : (compile? misfittingMalloc).any fun q =>
      q.2.isOk && q.2.module.toLlvm.toOption.any fun llvm =>
        (llvm.functions.any fun f => f.name == "malloc" &&
          LType.sameAll (f.params.map Llvm.Param.type) [.int 32]) &&
        llvm.functions.any fun g => g.hasCall "malloc" [.int 64] := by
    rw [compile?, misfittingMalloc, Rune.ascii_ofList]
    decide +kernel
  obtain ⟨⟨e, p⟩, hc, hrun⟩ := (Option.any_eq_true ..).1 hrun
  obtain ⟨hok, hrun⟩ := Bool.and_eq_true_iff.1 hrun
  obtain ⟨llvm, hllvm, hrun⟩ := (Option.any_eq_true ..).1 hrun
  simp only [Bool.and_eq_true, List.any_eq_true, beq_iff_eq] at hrun
  obtain ⟨hdeclared, hcalls⟩ := hrun
  refine ⟨e, p, llvm, hc, hok, ?_, hdeclared, hcalls⟩
  cases hcase : p.module.toLlvm with
  | error x =>
    rw [hcase] at hllvm
    cases hllvm
  | ok m =>
    rw [hcase] at hllvm
    exact congrArg _ (Option.some.inj hllvm)

end Accepted

end Lane
