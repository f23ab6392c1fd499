import Lane.Build.Unit
import Lane.Proofs.Analysis.Complete
import Lane.Proofs.Lowering.Cycles
import Lane.Proofs.Lowering.Program
import Lane.Proofs.Packing.Layouts

set_option relaxedAutoImplicit false
set_option autoImplicit false

/-!
# Outputs and errors

A stage of a compilation fails if and only if it reports an error, except that a text which is
parsed goes on to be analysed with whatever was found wrong in its tree. So an output is written if
and only if there is a tree, and nothing after it is an error.

## Main definitions

* `Lane.Compilation.IsEmitted`: compilations whose output is written.
* `Lane.Compilation.Tells`: compilations that are fine if and only if they reported no error.

## Main results

* `Lane.Elaborated.lower_reported`, `Lane.LoweredProgram.pack_reported`: what is lowered or packed
  is fine if and only if no error was reported.
* `Lane.BuildSettings.isEmitted_iff`: when the output of a file is written.
-/

namespace Lane

/-! ## Packed programs -/

namespace Packing

open Lowering (Layouts)

variable {p : Program} {layouts : Layouts} {W : Nat} {ds : Diagnostics}

/-- All errors about packed layouts are counted. -/
lemma packClassIn_reported : ∀ (fuel : Nat) (c : ClassRef) (l : PackedLayouts),
    ds.Reported l.errors l.diagnostics →
    ds.Reported (packClassIn p layouts W fuel c l).2.errors
      (packClassIn p layouts W fuel c l).2.diagnostics
  | 0, _, _, h => h
  | fuel + 1, c, l, h => by
    have hrecorded : ∀ (n : String) (x : Option Code.Struct) (l : PackedLayouts),
        ds.Reported l.errors l.diagnostics →
        ds.Reported (recorded c n x l).errors (recorded c n x l).diagnostics := by
      intro n x l h
      cases x <;> exact h
    obtain ⟨x, -, heq⟩ | ⟨-, ⟨-, heq⟩ | ⟨scalar, -, -, heq⟩⟩ :=
      packClassIn_cases p layouts W fuel c l <;> rw [heq]
    · exact h
    · exact hrecorded "" none l h
    · exact hrecorded _ _ _ (packVars_induction (I := fun l => ds.Reported l.errors l.diagnostics)
        (fun _ _ _ h => h.push rfl) _ _ true l (fun _ _ _ _ _ h => h)
        (fun _ _ _ d _ l h => packClassIn_reported fuel d l h) h)

/-- **Reported errors** of the packed layouts of a program. -/
lemma packAll_reported (p : Program) (layouts : Layouts) (W : Nat) (ds : Diagnostics) :
    ds.Reported (packAll p layouts W ds).errors (packAll p layouts W ds).diagnostics := by
  have fold : ∀ (cs : List Class) (l : PackedLayouts), ds.Reported l.errors l.diagnostics →
      ds.Reported (cs.foldl (fun l c => (packClass p layouts W c.ref l).2) l).errors
        (cs.foldl (fun l c => (packClass p layouts W c.ref l).2) l).diagnostics := by
    intro cs
    induction cs with
    | nil => exact fun _ h => h
    | cons c cs ih => exact fun l h => ih _ (packClassIn_reported _ _ _ h)
  exact fold _ _ (.refl ds)

/-- All functions that have no packed version are counted. -/
lemma packFunctions_reported (env : PackEnv) : ∀ (ts : List Task) (r : PackedFunctions),
    ds.Reported r.errors r.diagnostics →
    ds.Reported (packFunctions env ts r).errors (packFunctions env ts r).diagnostics
  | [], _, h => h
  | t :: ts, r, h => by
    unfold packFunctions
    split
    · exact h
    · split
      · exact packFunctions_reported env ts _ h
      · exact packFunctions_reported env ts _ (h.push rfl)
      · exact h

end Packing

/-- **Packing tells its errors**: a program is packed without failure if and only if no error is
reported. -/
theorem LoweredProgram.pack_reported {p : LoweredProgram} {e : Elaborated} {ds : Diagnostics}
    {q : PackedProgram} (h : (p.pack e ds).2 = .ok q) :
    ∃ n, ds.Reported n (p.pack e ds).1 ∧ (q.isOk ↔ n = 0) := by
  unfold pack at h ⊢
  extract_lets l ts at h
  extract_lets
  cases hdecl : Packing.declareAll l p.width ts p.module.registry with
  | error x =>
    rw [hdecl] at h
    cases h
  | ok r =>
    obtain ⟨registry, decls⟩ := r
    simp only [hdecl] at h ⊢
    have hlayouts : ds.Reported l.errors l.diagnostics :=
      Packing.packAll_reported e.program p.layouts p.width ds
    have hfns : l.diagnostics.Reported _ _ :=
      Packing.packFunctions_reported ⟨l, decls, p.width⟩ ts
        { diagnostics := l.diagnostics } (.refl _)
    refine ⟨_, hlayouts.trans hfns, ?_⟩
    split at h
    · cases h
    · obtain rfl := Except.ok.inj h
      simp

/-- **Lowering tells its errors**: a program is lowered without failure if and only if no error is
reported. -/
theorem Elaborated.lower_reported {e : Elaborated} (he : e.program.WellFormed) {name : String}
    {width : Int} {ds : Diagnostics} {p : LoweredProgram} (h : (e.lower name width ds).2 = .ok p) :
    ∃ n, ds.Reported n (e.lower name width ds).1 ∧ (p.isOk ↔ n = 0) := by
  refine ⟨_, Lowering.layoutAll_reported (p := e.program) ds, ?_⟩
  have hiff := Lowering.layoutAll_errors_iff he ds
  unfold lower at h
  simp only at h
  split at h
  · rename_i hlacks
    have hpos := hiff.2 hlacks
    obtain rfl := Except.ok.inj h
    exact iff_of_false nofun (Nat.pos_iff_ne_zero.1 hpos)
  · rename_i hall
    have hzero := Nat.eq_zero_of_not_pos (mt hiff.1 hall)
    obtain ⟨d, -, h⟩ := Lowering.of_bind_eq_ok h
    obtain ⟨fns, -, h⟩ := Lowering.of_bind_eq_ok h
    obtain rfl := Except.ok.inj h
    exact iff_of_true rfl hzero

/-! ## Compilations -/

/-- A text without a tree has one diagnostic, which is an error. -/
lemma ProgramSyntax.parse_eq_none {file : String} {rs : List Rune}
    (h : (ProgramSyntax.parse file rs).2 = none) :
    ∃ x : Diagnostic, (ProgramSyntax.parse file rs).1 = [x] ∧ x.isError := by
  unfold parse at h ⊢
  split
  · exact ⟨_, rfl, rfl⟩
  · rename_i hscan
    simp only [hscan] at h
    split
    · exact ⟨_, rfl, rfl⟩
    · rename_i tree htree
      rw [htree] at h
      simp only at h
      split at h <;> cases h

namespace Compilation

/-- **Written outputs**: all stages of the compilation went well, so that its output is written. -/
def IsEmitted (c : Compilation) : Prop := c.fault = none ∧ c.isOk ∧ c.packed.isSome

/-- **Telling compilations**: after the diagnostics `ds` there are errors if and only if the last
stage failed. -/
def Tells (c : Compilation) (ds : Diagnostics) : Prop :=
  ∃ found, c.diagnostics = ds.append found ∧ (c.isOk ↔ ∀ x ∈ found, x.isError = false)

/-- A stage after stages that went well. -/
lemma Tells.step {c d : Compilation} {ds : Diagnostics} {n : Nat} (h : c.Tells ds) (hok : c.isOk)
    (hd : c.diagnostics.Reported n d.diagnostics) (hn : d.isOk ↔ n = 0) : d.Tells ds := by
  obtain ⟨found, hfound, hiff⟩ := h
  obtain ⟨more, hmore, herr, rfl⟩ := hd
  refine ⟨found ++ more, by rw [hmore, hfound, ds.append_append], hn.trans ?_⟩
  have hclean := hiff.1 hok
  constructor
  · intro hnil x hx
    rw [List.length_eq_zero_iff.1 hnil, List.append_nil] at hx
    exact hclean x hx
  · intro hall
    refine List.length_eq_zero_iff.2 (List.eq_nil_iff_forall_not_mem.2 fun x hx => ?_)
    have := hall x (List.mem_append_right _ hx)
    rw [herr x hx] at this
    cases this

/-- The analysis of a tree tells its errors, and gives a well-formed program if there are none. -/
lemma analyze_tells (c : Compilation) (hc : c.fault = none) (tree : ProgramSyntax) :
    (c.analyze tree).fault = none ∧ (c.analyze tree).stage = .analyze ∧
      (c.analyze tree).tree = c.tree ∧ (c.analyze tree).lowered = c.lowered ∧
      (c.analyze tree).packed = c.packed ∧ (c.analyze tree).Tells c.diagnostics ∧
      ∃ e, (c.analyze tree).elaborated = some e ∧
        ((c.analyze tree).isOk → e.program.WellFormed) := by
  have hcomplete := Analysis.program_ends tree c.diagnostics
  have htyped := Elaborated.typed_of_isOk tree c.diagnostics
  unfold Analysis.Ends StateT.run at hcomplete
  unfold Elaborated.ofSyntax at htyped
  unfold analyze
  generalize Analysis.program tree { diagnostics := c.diagnostics } = r at hcomplete htyped ⊢
  obtain ⟨e, d⟩ := r
  obtain ⟨hfault, -, found, hfound, hiff⟩ := hcomplete
  simp only at hfault hfound hiff htyped ⊢
  rw [hfault]
  refine ⟨hc, rfl, rfl, rfl, rfl, ⟨found, hfound, ?_⟩, e, rfl, fun hok => (htyped hok).1.program_wf⟩
  rw [← not_iff_not, Bool.not_eq_true, hiff]
  simp

/-- Lowering after an analysis without errors tells its errors, if it comes to its end. -/
lemma lower_tells {c : Compilation} {ds : Diagnostics} (src : SourceText) {e : Elaborated}
    (h : c.Tells ds) (hok : c.isOk) (he : e.program.WellFormed) :
    (∃ x, (c.lower src e).fault = some x) ∨
      ∃ p, c.lower src e = { c with
          stage := .lower, isOk := p.isOk, diagnostics := (c.lower src e).diagnostics
          lowered := some p } ∧ (c.lower src e).Tells ds := by
  have htold := @Elaborated.lower_reported e he src.file src.width c.diagnostics
  unfold lower
  generalize e.lower src.file src.width c.diagnostics = r at htold ⊢
  obtain ⟨es, x | p⟩ := r
  · exact .inl ⟨x, rfl⟩
  · obtain ⟨n, hn, hp⟩ := htold rfl
    exact .inr ⟨p, rfl, h.step hok hn hp⟩

/-- Packing after a lowering without errors tells its errors, if it comes to its end. -/
lemma pack_tells {c : Compilation} {ds : Diagnostics} (e : Elaborated) (p : LoweredProgram)
    (h : c.Tells ds) (hok : c.isOk) :
    (∃ x, (c.pack e p).fault = some x) ∨
      ∃ q, c.pack e p = { c with
          stage := .vectorize, isOk := q.isOk, diagnostics := (c.pack e p).diagnostics
          packed := some q } ∧ (c.pack e p).Tells ds := by
  have htold := @LoweredProgram.pack_reported p e c.diagnostics
  unfold pack
  generalize p.pack e c.diagnostics = r at htold ⊢
  obtain ⟨es, x | q⟩ := r
  · exact .inl ⟨x, rfl⟩
  · obtain ⟨n, hn, hq⟩ := htold rfl
    exact .inr ⟨q, rfl, h.step hok hn hq⟩

/-- A compilation that failed stays where it is. -/
lemma advance_of_failed {c : Compilation} (src : SourceText) (last : Stage) (n : Nat)
    (h : c.isOk = false ∨ ∃ x, c.fault = some x) : advance src last false n c = c := by
  have hstop : c.goesOn last false = false := by
    obtain h | ⟨x, h⟩ := h <;> simp [goesOn, h]
  cases n with
  | zero => rfl
  | succ n => simp [advance, hstop]

/-- A compilation that did not fail goes on to the next stage. -/
lemma advance_of_ok {c : Compilation} (src : SourceText) {last : Stage} (n : Nat) (h : c.isOk)
    (hfault : c.fault = none) (hstage : c.stage ≠ last) :
    advance src last false (n + 1) c = advance src last false n (c.next src) := by
  simp [advance, goesOn, h, hfault, hstage]

/-- **Compilations tell their errors**: a text that has a tree goes through all stages without a
failure if and only if no error is reported after it was parsed, unless the compiler itself fails.

**Proof sketch.** The errors of a stage are those that it counts, and a stage that fails is the last
one. -/
theorem run_tells (src : SourceText) {tree : ProgramSyntax} (htree : (parse src).tree = some tree) :
    (∃ x, (run src .vectorize false).fault = some x) ∨
      (run src .vectorize false).Tells (parse src).diagnostics ∧
        ((run src .vectorize false).IsEmitted ↔ (run src .vectorize false).isOk) := by
  have hparse : (parse src).isOk ∧ (parse src).stage = .parse ∧ (parse src).fault = none ∧
      (parse src).packed = none := ⟨congrArg Option.isSome htree, rfl, rfl, rfl⟩
  unfold run
  generalize parse src = c at htree hparse ⊢
  obtain ⟨hok, hstage, hfault, hpacked⟩ := hparse
  have failed : ∀ d : Compilation, d.isOk = false → (d.IsEmitted ↔ d.isOk) := fun d h =>
    iff_of_false (fun hd => absurd hd.2.1 (by simp [h])) (by simp [h])
  rw [advance_of_ok src 2 hok hfault (by simp [hstage])]
  obtain ⟨hfault1, hstage1, htree1, -, hpacked1, htells1, e, he, hwf⟩ := analyze_tells c hfault tree
  have hnext : c.next src = c.analyze tree := by simp [next, hstage, htree]
  rw [hnext]
  generalize c.analyze tree = c1 at *
  cases hok1 : c1.isOk with
  | false =>
    rw [advance_of_failed src _ 2 (.inl hok1)]
    exact .inr ⟨htells1, failed c1 hok1⟩
  | true =>
    rw [advance_of_ok src 1 hok1 hfault1 (by simp [hstage1])]
    have hnext1 : c1.next src = c1.lower src e := by simp [next, hstage1, he]
    rw [hnext1]
    obtain ⟨x, hx⟩ | ⟨p, heq2, htells2⟩ := lower_tells src htells1 hok1 (hwf hok1)
    · rw [advance_of_failed src _ 1 (.inr ⟨x, hx⟩)]
      exact .inl ⟨x, hx⟩
    · have hstage2 : (c1.lower src e).stage = .lower := by rw [heq2]
      have hfault2 : (c1.lower src e).fault = none := by rw [heq2, hfault1]
      have hnext2 : (c1.lower src e).next src = (c1.lower src e).pack e p := by
        rw [heq2]
        simp [next, he]
      generalize c1.lower src e = c2 at *
      cases hok2 : c2.isOk with
      | false =>
        rw [advance_of_failed src _ 1 (.inl hok2)]
        exact .inr ⟨htells2, failed c2 hok2⟩
      | true =>
        rw [advance_of_ok src 0 hok2 hfault2 (by simp [hstage2]), hnext2, advance]
        obtain hx | ⟨q, heq3, htells3⟩ := pack_tells e p htells2 hok2
        · exact .inl hx
        · refine .inr ⟨htells3, ?_⟩
          rw [heq3]
          simp [IsEmitted, hfault2]

end Compilation

namespace BuildSettings

variable {s : BuildSettings} {file : String} {source : List UInt8}

/-- The settings give no output for a compilation that is not written. -/
lemma output_of_not_isEmitted {c : Compilation} {out : Option String} (h : s.output c = .ok out)
    (hc : ¬c.IsEmitted) : out = none := by
  unfold output at h
  split at h
  · cases h
  · rename_i p hfault hpacked
    split at h
    · exact absurd ⟨hfault, ‹_›, by simp [hpacked]⟩ hc
    · exact (Except.ok.inj h).symm
  · exact (Except.ok.inj h).symm

/-- The settings write the program of a compilation whose output is written. -/
lemma output_of_isEmitted {c : Compilation} {out : Option String} (h : s.output c = .ok out)
    (hc : c.IsEmitted) : ∃ q text, c.packed = some q ∧ s.write q.module = .ok text ∧
      out = nonempty text := by
  obtain ⟨hfault, hok, hsome⟩ := hc
  obtain ⟨q, hq⟩ := Option.isSome_iff_exists.1 hsome
  simp only [output, hfault, hq, hok, if_true] at h
  cases hw : s.write q.module with
  | error x =>
    rw [hw] at h
    cases h
  | ok text =>
    rw [hw] at h
    exact ⟨q, text, hq, hw, (Except.ok.inj h).symm⟩

/-- **When an output is written**: unless the compiler itself fails, the output of a file is written
if and only if the file has a tree, and nothing that is reported after the tree was built is an
error. If it is written it is the text of the packed program, and if not then an error was
reported. -/
theorem isEmitted_iff (hs : s.isCheck = false) {out : Option String}
    (h : (s.compile file source).output = .ok out) :
    ∃ found, (s.compile file source).compilation.diagnostics =
        (Compilation.parse ⟨file, Rune.decode source, s.width⟩).diagnostics.append found ∧
      ((s.compile file source).compilation.IsEmitted ↔
        (Compilation.parse ⟨file, Rune.decode source, s.width⟩).tree.isSome ∧
          ∀ x ∈ found, x.isError = false) ∧
      ((s.compile file source).compilation.IsEmitted →
        ∃ q text, (s.compile file source).compilation.packed = some q ∧
          s.write q.module = .ok text ∧ out = nonempty text) ∧
      (¬(s.compile file source).compilation.IsEmitted →
        out = none ∧ (s.compile file source).compilation.diagnostics.failed) := by
  have hrun : s.compile file source =
      ⟨Compilation.run ⟨file, Rune.decode source, s.width⟩ .vectorize false,
        s.output (Compilation.run ⟨file, Rune.decode source, s.width⟩ .vectorize false)⟩ := by
    simp [compile, hs]
  rw [hrun] at h ⊢
  simp only at h ⊢
  generalize hsrc : (⟨file, Rune.decode source, s.width⟩ : SourceText) = src at h ⊢
  cases htree : (Compilation.parse src).tree with
  | none =>
    -- Without a tree nothing follows, and the text is in error.
    have hstop : Compilation.run src .vectorize false = Compilation.parse src :=
      Compilation.advance_of_failed src _ 3 (.inl (congrArg Option.isSome htree))
    rw [hstop] at h ⊢
    have hnot : ¬(Compilation.parse src).IsEmitted := fun hc => by
      have := hc.2.1
      rw [show (Compilation.parse src).isOk = (Compilation.parse src).tree.isSome from rfl,
        htree] at this
      cases this
    obtain ⟨x, hx, herr⟩ := ProgramSyntax.parse_eq_none htree
    refine ⟨[], (Diagnostics.append_nil _).symm, iff_of_false hnot (by simp),
      fun hc => absurd hc hnot, fun _ => ⟨output_of_not_isEmitted h hnot, ?_⟩⟩
    simp [Compilation.parse, hx, Diagnostics.failed, Diagnostics.append, Diagnostics.empty, herr]
  | some tree =>
    obtain ⟨x, hx⟩ | ⟨⟨found, hfound, hok⟩, hemit⟩ := Compilation.run_tells src htree
    · simp [output, hx] at h
    · refine ⟨found, hfound, by simp [hemit, hok], output_of_isEmitted h,
        fun hnot => ⟨output_of_not_isEmitted h hnot, ?_⟩⟩
      rw [hemit, hok] at hnot
      obtain ⟨y, hy, herr⟩ := not_forall₂.1 hnot
      rw [hfound]
      simp only [Diagnostics.failed, Diagnostics.append, Array.any_append, Bool.or_eq_true]
      exact .inr (by simpa using ⟨y, hy, by simpa using herr⟩)

/-- What compiling a text to code gives. -/
def compileText (text : String) : UnitResult :=
  (⟨4, "ir", false⟩ : BuildSettings).compile "a.ln" text.toUTF8.toList

/-- A class that holds itself. -/
def holdsItself : String := "class V { var v: V; }"

/-- A file whose output is not written, as a class holds itself. -/
theorem isEmitted_iff_cycle : ∃ found,
    (compileText holdsItself).compilation.diagnostics =
        (Compilation.parse ⟨"a.ln", Rune.decode holdsItself.toUTF8.toList, 4⟩).diagnostics.append
          found ∧
      ¬∀ x ∈ found, x.isError = false := by
  have hrun : (compileText holdsItself).output.isOk ∧
      (compileText holdsItself).compilation.isOk = false ∧
      (Compilation.parse ⟨"a.ln", Rune.decode holdsItself.toUTF8.toList, 4⟩).tree.isSome := by
    decide +kernel
  obtain ⟨hrun, hfail, htree⟩ := hrun
  cases hout : (compileText holdsItself).output with
  | error x =>
    rw [hout] at hrun
    cases hrun
  | ok out =>
    obtain ⟨found, hfound, hiff, -⟩ := isEmitted_iff rfl hout
    refine ⟨found, hfound, fun hclean => ?_⟩
    have hok : (compileText holdsItself).compilation.isOk :=
      (hiff.2 ⟨htree, hclean⟩).2.1
    rw [hfail] at hok
    cases hok

/-- A class whose constructor has a name. -/
def namedCreate : String := "class V { create foo() { } }"

/-- A file whose output is written though an error was reported: a constructor has a name. -/
theorem isEmitted_of_failed : ∃ text,
    (compileText namedCreate).output = .ok (some text) ∧
    (compileText namedCreate).compilation.IsEmitted ∧
    (compileText namedCreate).compilation.diagnostics.failed := by
  have hrun : (compileText namedCreate).output.toOption.join.isSome ∧
      (compileText namedCreate).compilation.fault.isNone ∧
      (compileText namedCreate).compilation.isOk ∧
      (compileText namedCreate).compilation.packed.isSome ∧
      (compileText namedCreate).compilation.diagnostics.failed := by
    decide +kernel
  obtain ⟨hout, hfault, hok, hpacked, hfailed⟩ := hrun
  have hemitted : (compileText namedCreate).compilation.IsEmitted :=
    ⟨Option.isNone_iff_eq_none.1 hfault, hok, hpacked⟩
  match h : (compileText namedCreate).output with
  | .ok (some text) => exact ⟨text, rfl, hemitted, hfailed⟩
  | .ok none | .error _ => simp [h, Except.toOption] at hout

end BuildSettings

end Lane
