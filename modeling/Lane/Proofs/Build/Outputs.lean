import Lane.Build.Run
import Lane.Project.Sources
import Lane.Proofs.Host.Path

set_option relaxedAutoImplicit false
set_option autoImplicit false

/-!
# Where outputs are written

The output of a file is named after the stem of the file, so that two files of one stem have the
same output unless they lie in different directories and no output directory is given. An output may
also be written over a source: one that has the extension of outputs.

## Main definitions

* `Lane.BuildOptions.place`: the directory and the stem of an output.
* `Lane.BuildOptions.writtenPaths`: the paths to which a build writes its outputs.
* `Lane.BuildOptions.OverwritesNothing`: the outputs of a build overwrite neither each other nor a
  source.

## Main results

* `Lane.BuildOptions.outputPath_inj`: outputs are the same if and only if their places are.
* `Lane.BuildOptions.outputPath_eq_source`: which sources an output is written over.
* `Lane.BuildOptions.overwritesNothing_iff`: when the outputs of a build overwrite nothing.
-/

namespace Lane

namespace BuildOptions

variable {o : BuildOptions} {us : List BuildUnit} {p q : String}

/-! ## Places -/

/-- **Paths of files**: clean, and not the root. -/
def IsFilePath (p : String) : Prop := Path.clean p = p ∧ p ≠ "/"

/-- The directory and the stem of the output of a file, unless the output file itself is given. -/
def place (o : BuildOptions) (p : String) : String × String :=
  (if o.output = "" then Path.dir p else Path.clean o.output, Path.stem p)

/-- A file is placed under the stem of its name. -/
@[simp]
lemma place_snd (o : BuildOptions) (p : String) : (o.place p).2 = Path.stem p := by
  rw [place]

/-- Where a file is placed: its directory and its stem. -/
lemma place_eq_iff {d s : String} :
    o.place p = (d, s) ↔ (o.place p).1 = d ∧ Path.stem p = s := by
  rw [Prod.ext_iff, place_snd]

/-- The directory in which an output is written, as it is given. -/
def directory (o : BuildOptions) (p : String) : String :=
  if o.output = "" then Path.dir p else o.output

/-- A directory always has a name. -/
lemma directory_ne_empty (o : BuildOptions) (p : String) : o.directory p ≠ "" := by
  unfold directory
  split
  · exact Path.dir_ne_empty p
  · assumption

/-- The directory of a file, cleaned. -/
lemma clean_directory (o : BuildOptions) (p : String) :
    Path.clean (o.directory p) = (o.place p).1 := by
  unfold directory place
  split
  · rw [Path.clean_dir]
  · rfl

/-- The extensions of outputs have one dot, at their start. -/
lemma exists_outputExt (o : BuildOptions) :
    ∃ letters, o.outputExt.toList = '.' :: letters ∧ '.' ∉ letters ∧ '/' ∉ letters ∧
      letters ≠ [] := by
  unfold outputExt
  split
  · exact ⟨['l', 'i', 'r'], by decide⟩
  · exact ⟨['l', 'l'], by decide⟩

/-- A stem with the extension of outputs names a file. -/
lemma isName_output (hp : IsFilePath p) (o : BuildOptions) :
    Path.IsName (Path.stem p ++ o.outputExt) := by
  obtain ⟨letters, hext, hdot, hslash, hne⟩ := o.exists_outputExt
  exact Path.isName_append hext hdot hslash hne (Path.slash_notMem_stem hp.1 hp.2)

/-- The output of a file is its stem with another extension, below the directory of outputs. -/
lemma outputPath_eq {isSingle : Bool} (h : ¬(isSingle ∧ o.output ≠ "")) :
    o.outputPath p isSingle = Path.join [o.directory p, Path.stem p ++ o.outputExt] := by
  unfold outputPath directory Path.stem
  by_cases ho : o.output = ""
  · simp only [if_pos ho]
  · have hsingle : ¬isSingle := fun hs => h ⟨hs, ho⟩
    simp only [if_neg ho, if_neg hsingle]

/-- **Equal outputs**: outputs are the same if and only if their places are. -/
theorem outputPath_inj {isSingle : Bool} (h : ¬(isSingle ∧ o.output ≠ "")) (hp : IsFilePath p)
    (hq : IsFilePath q) :
    o.outputPath p isSingle = o.outputPath q isSingle ↔ o.place p = o.place q := by
  have hpname := isName_output hp o
  have hqname := isName_output hq o
  obtain ⟨-, -, hpbase, hpdir⟩ := Path.join_spec (o.directory_ne_empty p) hpname
  obtain ⟨-, -, hqbase, hqdir⟩ := Path.join_spec (o.directory_ne_empty q) hqname
  rw [outputPath_eq h, outputPath_eq h]
  constructor
  · intro he
    rw [he, hqbase] at hpbase
    rw [he, hqdir, clean_directory, clean_directory] at hpdir
    have hstem : Path.stem p = Path.stem q := (String.append_left_inj _).1 hpbase.symm
    exact Prod.ext hpdir.symm (by simp only [place_snd, hstem])
  · intro he
    have hdir : Path.clean (o.directory p) = Path.clean (o.directory q) := by
      rw [clean_directory, clean_directory, he]
    have hstem : Path.stem p = Path.stem q := by rw [← o.place_snd p, he, place_snd]
    rw [← Path.join_clean (o.directory_ne_empty p) hpname, hdir, hstem,
      Path.join_clean (o.directory_ne_empty q) hqname]

/-- **Overwritten sources**: an output is written over a source if and only if the source has the
extension of outputs, and is in the place of the output. -/
theorem outputPath_eq_source {isSingle : Bool} (h : ¬(isSingle ∧ o.output ≠ "")) (hp : IsFilePath p)
    (hq : IsFilePath q) :
    o.outputPath p isSingle = q ↔
      Path.ext q = o.outputExt ∧ o.place p = (Path.dir q, Path.stem q) := by
  have hname := isName_output hp o
  obtain ⟨-, -, hbase, hdir⟩ := Path.join_spec (o.directory_ne_empty p) hname
  obtain ⟨letters, hext, hdot, -⟩ := o.exists_outputExt
  have hparts := Path.stem_ext_iff (s := Path.stem p) hext hdot hq.1 hq.2
  rw [outputPath_eq h]
  constructor
  · intro he
    rw [he] at hbase hdir
    obtain ⟨hqext, hqstem⟩ := hparts.1 hbase
    rw [place_eq_iff]
    exact ⟨hqext, by rw [hdir, clean_directory], hqstem.symm⟩
  · rintro ⟨hqext, hplace⟩
    obtain ⟨hpdir, hpstem⟩ := place_eq_iff.1 hplace
    have hqbase := hparts.2 ⟨hqext, hpstem.symm⟩
    have hqdir : Path.dir q = Path.clean (o.directory p) := by rw [clean_directory, hpdir]
    exact (Path.eq_join hq.1 (o.directory_ne_empty p) hname hqbase hqdir).symm

/-- The path of an output is clean already, unless it was given. -/
lemma clean_outputPath {isSingle : Bool} (h : ¬(isSingle ∧ o.output ≠ "")) (hp : IsFilePath p) :
    Path.clean (o.outputPath p isSingle) = o.outputPath p isSingle := by
  rw [outputPath_eq h]
  exact (Path.join_spec (o.directory_ne_empty p) (isName_output hp o)).1

/-! ## Builds -/

/-- The files of a build whose outputs are written. -/
def written (us : List BuildUnit) : List BuildUnit := us.filter fun u => !u.failed

/-- The paths to which a build writes the outputs of its files, cleaned. -/
def writtenPaths (o : BuildOptions) (us : List BuildUnit) : List String :=
  (written us).map fun u => Path.clean (o.outputPath u.path (us.length = 1))

/-- **Builds that overwrite nothing**: all outputs are written to paths of their own, none of which
is the path of a source. -/
def OverwritesNothing (o : BuildOptions) (us : List BuildUnit) : Prop :=
  (o.writtenPaths us).Nodup ∧ ∀ u ∈ us, u.path ∉ o.writtenPaths us

/-- A build of a single file with an output file writes to that file. -/
lemma overwritesNothing_single (h : us.length = 1 ∧ o.output ≠ "") :
    o.OverwritesNothing us ↔ ∀ u ∈ us, ¬u.failed → u.path ≠ Path.clean o.output := by
  obtain ⟨u, rfl⟩ := List.length_eq_one_iff.1 h.1
  cases hu : u.failed <;>
    simp [OverwritesNothing, writtenPaths, written, outputPath, h.2, hu]

/-- Other builds write outputs below directories. -/
lemma overwritesNothing_many (h : ¬(us.length = 1 ∧ o.output ≠ ""))
    (hus : ∀ u ∈ us, IsFilePath u.path) :
    o.OverwritesNothing us ↔ ((written us).map fun u => o.place u.path).Nodup ∧
      ∀ u ∈ written us, ∀ v ∈ us, Path.ext v.path = o.outputExt →
        o.place u.path ≠ (Path.dir v.path, Path.stem v.path) := by
  have h : ¬(decide (us.length = 1) = true ∧ o.output ≠ "") := by simpa using h
  have hwritten : ∀ u ∈ written us, IsFilePath u.path := fun u hu =>
    hus u (List.mem_of_mem_filter hu)
  have hpaths : o.writtenPaths us =
      (written us).map fun u => o.outputPath u.path (us.length = 1) :=
    List.map_congr_left fun u hu => clean_outputPath h (hwritten u hu)
  refine and_congr ?_ ?_
  · rw [hpaths, List.Nodup, List.Nodup, List.pairwise_map, List.pairwise_map]
    refine List.Pairwise.iff_of_mem fun {u v} hu hv => ?_
    exact not_congr (outputPath_inj h (hwritten u hu) (hwritten v hv))
  · rw [hpaths]
    constructor
    · intro hnot u hu v hv hext hplace
      exact hnot v hv (List.mem_map.2 ⟨u, hu,
        (outputPath_eq_source h (hwritten u hu) (hus v hv)).2 ⟨hext, hplace⟩⟩)
    · intro hnot v hv hmem
      obtain ⟨u, hu, he⟩ := List.mem_map.1 hmem
      obtain ⟨hext, hplace⟩ := (outputPath_eq_source h (hwritten u hu) (hus v hv)).1 he
      exact hnot u hu v hv hext hplace

/-! ## Source files -/

/-- The characters of the extension of sources. -/
lemma toList_sourceExtension : sourceExtension.toList = '.' :: ['l', 'n'] := by decide

/-- A source is known by its extension. -/
lemma ext_of_isSource (h : isSource p) : Path.ext p = sourceExtension := by
  obtain ⟨pre, hpre⟩ := List.isSuffixOf_iff_suffix.1 h
  have hne : ∀ c ∈ sourceExtension.toList.reverse, decide (c ≠ '/') = true := by
    simp [toList_sourceExtension]
  have hlast : Path.lastPart p =
      (pre.reverse.takeWhile fun c => decide (c ≠ '/')).reverse ++ '.' :: ['l', 'n'] := by
    rw [Path.lastPart, ← hpre, List.reverse_append, List.takeWhile_append_of_pos hne]
    simp [toList_sourceExtension]
  exact (Path.ext_eq hlast (by decide)).trans (by decide)

/-- No output is a source. -/
lemma outputExt_ne_source (o : BuildOptions) : o.outputExt ≠ sourceExtension := by
  unfold outputExt
  split <;> decide

/-- **Source files** are found again from the places of their outputs next to them. -/
lemma eq_of_place_eq (ho : o.output = "") (hp : IsFilePath p) (hq : IsFilePath q)
    (hps : isSource p) (hqs : isSource q) (h : o.place p = o.place q) : p = q := by
  have named : ∀ r, IsFilePath r → isSource r →
      r = Path.join [Path.dir r, Path.stem r ++ sourceExtension] := by
    intro r hr hrs
    have hname : Path.IsName (Path.stem r ++ sourceExtension) :=
      Path.isName_append toList_sourceExtension (by decide) (by decide) (by decide)
        (Path.slash_notMem_stem hr.1 hr.2)
    have hbase := (Path.stem_append_ext hr.1 hr.2).symm
    rw [ext_of_isSource hrs] at hbase
    exact Path.eq_join hr.1 (Path.dir_ne_empty r) hname hbase (Path.clean_dir r).symm
  simp only [place, if_pos ho, Prod.mk.injEq] at h
  rw [named p hp hps, named q hq hqs, h.1, h.2]

/-- Outputs next to source files overwrite nothing. -/
lemma overwritesNothing_of_isSource (ho : o.output = "") (hus : ∀ u ∈ us, IsFilePath u.path)
    (hsource : ∀ u ∈ us, isSource u.path) (hpaths : (us.map (·.path)).Nodup) :
    o.OverwritesNothing us := by
  refine (overwritesNothing_many (fun h => h.2 ho) hus).2 ⟨?_, ?_⟩
  · rw [List.Nodup, List.pairwise_map] at hpaths ⊢
    refine (hpaths.filter _).imp_of_mem fun {u v} hu hv hne hplace => hne ?_
    have hu := List.mem_of_mem_filter hu
    have hv := List.mem_of_mem_filter hv
    exact eq_of_place_eq ho (hus u hu) (hus v hv) (hsource u hu) (hsource v hv) hplace
  · intro u hu v hv hext
    rw [ext_of_isSource (hsource v hv)] at hext
    exact absurd hext.symm o.outputExt_ne_source

/-! ## When nothing is overwritten -/

/-- **Overwritten files**: a build of one file with an output file overwrites nothing if and only if
the output file is not the source. Another build overwrites nothing if and only if no two outputs
have the same place and no source that has the extension of outputs is in the place of an output. In
particular it overwrites nothing if outputs are written next to source files of the language.

**Proof sketch.** The directory and the stem of an output can be read off its path, and so can those
of a source. -/
theorem overwritesNothing_iff (o : BuildOptions) (us : List BuildUnit)
    (hus : ∀ u ∈ us, IsFilePath u.path) :
    (o.OverwritesNothing us ↔
      if us.length = 1 ∧ o.output ≠ "" then ∀ u ∈ us, ¬u.failed → u.path ≠ Path.clean o.output
      else ((written us).map fun u => o.place u.path).Nodup ∧
        ∀ u ∈ written us, ∀ v ∈ us, Path.ext v.path = o.outputExt →
          o.place u.path ≠ (Path.dir v.path, Path.stem v.path)) ∧
    (o.output = "" → (∀ u ∈ us, isSource u.path) → (us.map (·.path)).Nodup →
      o.OverwritesNothing us) := by
  refine ⟨?_, fun ho => overwritesNothing_of_isSource ho hus⟩
  split
  · exact overwritesNothing_single ‹_›
  · exact overwritesNothing_many ‹_› hus

/-- A build of two files of one name that are in different directories. -/
def namesakes : List BuildUnit := [{ path := "a/x.ln" }, { path := "b/x.ln" }]

/-- With an output directory, one output overwrites the other. -/
theorem overwritesNothing_iff_namesakes :
    (∀ u ∈ namesakes, IsFilePath u.path) ∧ (namesakes.map (·.path)).Nodup ∧
      ¬BuildOptions.OverwritesNothing { (default : BuildOptions) with output := "out" }
        namesakes := by
  have hus : ∀ u ∈ namesakes, IsFilePath u.path := by
    unfold IsFilePath
    decide +kernel
  refine ⟨hus, by decide +kernel, fun h => ?_⟩
  have hplaces := (overwritesNothing_iff _ _ hus).1.1 h
  revert hplaces
  decide +kernel

end BuildOptions

end Lane
