import Lane.Proofs.Lowering.Paths
import Lane.Proofs.Lowering.Program

set_option relaxedAutoImplicit false
set_option autoImplicit false

/-!
# Layouts are sound

Structs that are made by appending members and padding the size are sound, and so are those of the
classes of a program: each member is at the first place for it, and the paths into the struct of a
class lead to places inside of it that do not overlap. All of this holds as long as no size reaches
`2 ^ 63`, from where on sizes are negative words.

## Main results

* `Lane.Lowering.laidBelow_layoutEach`: the structs of a class and of those that it holds.
* `Lane.Accepted.layouts_isSound`: structs of parts and structs of classes are sound.
-/

namespace Lane.Lowering

open Code

variable {p : Program} {c : ClassRef} {cs : List ClassRef} {ds : Diagnostics}

/-- What is no class is stored as one machine value or as a header. -/
lemma isSound_instanceShape (t : Ty) : (instanceShape t).IsSound := by
  cases t with
  | container => exact MemberShape.isSound_header
  | scalar | cls | ptr | error => exact .of_value fun h => by cases h

/-- **The structs of a class** and of the classes that it holds are sound, in whatever order classes
were laid out. -/
theorem laidBelow_layoutEach (hp : p.WellFormed) (hc : p.Valid (.cls .var c))
    (hlt : ∀ d, Includes p c d → ∀ s, (layoutEach p cs { diagnostics := ds }).struct? d = some s →
      s.extent < 2 ^ 63) :
    LaidBelow p (layoutEach p cs { diagnostics := ds }).struct? (fun _ => instanceShape) c := by
  refine .of_lays (fun _ => isSound_instanceShape) (fun d hd s hs => ?_)
    (fun d _ => layoutEach_grounded p cs ds d) hlt
  obtain ⟨k, hk, rfl⟩ := hd.valid hp hc
  exact layoutEach_lay hp cs ds k hk s hs

end Lane.Lowering

namespace Lane.Accepted

open Code Lowering

variable {file : String} {text : List Rune} {e : Elaborated}

/-- **Layouts are sound**. A struct that is made of parts one after the other has a member for each
of them, and is sound: each member is at the least multiple of its alignment behind the one before
it, and the size is a multiple of the alignment. So is the struct of a class of an accepted program,
in whatever order classes are laid out. The paths to its leaves add up to the places to which they
lead; these are inside of the struct, aligned, and apart unless one path goes on where the other
ends.

**Proof sketch.** Both kinds of structs are stacked. By induction on their nesting, the structs
among their members are sound, so that masking bits rounds up (`Struct.IsStacked.isSound`). For
paths, see `ToLeaf.lands` and `ToLeaf.apart`. -/
theorem layouts_isSound (h : Accepted file text e) :
    (∀ (name : String) (parts : List (String × Part)),
      (∀ x ∈ parts, ∀ t, x.2 = .value t → t.IsRound) →
      (∀ x ∈ parts, ∀ t, x.2 = .nested t → t.IsFinished) →
      ((Struct.empty name).appendAll parts).finish.extent < 2 ^ 63 →
      ((Struct.empty name).appendAll parts).finish.members.map (fun m => (m.name, m.shape)) =
          parts.map (fun x => (x.1, x.2.shape)) ∧
        ((Struct.empty name).appendAll parts).finish.IsSound) ∧
    ∀ (cs : List ClassRef) (ds : Diagnostics) (c : ClassRef) (s : Struct),
      e.program.Valid (.cls .var c) →
      (layoutEach e.program cs { diagnostics := ds }).struct? c = some s →
      (∀ d, Includes e.program c d → ∀ t,
        (layoutEach e.program cs { diagnostics := ds }).struct? d = some t → t.extent < 2 ^ 63) →
      s.IsSound ∧
        (∀ π m, ToLeaf e.program (layoutEach e.program cs { diagnostics := ds }).struct? c π m →
          Lands s π m ∧ (Offset.ofPath π).bytes.toInt = distance π) ∧
        ∀ π m ρ m', ToLeaf e.program (layoutEach e.program cs { diagnostics := ds }).struct? c π m →
          ToLeaf e.program (layoutEach e.program cs { diagnostics := ds }).struct? c ρ m' →
          ¬π <+: ρ → ¬ρ <+: π → reach π ≤ distance ρ ∨ reach ρ ≤ distance π := by
  have hp := h.typed.program_wf
  refine ⟨fun name parts hvalue hnested hlt => ⟨Struct.map_members_appendAll name parts,
    (Struct.IsFinished.mk hvalue hnested hlt).isSound⟩, fun cs ds c s hc hs hlt => ?_⟩
  have hlaid := laidBelow_layoutEach hp hc hlt
  obtain ⟨-, hsound⟩ := hlaid c .refl s hs
  refine ⟨hsound, fun π m hπ => ?_, fun π m ρ m' hπ hρ => hπ.apart (fun _ _ _ _ => rfl) hp hlaid hρ⟩
  obtain ⟨s', hs', hlands⟩ := hπ.lands (fun _ _ _ _ => rfl) hp hlaid
  obtain rfl := Option.some.inj (hs.symm.trans hs')
  exact ⟨hlands, hlands.toInt_eq⟩

/-- A class that holds another class and a container. -/
def nestedClasses : String :=
  "class A { var b: bool; var x: real; } class B { var t: bool; var a: A; var l: array{int}; }"

/-- Two parts, one of them a struct of its own. And a class that holds another class and a
container: what is in the other class is apart from the length of the container. -/
theorem layouts_isSound_nested :
    (∃ t : Struct, t.IsFinished ∧
      ((Struct.empty "S").appendAll [("b", .value .bool), ("t", .nested t)]).finish.IsSound) ∧
    ∃ e a b s π m ρ m', accept? "" (Rune.ascii nestedClasses) = some e ∧
      e.program.classes.map Class.ref = [a, b] ∧
      (layoutEach e.program [b, a] {}).struct? b = some s ∧ s.IsSound ∧
      ToLeaf e.program (layoutEach e.program [b, a] {}).struct? b π m ∧ Lands s π m ∧
      ToLeaf e.program (layoutEach e.program [b, a] {}).struct? b ρ m' ∧ Lands s ρ m' ∧
      (reach π ≤ distance ρ ∨ reach ρ ≤ distance π) := by
  have hrun : (accept? "" (Rune.ascii nestedClasses)).any fun e =>
      e.program.classes.map Class.ref == [⟨66, "A", false⟩, ⟨67, "B", false⟩] &&
        (e.program.classOf ⟨66, "A", false⟩).vars.any
          (fun v => v.name == "x" && !v.type.isClass) &&
        (e.program.classOf ⟨67, "B", false⟩).vars.any
          (fun v => v.name == "a" && v.type == .cls .var ⟨66, "A", false⟩) &&
        (e.program.classOf ⟨67, "B", false⟩).vars.any
          (fun v => v.name == "l" && v.type.isContainer) &&
        [ClassRef.mk 66 "A" false, ⟨67, "B", false⟩].all (fun c =>
          ((layoutEach e.program [⟨67, "B", false⟩, ⟨66, "A", false⟩] {}).struct? c).isSome) &&
        (layoutEach e.program [⟨67, "B", false⟩, ⟨66, "A", false⟩] {}).classes.all (fun x =>
          x.2.all fun s => decide (s.extent < 2 ^ 63)) := by
    rw [nestedClasses, Rune.ascii_ofList]
    decide +kernel
  obtain ⟨e, he, hrun⟩ := (Option.any_eq_true ..).1 hrun
  have hacc := of_accept? he
  have hp := hacc.typed.program_wf
  generalize ha : ClassRef.mk 66 "A" false = a at hrun
  generalize hb : ClassRef.mk 67 "B" false = b at hrun
  simp only [Bool.and_eq_true, beq_iff_eq, List.any_eq_true, Bool.not_eq_true', List.all_cons,
    List.all_nil, Option.isSome_iff_exists] at hrun
  obtain ⟨⟨⟨⟨⟨hclasses, vx, hvx, hx, hxleaf⟩, va, hva, haname, hat⟩, vl, hvl, hl, hlt⟩,
    ⟨t, ht⟩, ⟨s, hs⟩, -⟩, hsmall⟩ := hrun
  have hparts : Struct.IsFinished ((Struct.empty "T").appendAll [("x", .value .index)]).finish := by
    refine .mk (fun x hx u hu => ?_) (fun x hx u hu => ?_) (by decide)
    · obtain rfl := List.mem_singleton.1 hx
      obtain rfl := Part.value.inj hu
      exact fun h => by cases h
    · obtain rfl := List.mem_singleton.1 hx
      cases hu
  have hvalid : e.program.Valid (.cls .var b) := by
    have hmem : b ∈ e.program.classes.map Class.ref := by simp [hclasses]
    exact List.mem_map.1 hmem
  have hrange : ∀ d u, (layoutEach e.program [b, a] {}).struct? d = some u → u.extent < 2 ^ 63 := by
    intro d u hu
    have := List.all_eq_true.1 hsmall _ (Layouts.mem_of_struct? hu)
    simpa using this
  have hlaid := laidBelow_layoutEach hp hvalid fun d _ => hrange d
  obtain ⟨ma, hma, hfa, hha⟩ := (hlaid b .refl s hs).1.member? hp hva
  obtain ⟨ml, hml, hfl, hhl⟩ := (hlaid b .refl s hs).1.member? hp hvl
  obtain ⟨mx, hmx, hfx, hhx⟩ := (hlaid a (.single ⟨va, hva, .var, hat⟩) t ht).1.member? hp hvx
  have hπ : ToLeaf e.program (layoutEach e.program [b, a] {}).struct? b [ma, mx] mx :=
    .member (.step hs hva hfa hat (.last ht hvx hfx)) hxleaf rfl
  have halong : Along e.program (layoutEach e.program [b, a] {}).struct? b [ml] b vl :=
    .last hs hvl hfl
  have hρ : ToLeaf e.program (layoutEach e.program [b, a] {}).struct? b
      [ml, .headerLen] .headerLen :=
    .field halong hlt (by simp [headerFields])
  have hne : ma ≠ ml := fun h => by
    have := hha.name_eq.symm.trans ((congrArg StructMember.name h).trans hhl.name_eq)
    simp [haname, hl] at this
  obtain ⟨hfirst, hsecond⟩ := hacc.layouts_isSound
  obtain ⟨hsound, hlands, hapart⟩ := hsecond [b, a] {} b s hvalid hs fun d _ => hrange d
  refine ⟨⟨_, hparts, (hfirst "S" _ (fun x hx u hu => ?_) (fun x hx u hu => ?_) ?_).2⟩, e, a, b, s,
    _, _, _, _, he, hclasses, hs, hsound, hπ, (hlands _ _ hπ).1, hρ, (hlands _ _ hρ).1,
    hapart _ _ _ _ hπ hρ ?_ ?_⟩
  · obtain rfl | rfl : x = _ ∨ x = _ := by simpa using hx
    · obtain rfl := Part.value.inj hu
      exact fun h => by cases h
    · cases hu
  · obtain rfl | rfl : x = _ ∨ x = _ := by simpa using hx
    · cases hu
    · obtain rfl := Part.nested.inj hu
      exact hparts
  · decide
  · simp [hne]
  · simp [hne.symm]

end Lane.Accepted
