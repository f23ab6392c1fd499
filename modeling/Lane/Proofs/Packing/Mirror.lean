import Lane.Proofs.Lowering.Layouts
import Lane.Proofs.Packing.Additions
import Lane.Proofs.Packing.Entries
import Lane.Proofs.Packing.Layouts
import Lane.Proofs.Packing.Termination

set_option relaxedAutoImplicit false
set_option autoImplicit false

/-!
# Packed layouts mirror the others

A path of member variables leads to a place in the struct of a class, and to a place in its packed
struct. The second path has the same names and is found from the first, member by member. Places in
the packed struct are inside of it, aligned and apart, as those of the other struct are, and what is
there is the packed form of the variable. All of this holds as long as the packed structs take less
than `2 ^ 63` bytes.

## Main definitions

* `Lane.Packing.Twin`: the paths of the same variables in two structs.
* `Lane.Packing.PackedForm`: the packed form of what is no class.
* `Lane.Packing.LeadsTo`: where a path leads in the packed struct.

## Main results

* `Lane.Packing.exists_twin`: every path has a twin in the packed struct.
* `Lane.Accepted.packed_mirrors`: the packed layouts of an accepted program mirror the others.
-/

namespace Lane.Packing

open Code Lowering

/-! ## Twins -/

/-- **The paths of the same variables** in the structs that `S` and `T` give to classes. -/
inductive Twin (p : Program) (S T : ClassRef → Option Struct) :
    ClassRef → List StructMember → List StructMember → ClassRef → MemberVar → Prop
  | last {c : ClassRef} {s t : Struct} {v : MemberVar} {m m' : StructMember} (hs : S c = some s)
      (ht : T c = some t) (hv : v ∈ (p.classOf c).vars) (hm : s.member? v.name = some m)
      (hm' : t.member? v.name = some m') : Twin p S T c [m] [m'] c v
  | step {c d e : ClassRef} {s t : Struct} {v w : MemberVar} {m m' : StructMember} {q : Modifier}
      {π ρ : List StructMember} (hs : S c = some s) (ht : T c = some t)
      (hv : v ∈ (p.classOf c).vars) (hm : s.member? v.name = some m)
      (hm' : t.member? v.name = some m') (hvt : v.type = .cls q d) (h : Twin p S T d π ρ e w) :
      Twin p S T c (m :: π) (m' :: ρ) e w

section Twins

variable {p : Program} {S T : ClassRef → Option Struct} {F : ClassRef → Ty → MemberShape}
  {c d e : ClassRef} {v w : MemberVar} {π ρ π' ρ' : List StructMember} {m m' f : StructMember}

/-- The first of two matching paths. -/
lemma Twin.left (h : Twin p S T c π ρ d v) : Along p S c π d v := by
  induction h with
  | last hs _ hv hm _ => exact .last hs hv hm
  | step hs _ hv hm _ hvt _ ih => exact .step hs hv hm hvt ih

/-- The second of two matching paths. -/
lemma Twin.right (h : Twin p S T c π ρ d v) : Along p T c ρ d v := by
  induction h with
  | last _ ht hv _ hm' => exact .last ht hv hm'
  | step _ ht hv _ hm' hvt _ ih => exact .step ht hv hm' hvt ih

/-- **A path goes on** only where its twin does.

**Proof sketch.** By induction on the path. A member belongs to one variable only, so that paths
with the same twins go through the same members. -/
lemma Twin.isPrefix (hp : p.WellFormed) (hT : LaidBelow p T F c) (h : Twin p S T c π ρ d v)
    (h' : Twin p S T c π' ρ' e w) (hpre : ρ <+: ρ') : π <+: π' := by
  induction h generalizing π' ρ' e w with
  | @last c s t v m m' hs ht hv hm hm' =>
    cases h' with
    | @last _ s' t' w m₂ m₂' hs' ht' hw hm₂ hm₂' =>
      obtain ⟨rfl, -⟩ := List.cons_prefix_cons.1 hpre
      obtain rfl := Option.some.inj (ht.symm.trans ht')
      obtain rfl := Option.some.inj (hs.symm.trans hs')
      obtain rfl := hT.var_eq hp ht hv hw hm' hm₂'
      obtain rfl := Option.some.inj (hm.symm.trans hm₂)
      exact List.prefix_refl _
    | @step _ d' _ s' t' w _ m₂ m₂' q' π' ρ' hs' ht' hw hm₂ hm₂' hwt _ =>
      obtain ⟨rfl, -⟩ := List.cons_prefix_cons.1 hpre
      obtain rfl := Option.some.inj (ht.symm.trans ht')
      obtain rfl := Option.some.inj (hs.symm.trans hs')
      obtain rfl := hT.var_eq hp ht hv hw hm' hm₂'
      obtain rfl := Option.some.inj (hm.symm.trans hm₂)
      exact ⟨π', rfl⟩
  | @step c d' f s t v x m m' q π ρ hs ht hv hm hm' hvt hrest ih =>
    cases h' with
    | @last _ s' t' w m₂ m₂' hs' ht' hw hm₂ hm₂' =>
      exact absurd (List.cons_prefix_cons.1 hpre).2 (by simp [hrest.right.ne_nil])
    | @step _ d₂ _ s' t' w _ m₂ m₂' q' π' ρ' hs' ht' hw hm₂ hm₂' hwt hrest' =>
      obtain ⟨rfl, hpre'⟩ := List.cons_prefix_cons.1 hpre
      obtain rfl := Option.some.inj (ht.symm.trans ht')
      obtain rfl := Option.some.inj (hs.symm.trans hs')
      obtain rfl := hT.var_eq hp ht hv hw hm' hm₂'
      obtain rfl := Option.some.inj (hm.symm.trans hm₂)
      obtain ⟨-, rfl⟩ := Ty.cls.inj (hvt.symm.trans hwt)
      exact (List.prefix_cons_inj m).2 (ih (hT.of_var hv hvt) hrest' hpre')

/-- A path to what is no class goes on into the header of a container at most. -/
lemma isPrefix_of_append (hp : p.WellFormed) (hT : LaidBelow p T F c) (h : Along p T c ρ d v)
    (hv : v.type.isClass = false) (h' : Along p T c ρ' e w) (hpre : ρ ++ [f] <+: ρ') : False := by
  have heq := h.eq_of_prefix hp hT hv h' ((List.prefix_append ρ [f]).trans hpre)
  have hlen := hpre.length_le
  rw [heq] at hlen
  simp at hlen

end Twins

/-! ## Paths in packed structs -/

/-- **Where a path leads** in the packed struct of a class: along members with the same names, to a
place inside of the struct. -/
structure LeadsTo (l : PackedLayouts) (t : Struct) (π ρ : List StructMember) (x : PackedMember) :
    Prop where
  offset_eq : l.offset? (some (.ofPath π)) = some (.ofPath ρ, x)
  names_eq : ρ.map StructMember.name = π.map StructMember.name
  lands : Lands t ρ x.member
  toInt_eq : (Offset.ofPath ρ).bytes.toInt = distance ρ

/-- **The packed form of what is no class**: truth values are masks, as wide as the widest scalar of
the class and of the classes that it holds; other scalars have one lane for each instance; addresses
and containers stay as they are. -/
def PackedForm (p : Program) (W : Nat) (c : ClassRef) (t : Ty) (x : PackedMember) : Prop :=
  match t with
  | .scalar _ .bool => x.isMask ∧ ∃ k : Kind, k.isInteger ∧ IsGreatest (scalarSizes p c) k.size ∧
      x.member.shape = .value ((VType.scalar k).vector W)
  | .scalar _ k => x.isMask = false ∧ x.member.shape = .value ((VType.scalar k.code).vector W)
  | .ptr _ _ => x.isMask = false ∧ x.member.shape = .value .ptr
  | .container _ _ _ => x.isMask = false ∧ x.member.shape = .header
  | _ => False

section Paths

variable {p : Program} {W : Nat} {layouts : Layouts} {l : PackedLayouts} {c d : ClassRef}
  {v : MemberVar} {t : Struct} {π ρ : List StructMember} {m f : StructMember} {x : PackedMember}

/-- What a packed member looks like. -/
lemma PackedForm.of_holds (hgreatest : IsGreatest (insert 1 (scalarSizes p c)) (widest p c))
    (hv : v ∈ (p.classOf c).vars) (hleaf : v.type.isClass = false) (herr : v.type.isError = false)
    (h : HoldsVar l.struct? (packedShape p W c) v x.member) (hx : x.isMask = v.type.isBool) :
    PackedForm p W c v.type x := by
  have hshape := h.leaf hleaf
  cases ht : v.type with
  | scalar q k =>
    rw [ht] at hshape hx
    cases k
    case bool =>
      -- There is a truth value, so that one byte is the size of a scalar.
      have hone : 1 ∈ scalarSizes p c := ⟨c, .refl, v, hv, q, .bool, ht, rfl⟩
      rw [Set.insert_eq_of_mem hone] at hgreatest
      refine ⟨hx, .intOfSize (widest p c), isInteger_intOfSize _, ?_, hshape⟩
      rwa [size_intOfSize (.inr hgreatest.1)]
    all_goals exact ⟨hx, hshape⟩
  | ptr q u => exact ⟨by rw [hx, ht]; rfl, by rw [hshape, ht]; rfl⟩
  | container q k u => exact ⟨by rw [hx, ht]; rfl, by rw [hshape, ht]; rfl⟩
  | cls => rw [ht] at hleaf; cases hleaf
  | error => rw [ht] at herr; cases herr

/-- The fields of a header stand for themselves. -/
lemma member?_headerField (hf : f ∈ headerFields) : l.member? f = some ⟨f, false⟩ := by
  obtain rfl | rfl : f = .headerData ∨ f = .headerLen := by simpa [headerFields] using hf
  all_goals rfl

/-- A path leads where its members lead. -/
lemma offset?_ofPath {xs : List PackedMember} (h : π.mapM l.member? = some xs)
    (hx : xs.getLast? = some x) :
    l.offset? (some (.ofPath π)) = some (.ofPath (xs.map PackedMember.member), x) := by
  simp [PackedLayouts.offset?, h, hx]

/-- **Every path has a twin** in the packed struct, which is found member by member.

**Proof sketch.** By induction on the path. The member for a variable has an entry under the names
of its class and of the variable, which are those that it has itself. -/
theorem exists_twin (hp : p.WellFormed) (hfit : layouts.Fit p)
    (hpacked : ∀ c t, p.Valid (.cls .var c) → l.struct? c = some t → IsPackedAs p W l c t)
    (hc : p.Valid (.cls .var c)) (ht : l.struct? c = some t)
    (h : Along p layouts.struct? c π d v) :
    ∃ xs x, π.mapM l.member? = some xs ∧ xs.getLast? = some x ∧ x.isMask = v.type.isBool ∧
      (xs.map PackedMember.member).map StructMember.name = π.map StructMember.name ∧
      Twin p layouts.struct? l.struct? c π (xs.map PackedMember.member) d v := by
  -- The member for a variable, and its entry.
  have first : ∀ {c s t v m}, p.Valid (.cls .var c) → layouts.struct? c = some s →
      l.struct? c = some t → v ∈ (p.classOf c).vars → s.member? v.name = some m →
      ∃ m', t.member? v.name = some m' ∧ l.member? m = some ⟨m', v.type.isBool⟩ ∧
        m'.name = m.name ∧ HoldsVar l.struct? (packedShape p W c) v m' := by
    intro c s t v m hc hs ht hv hm
    obtain ⟨k, hk, rfl⟩ := hc
    have hkv : v ∈ k.vars := hp.classOf_eq hk ▸ hv
    obtain ⟨m₁, -, hm₁, hplaces⟩ :=
      (hfit k hk s hs).member?_eq_some (hp.classes_valid k hk).var_names hkv
    obtain rfl := Option.some.inj (hm₁.symm.trans hm)
    obtain ⟨m', -, hm', hpacks⟩ := Struct.member?_of_forall₂ (hpacked _ t ⟨k, hk, rfl⟩ ht).members
      (fun _ _ h => h.holds.name_eq) (nodup_var_names hp k.ref) hv
    refine ⟨m', hm', ?_, hpacks.holds.name_eq.trans hplaces.name_eq.symm, hpacks.holds⟩
    rw [PackedLayouts.member?, hplaces.owner_eq, hplaces.name_eq]
    exact hpacks.lookup_eq
  induction h generalizing t with
  | @last c s v m hs hv hm =>
    obtain ⟨m', hm', hentry, hname, -⟩ := first hc hs ht hv hm
    exact ⟨[⟨m', v.type.isBool⟩], _, by simp [hentry], rfl, rfl, by simp [hname],
      .last hs ht hv hm hm'⟩
  | @step c d e s v w m q π hs hv hm hvt hrest ih =>
    obtain ⟨m', hm', hentry, hname, hholds⟩ := first hc hs ht hv hm
    obtain ⟨u, hu, -⟩ := hholds.nested q d hvt
    obtain ⟨xs, x, hmap, hlast, hmask, hnames, htwin⟩ := ih (Nests.valid hp ⟨v, hv, q, hvt⟩) hu
    refine ⟨⟨m', v.type.isBool⟩ :: xs, x, by simp [hentry, hmap], ?_,
      hmask, by simp [hname, hnames], .step hs ht hv hm hm' hvt htwin⟩
    have hne : xs ≠ [] := by
      rintro rfl
      cases hlast
    rw [List.getLast?_cons_of_ne_nil hne, hlast]

end Paths

/-! ## Places in packed structs -/

section Places

variable {p : Program} {W k : Nat} {S : ClassRef → Option Struct} {l : PackedLayouts}
  {c d : ClassRef}
  {v : MemberVar} {t : Struct} {π ρ π' ρ' : List StructMember} {m m' : StructMember}
  {x x' : PackedMember}

/-- What is packed is stored as one machine value or as a header. -/
lemma isSound_packedShape (hW : W = 2 ^ k) (t : Ty) : (packedShape p W c t).IsSound := by
  have round : ∀ s : VType, (s.vector W).IsRound := fun _ _ => ⟨k, hW⟩
  cases t with
  | container => exact MemberShape.isSound_header
  | scalar q s => cases s <;> exact .of_value (round _)
  | cls | ptr | error => exact .of_value fun h => by cases h

/-- Members along a path determine the offset. -/
lemma ofPath_injective (h : Offset.ofPath π = Offset.ofPath ρ) : π = ρ := by
  simpa using congrArg Offset.path h

/-- The paths to leaves that mirror each other are those of a variable, and go on in the same
way. -/
lemma LeadsTo.twin (htwin : ∀ π d v, Along p S c π d v → ∃ xs x, π.mapM l.member? = some xs ∧
      xs.getLast? = some x ∧ Twin p S l.struct? c π (xs.map PackedMember.member) d v)
    (h : ToLeaf p S c π m) (hx : LeadsTo l t π ρ x) :
    ∃ π₀ ρ₀ d v, Twin p S l.struct? c π₀ ρ₀ d v ∧ v.type.isClass = false ∧
      ToLeaf p l.struct? c ρ x.member ∧
      (π = π₀ ∧ ρ = ρ₀ ∨ ∃ f ∈ headerFields, π = π₀ ++ [f] ∧ ρ = ρ₀ ++ [f]) := by
  have hoffset := hx.offset_eq
  cases h with
  | @member _ d v _ h hv hm =>
    obtain ⟨xs, y, hmap, hlast, htwin⟩ := htwin π d v h
    rw [offset?_ofPath hmap hlast, Option.some.injEq, Prod.mk.injEq] at hoffset
    obtain rfl := ofPath_injective hoffset.1
    exact ⟨π, _, d, v, htwin, hv, .member htwin.right hv hx.lands.last, .inl ⟨rfl, rfl⟩⟩
  | @field π d v _ h hv hf =>
    obtain ⟨xs, y, hmap, hlast, htwin⟩ := htwin π d v h
    have hmap' : (π ++ [m]).mapM l.member? = some (xs ++ [⟨m, false⟩]) := by
      simp [List.mapM_append, hmap, member?_headerField hf]
    rw [offset?_ofPath hmap' List.getLast?_concat, Option.some.injEq, Prod.mk.injEq] at hoffset
    obtain ⟨hpath, rfl⟩ := hoffset
    obtain rfl : xs.map PackedMember.member ++ [m] = ρ := by
      simpa using ofPath_injective hpath
    exact ⟨π, _, d, v, htwin, isClass_of_isContainer hv, .field htwin.right hv hf,
      .inr ⟨m, hf, rfl, rfl⟩⟩

/-- **Paths to leaves go on** only where the paths in the packed struct do. -/
lemma LeadsTo.isPrefix (hp : p.WellFormed) {F : ClassRef → Ty → MemberShape}
    (hT : LaidBelow p l.struct? F c)
    (htwin : ∀ π d v, Along p S c π d v → ∃ xs x, π.mapM l.member? = some xs ∧
      xs.getLast? = some x ∧ Twin p S l.struct? c π (xs.map PackedMember.member) d v)
    (h : ToLeaf p S c π m) (hx : LeadsTo l t π ρ x) (h' : ToLeaf p S c π' m')
    (hx' : LeadsTo l t π' ρ' x') (hpre : ρ <+: ρ') : π <+: π' := by
  obtain ⟨π₀, ρ₀, d, v, htw, hv, -, hends⟩ := hx.twin htwin h
  obtain ⟨π₁, ρ₁, d', v', htw', hv', -, hends'⟩ := hx'.twin htwin h'
  obtain ⟨rfl, rfl⟩ | ⟨f, hf, rfl, rfl⟩ := hends
  · obtain ⟨rfl, rfl⟩ | ⟨g, hg, rfl, rfl⟩ := hends'
    · exact htw.isPrefix hp hT htw' hpre
    · obtain heq | hpre := List.prefix_concat_iff.1 hpre
      · have hlonger := htw.right
        rw [heq] at hlonger
        exact (isPrefix_of_append hp hT htw'.right hv' hlonger (List.prefix_refl _)).elim
      · exact (htw.isPrefix hp hT htw' hpre).trans (List.prefix_append _ _)
  · obtain ⟨rfl, rfl⟩ | ⟨g, hg, rfl, rfl⟩ := hends'
    · exact (isPrefix_of_append hp hT htw.right hv htw'.right hpre).elim
    · obtain heq | hpre := List.prefix_concat_iff.1 hpre
      · obtain ⟨rfl, hfg⟩ := List.append_inj' heq rfl
        have hself := htw.isPrefix hp hT htw' (List.prefix_refl _)
        have hself' := htw'.isPrefix hp hT htw (List.prefix_refl _)
        rw [hself.eq_of_length_le hself'.length_le, hfg]
      · exact (isPrefix_of_append hp hT htw.right hv htw'.right hpre).elim

end Places

end Lane.Packing

namespace Lane.Accepted

open Code Lowering Packing

variable {file name : String} {text : List Rune} {e : Elaborated} {width : Int} {ds : Diagnostics}
  {p : LoweredProgram} {c d : ClassRef} {t : Struct} {k : Nat} {π : List StructMember}
  {v : MemberVar}

/-- The packed structs of an accepted program pack its classes. -/
lemma isPackedAs (h : Accepted file text e) (hp : (e.lower name width ds).2 = .ok p)
    (hok : p.isOk) (ds' : Diagnostics) (hc : e.program.Valid (.cls .var c))
    (ht : (layoutsOf e p ds').struct? c = some t) :
    IsPackedAs e.program p.width (layoutsOf e p ds') c t := by
  have hwf := h.typed.program_wf
  obtain ⟨-, hlayouts, -⟩ := h.typed.of_lower_isOk hp hok
  have hfit : p.layouts.Fit e.program := hlayouts ▸ layoutAll_fit hwf ds
  refine packAll_isPackedAs hwf hfit (fun d s => ?_) ds' hc ht
  rw [hlayouts, layoutAll_eq]
  exact layoutEach_grounded e.program _ ds d s

/-- **The packed structs of a class** and of the classes that it holds are sound, if they are not
too large. -/
lemma laidBelow_packed (h : Accepted file text e) (hp : (e.lower name width ds).2 = .ok p)
    (hok : p.isOk) (ds' : Diagnostics) (hW : p.width = 2 ^ k) (hc : e.program.Valid (.cls .var c))
    (hlt : ∀ d, Includes e.program c d → ∀ u, (layoutsOf e p ds').struct? d = some u →
      u.extent < 2 ^ 63) :
    LaidBelow e.program (layoutsOf e p ds').struct?
      (fun d => packedShape e.program p.width d) c := by
  have hwf := h.typed.program_wf
  have hgrounded := isGrounded_of_complete (h.typed.complete (h.typed.of_lower_isOk hp hok).1)
  refine .of_lays (fun _ => isSound_packedShape hW) (fun d hd u hu => ?_) (fun d hd _ _ => ?_) hlt
  · have hpd := h.isPackedAs hp hok ds' (hd.valid hwf hc) hu
    exact ⟨hpd.members.imp fun _ _ hm => hm.holds, hpd.isStacked⟩
  · obtain ⟨k, hk, rfl⟩ := hd.valid hwf hc
    exact hgrounded k hk

/-- Every path has a twin in the packed struct. -/
lemma exists_packed_twin (h : Accepted file text e) (hp : (e.lower name width ds).2 = .ok p)
    (hok : p.isOk) (ds' : Diagnostics) (hc : e.program.Valid (.cls .var c))
    (ht : (layoutsOf e p ds').struct? c = some t)
    (halong : Along e.program p.layouts.struct? c π d v) : ∃ xs x,
      π.mapM (layoutsOf e p ds').member? = some xs ∧ xs.getLast? = some x ∧
      x.isMask = v.type.isBool ∧
      (xs.map PackedMember.member).map StructMember.name = π.map StructMember.name ∧
      Twin e.program p.layouts.struct? (layoutsOf e p ds').struct? c π
        (xs.map PackedMember.member) d v := by
  have hwf := h.typed.program_wf
  obtain ⟨-, hlayouts, -⟩ := h.typed.of_lower_isOk hp hok
  have hfit : p.layouts.Fit e.program := hlayouts ▸ layoutAll_fit hwf ds
  exact exists_twin hwf hfit (fun d u hd hu => h.isPackedAs hp hok ds' hd hu) hc ht halong

section Mirrors

variable (h : Accepted file text e) (hp : (e.lower name width ds).2 = .ok p) (hok : p.isOk)
  (ds' : Diagnostics) (hW : p.width = 2 ^ k) (hc : e.program.Valid (.cls .var c))
  (ht : (layoutsOf e p ds').struct? c = some t)
  (hlt : ∀ d, Includes e.program c d → ∀ u, (layoutsOf e p ds').struct? d = some u →
    u.extent < 2 ^ 63)
include h hp hok hW hc ht hlt

/-- **Paths lead to the packed forms of variables**, along members with the same names. -/
lemma exists_leadsTo (hcs : c.isSimd) (halong : Along e.program p.layouts.struct? c π d v) :
    ∃ ρ x, LeadsTo (layoutsOf e p ds') t π ρ x ∧
      (v.type.isClass = false → PackedForm e.program p.width d v.type x) ∧
      (v.type.isContainer → ∀ f ∈ headerFields,
        LeadsTo (layoutsOf e p ds') t (π ++ [f]) (ρ ++ [f]) ⟨f, false⟩) := by
  have hwf := h.typed.program_wf
  have hgrounded := isGrounded_of_complete (h.typed.complete (h.typed.of_lower_isOk hp hok).1)
  have hsimd : ∀ k ∈ e.program.classes, k.ref.isSimd → ∀ v ∈ k.vars, ∀ q d, v.type = .cls q d →
      d.isSimd := fun k hk hs v hv q d hvt => (h.orderly k hk).vars_simd hs v hv q d hvt
  have hlaid := h.laidBelow_packed hp hok ds' hW hc hlt
  obtain ⟨xs, x, hmap, hlast, hmask, hnames, htw⟩ :=
    h.exists_packed_twin hp hok ds' hc ht halong
  obtain ⟨t', m, ht', hlands, hholds⟩ := htw.right.lands hwf hlaid
  obtain rfl := Option.some.inj (ht.symm.trans ht')
  have hxm : x.member = m := by
    have := hlands.last
    rw [List.getLast?_map, hlast] at this
    exact Option.some.inj this
  refine ⟨xs.map PackedMember.member, x, ⟨offset?_ofPath hmap hlast, hnames,
    hxm ▸ hlands, hlands.toInt_eq⟩, fun hv => ?_, fun hv f hf => ?_⟩
  · obtain ⟨hd, hmem⟩ := halong.mem_vars
    obtain ⟨j, hj, rfl⟩ := hd.valid hwf hc
    have hvar : v ∈ j.vars := hwf.classOf_eq hj ▸ hmem
    exact .of_holds (isGreatest_widest hwf hsimd ⟨j, hj, rfl⟩
      (isSimd_of_includes hwf hsimd hc hcs hd) (hgrounded j hj)) hmem hv
      ((hwf.classes_valid j hj).vars_own v hvar).2.isError_eq_false (hxm ▸ hholds) hmask
  · have hleaf : ToLeaf e.program (layoutsOf e p ds').struct? c
        (xs.map PackedMember.member ++ [f]) f := .field htw.right hv hf
    obtain ⟨t', ht', hlands⟩ := hleaf.lands (fun _ _ _ _ => rfl) hwf hlaid
    obtain rfl := Option.some.inj (ht.symm.trans ht')
    have hmap' : (π ++ [f]).mapM (layoutsOf e p ds').member? = some (xs ++ [⟨f, false⟩]) := by
      simp [List.mapM_append, hmap, member?_headerField hf]
    exact ⟨by simpa using offset?_ofPath hmap' List.getLast?_concat,
      by simp only [List.map_append, hnames], hlands, hlands.toInt_eq⟩

/-- **Leaves are apart** in packed structs: different paths lead to different places, which do not
overlap unless one path goes on where the other ends. -/
lemma leaves_apart {m m' : StructMember} {ρ π' ρ' : List StructMember} {x x' : PackedMember}
    (hπ : ToLeaf e.program p.layouts.struct? c π m) (hx : LeadsTo (layoutsOf e p ds') t π ρ x)
    (hπ' : ToLeaf e.program p.layouts.struct? c π' m')
    (hx' : LeadsTo (layoutsOf e p ds') t π' ρ' x') :
    (ρ = ρ' → π = π') ∧
      (¬π <+: π' → ¬π' <+: π → reach ρ ≤ distance ρ' ∨ reach ρ' ≤ distance ρ) := by
  have hwf := h.typed.program_wf
  have hlaid := h.laidBelow_packed hp hok ds' hW hc hlt
  have htwin : ∀ π d v, Along e.program p.layouts.struct? c π d v → ∃ xs x,
      π.mapM (layoutsOf e p ds').member? = some xs ∧ xs.getLast? = some x ∧
      Twin e.program p.layouts.struct? (layoutsOf e p ds').struct? c π
        (xs.map PackedMember.member) d v := fun π d v halong => by
    obtain ⟨xs, x, hmap, hlast, -, -, htw⟩ := h.exists_packed_twin hp hok ds' hc ht halong
    exact ⟨xs, x, hmap, hlast, htw⟩
  constructor
  · rintro rfl
    have hpre := hx.isPrefix hwf hlaid htwin hπ hπ' hx' (List.prefix_refl _)
    have hpre' := hx'.isPrefix hwf hlaid htwin hπ' hπ hx (List.prefix_refl _)
    exact hpre.eq_of_length_le hpre'.length_le
  · intro hne hne'
    obtain ⟨-, -, -, -, -, -, hleaf, -⟩ := hx.twin htwin hπ
    obtain ⟨-, -, -, -, -, -, hleaf', -⟩ := hx'.twin htwin hπ'
    exact hleaf.apart (fun _ _ _ _ => rfl) hwf hlaid hleaf'
      (fun hpre => hne (hx.isPrefix hwf hlaid htwin hπ hπ' hx' hpre))
      fun hpre => hne' (hx'.isPrefix hwf hlaid htwin hπ' hπ hx hpre)

end Mirrors

/-- **Packed layouts mirror the others**. In a `simd` class with a packed struct, every path of
member variables leads to a place in the packed struct, along members with the same names, and so do
the paths into the headers of containers. What is there is the packed form of the variable. The
places are aligned and inside of the struct, and those of different leaves are different and apart,
unless one path goes on where the other ends.

**Proof sketch.** The members of a packed struct are those that are found for the members of the
other (`exists_twin`), and a member belongs to one variable only. Packed structs are sound because
vectors of a power of two of lanes are, so that paths lead to places inside of them
(`ToLeaf.lands`). -/
theorem packed_mirrors (h : Accepted file text e) (hp : (e.lower name width ds).2 = .ok p)
    (hok : p.isOk) (ds' : Diagnostics) (hW : p.width = 2 ^ k) (hc : e.program.Valid (.cls .var c))
    (hcs : c.isSimd) (ht : (layoutsOf e p ds').struct? c = some t)
    (hlt : ∀ d, Includes e.program c d → ∀ u, (layoutsOf e p ds').struct? d = some u →
      u.extent < 2 ^ 63) :
    (∀ π d v, Along e.program p.layouts.struct? c π d v → ∃ ρ x,
      LeadsTo (layoutsOf e p ds') t π ρ x ∧
      (v.type.isClass = false → PackedForm e.program p.width d v.type x) ∧
      (v.type.isContainer → ∀ f ∈ headerFields,
        LeadsTo (layoutsOf e p ds') t (π ++ [f]) (ρ ++ [f]) ⟨f, false⟩)) ∧
    ∀ π m ρ x π' m' ρ' x', ToLeaf e.program p.layouts.struct? c π m →
      LeadsTo (layoutsOf e p ds') t π ρ x → ToLeaf e.program p.layouts.struct? c π' m' →
      LeadsTo (layoutsOf e p ds') t π' ρ' x' →
      (ρ = ρ' → π = π') ∧
        (¬π <+: π' → ¬π' <+: π → reach ρ ≤ distance ρ' ∨ reach ρ' ≤ distance ρ) := by
  exact ⟨fun π d v => h.exists_leadsTo hp hok ds' hW hc ht hlt hcs, fun π m ρ x π' m' ρ' x' =>
    h.leaves_apart hp hok ds' hW hc ht hlt⟩

/-- A `simd` class with a truth value, another class and a container. -/
def nestedLanes : String :=
  "simd class Q { var x: real; } simd class P { var a: bool; var q: Q; var l: array{int}; }"

/-- The truth value of a class is a mask of four integers, and apart from what is in another
class. -/
theorem packed_mirrors_nested : ∃ e p c t π π' ρ ρ' x x' q,
    compile? nestedLanes = some (e, p) ∧ p.isOk ∧ p.width = 2 ^ 2 ∧ c.isSimd ∧
    (layoutsOf e p {}).struct? c = some t ∧ LeadsTo (layoutsOf e p {}) t π ρ x ∧
    LeadsTo (layoutsOf e p {}) t π' ρ' x' ∧ π'.length = 2 ∧
    PackedForm e.program 4 c (.scalar q .bool) x ∧
    (reach ρ ≤ distance ρ' ∨ reach ρ' ≤ distance ρ) := by
  have hrun : (compile? nestedLanes).any
        (Function.uncurry fun e p => p.isOk && decide (p.width = 2 ^ 2) &&
          e.program.classes.map Class.ref == [⟨82, "Q", true⟩, ⟨81, "P", true⟩] &&
          (e.program.classOf ⟨81, "P", true⟩).vars.any
            (fun v => v.name == "a" && v.type == .scalar .var .bool) &&
          (e.program.classOf ⟨81, "P", true⟩).vars.any
            (fun v => v.name == "q" && v.type == .cls .var ⟨82, "Q", true⟩) &&
          (e.program.classOf ⟨82, "Q", true⟩).vars.any (fun v => !v.type.isClass) &&
          [ClassRef.mk 82 "Q" true, ⟨81, "P", true⟩].all (fun c => (p.layouts.struct? c).isSome &&
            ((layoutsOf e p {}).struct? c).isSome) &&
          (layoutsOf e p {}).classes.all (fun x => x.2.all fun s =>
            decide (s.extent < 2 ^ 63))) := by
    rw [compile?, nestedLanes, Rune.ascii_ofList]
    decide +kernel
  obtain ⟨⟨e, p⟩, hcomp, hrun⟩ := (Option.any_eq_true ..).1 hrun
  rw [Function.uncurry_apply_pair] at hrun
  obtain ⟨hacc, hp⟩ := of_compile? hcomp
  have hwf := hacc.typed.program_wf
  generalize ha : ClassRef.mk 82 "Q" true = a at hrun
  generalize hb : ClassRef.mk 81 "P" true = b at hrun
  simp only [Bool.and_eq_true, beq_iff_eq, List.any_eq_true, Bool.not_eq_true', List.all_cons,
    List.all_nil, Option.isSome_iff_exists, decide_eq_true_eq] at hrun
  obtain ⟨⟨⟨⟨⟨⟨⟨hok, hW⟩, hclasses⟩, va, hva, haname, hat⟩, vq, hvq, hqname, hqt⟩, vx, hvx, hxleaf⟩,
    ⟨⟨s, hs⟩, ⟨u, hu⟩⟩, ⟨⟨s', hs'⟩, ⟨t, ht⟩⟩, -⟩, hsmall⟩ := hrun
  have hvalid : e.program.Valid (.cls .var b) :=
    List.mem_map.1 (show b ∈ e.program.classes.map Class.ref by simp [hclasses])
  have hfit : p.layouts.Fit e.program := by
    obtain ⟨-, hlayouts, -⟩ := hacc.typed.of_lower_isOk hp hok
    exact hlayouts ▸ layoutAll_fit hwf {}
  have member : ∀ {c s v}, c ∈ [a, b] → p.layouts.struct? c = some s →
      v ∈ (e.program.classOf c).vars → ∃ m, s.member? v.name = some m ∧ m.name = v.name := by
    intro c s v hc hs hv
    obtain ⟨k, hk, rfl⟩ := List.mem_map.1 (hclasses ▸ hc)
    obtain ⟨m, -, hm, hplaces⟩ := (hfit k hk s hs).member?_eq_some
      (hwf.classes_valid k hk).var_names (hwf.classOf_eq hk ▸ hv)
    exact ⟨m, hm, hplaces.name_eq⟩
  obtain ⟨ma, hma, hman⟩ := member (by simp) hs' hva
  obtain ⟨mq, hmq, hmqn⟩ := member (by simp) hs' hvq
  obtain ⟨mx, hmx, -⟩ := member (by simp) hs hvx
  have hπ : Along e.program p.layouts.struct? b [ma] b va := .last hs' hva hma
  have hπ' : Along e.program p.layouts.struct? b [mq, mx] a vx :=
    .step hs' hvq hmq hqt (.last hs hvx hmx)
  have hleaf : va.type.isClass = false := by rw [hat]; rfl
  have hrange : ∀ d w, (layoutsOf e p {}).struct? d = some w → w.extent < 2 ^ 63 := by
    intro d w hw
    have := List.all_eq_true.1 hsmall _ (PackedLayouts.mem_of_struct? hw)
    simpa using this
  obtain ⟨hpaths, hpairs⟩ := hacc.packed_mirrors hp hok {} hW hvalid (by rw [← hb]) ht fun d _ =>
    hrange d
  obtain ⟨ρ, x, hx, hform, -⟩ := hpaths _ _ _ hπ
  obtain ⟨ρ', x', hx', -, -⟩ := hpaths _ _ _ hπ'
  have hne : ma ≠ mq := by
    rintro rfl
    simp [haname, hqname] at hman hmqn
    simp [hman] at hmqn
  refine ⟨e, p, b, t, _, _, ρ, ρ', x, x', .var, hcomp, hok, hW, by rw [← hb], ht, hx, hx', rfl, ?_,
    (hpairs _ _ _ _ _ _ _ _ (.member hπ hleaf rfl) hx (.member hπ' hxleaf rfl) hx').2 ?_ ?_⟩
  · have := hform hleaf
    rwa [hW, hat] at this
  · simp [hne]
  · simp [hne.symm]

/-- A `simd` class with two members of four bytes. -/
def twoFloats : String := "simd class P { var a: real32; var b: real32; }"

/-- Vectors that are too large: both members of a class take `2 ^ 64` bytes, and start at the same
place in a struct without bytes. -/
theorem packed_members_overlap : ∃ e p c t π π' m m' o o' x x',
    accept? "" (Rune.ascii twoFloats) = some e ∧
    (e.lower "" 4611686018427387904 {}).2 = .ok p ∧ p.isOk ∧ p.width = 2 ^ 62 ∧
    (layoutsOf e p {}).struct? c = some t ∧ t.size = 0 ∧
    ToLeaf e.program p.layouts.struct? c π m ∧ ToLeaf e.program p.layouts.struct? c π' m' ∧ π ≠ π' ∧
    (layoutsOf e p {}).offset? (some (.ofPath π)) = some (o, x) ∧
    (layoutsOf e p {}).offset? (some (.ofPath π')) = some (o', x') ∧
    x.member.shape.extent = 2 ^ 64 ∧ x'.member.shape.extent = 2 ^ 64 ∧ o.bytes = o'.bytes := by
  have hrun : (accept? "" (Rune.ascii twoFloats)).any
      fun e => (e.lower "" 4611686018427387904 {}).2.toOption.any fun p =>
        p.isOk && decide (p.width = 2 ^ 62) &&
        (e.program.classOf ⟨81, "P", true⟩).vars.any (fun v => v.name == "a" && !v.type.isClass) &&
        (e.program.classOf ⟨81, "P", true⟩).vars.any (fun v => v.name == "b" && !v.type.isClass) &&
        ((layoutsOf e p {}).struct? ⟨81, "P", true⟩).any (fun t => t.size == 0) &&
        (p.layouts.struct? ⟨81, "P", true⟩).any fun s => (s.member? "a").any fun m =>
          (s.member? "b").any fun m' => m.name != m'.name &&
            ((layoutsOf e p {}).offset? (some (.ofPath [m]))).any (Function.uncurry fun o x =>
              ((layoutsOf e p {}).offset? (some (.ofPath [m']))).any (Function.uncurry fun o' x' =>
                decide (x.member.shape.extent = 2 ^ 64) &&
                  decide (x'.member.shape.extent = 2 ^ 64) && o.bytes == o'.bytes)) := by
    rw [twoFloats, Rune.ascii_ofList]
    decide +kernel
  obtain ⟨e, he, hrun⟩ := (Option.any_eq_true ..).1 hrun
  obtain ⟨p, hp, hrun⟩ := (Option.any_eq_true ..).1 hrun
  simp only [Bool.and_eq_true, Option.any_eq_true, List.any_eq_true, beq_iff_eq, bne_iff_ne,
    decide_eq_true_eq, Bool.not_eq_true', Prod.exists, Function.uncurry_apply_pair] at hrun
  obtain ⟨⟨⟨⟨⟨hok, hW⟩, va, hva, hvan, hvaleaf⟩, vb, hvb, hvbn, hvbleaf⟩, t, ht, hsize⟩, s, hs, m,
    hm, m', hm', hne, o, x, hx, o', x', hx', ⟨hext, hext'⟩, hbytes⟩ := hrun
  have hlower : (e.lower "" 4611686018427387904 {}).2 = .ok p := by
    revert hp
    cases (e.lower "" 4611686018427387904 {}).2 with
    | error => exact fun h => by cases h
    | ok q => exact fun h => congrArg _ (Option.some.inj h)
  exact ⟨e, p, ⟨81, "P", true⟩, t, [m], [m'], m, m', o, o', x, x', he, hlower, hok, hW, ht, hsize,
    .member (.last hs hva (hvan ▸ hm)) hvaleaf rfl, .member (.last hs hvb (hvbn ▸ hm')) hvbleaf rfl,
    fun h => hne (congrArg StructMember.name (List.cons.inj h).1), hx, hx', hext, hext', hbytes⟩

end Lane.Accepted
