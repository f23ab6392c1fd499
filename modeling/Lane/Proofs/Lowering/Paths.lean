import Lane.Proofs.Lowering.Structs

set_option relaxedAutoImplicit false
set_option autoImplicit false

/-!
# Member paths

The member variables on the way into nested classes lead to a place in the struct of a class. If the
structs are sound, this place lies inside of the struct and has the alignment that its values need,
and the places of two paths are apart unless one of the paths goes on where the other ends. A path
to what is no class goes no further than into the header of a container.

## Main definitions

* `Lane.Lowering.Along`: the members on the way to a member variable.
* `Lane.Lowering.LaidBelow`: the structs of a class and of the classes that it holds.
* `Lane.Lowering.Lands`: places inside of a struct.
* `Lane.Lowering.ToLeaf`: paths to machine values and to the headers of containers.

## Main results

* `Lane.Lowering.LaidBelow.of_lays`: structs that lay out classes are sound.
* `Lane.Lowering.Along.lands`: paths lead to places inside of the struct.
* `Lane.Lowering.Along.apart`: different paths lead to different places.
* `Lane.Lowering.ToLeaf.lands`, `Lane.Lowering.ToLeaf.apart`: so do those into headers.
-/

namespace Lane.Lowering

open Code

/-- **The members along a path** from a class to a member variable of a class. -/
inductive Along (p : Program) (S : ClassRef → Option Struct) :
    ClassRef → List StructMember → ClassRef → MemberVar → Prop
  | last {c : ClassRef} {s : Struct} {v : MemberVar} {m : StructMember} (hs : S c = some s)
      (hv : v ∈ (p.classOf c).vars) (hm : s.member? v.name = some m) : Along p S c [m] c v
  | step {c d e : ClassRef} {s : Struct} {v w : MemberVar} {m : StructMember} {q : Modifier}
      {π : List StructMember} (hs : S c = some s) (hv : v ∈ (p.classOf c).vars)
      (hm : s.member? v.name = some m) (ht : v.type = .cls q d) (h : Along p S d π e w) :
      Along p S c (m :: π) e w

/-- A path goes on with a member of the class to which it leads. -/
lemma Along.snoc {p : Program} {S : ClassRef → Option Struct} {c d e : ClassRef}
    {π : List StructMember} {v w : MemberVar} {q : Modifier} {s : Struct} {m : StructMember}
    (h : Along p S c π d v) (ht : v.type = .cls q e) (hs : S e = some s)
    (hw : w ∈ (p.classOf e).vars) (hm : s.member? w.name = some m) :
    Along p S c (π ++ [m]) e w := by
  induction h with
  | last hs' hv hm' => exact .step hs' hv hm' ht (.last hs hw hm)
  | step hs' hv hm' ht' _ ih => exact .step hs' hv hm' ht' (ih ht)

/-- **Laid-out classes**: the structs of a class and of the classes that it holds lay them out, and
are sound. -/
def LaidBelow (p : Program) (S : ClassRef → Option Struct) (F : ClassRef → Ty → MemberShape)
    (c : ClassRef) : Prop :=
  ∀ d, Includes p c d → ∀ s, S d = some s → Lays p S (F d) d s ∧ s.IsSound

/-- **Places inside of a struct**: what is behind the last member on the path does not lie behind
the struct, and the place is aligned as the member is, if the struct is. -/
structure Lands (s : Struct) (π : List StructMember) (m : StructMember) : Prop where
  last : π.getLast? = some m
  reach_le : reach π ≤ s.bytes
  bounded : ∀ m ∈ π, m.IsBounded
  dvd_distance : m.shape.alignment ∣ distance π
  dvd_align : m.shape.alignment ∣ s.alignment

section Paths

variable {p : Program} {S : ClassRef → Option Struct} {F : ClassRef → Ty → MemberShape}
  {c d e : ClassRef} {s : Struct} {v w : MemberVar} {m : StructMember} {π ρ : List StructMember}

/-- A class that is held is laid out if the class around it is. -/
lemma LaidBelow.of_var (h : LaidBelow p S F c) (hv : v ∈ (p.classOf c).vars) {q : Modifier}
    (ht : v.type = .cls q d) : LaidBelow p S F d :=
  fun e he => h e (.head ⟨v, hv, q, ht⟩ he)

/-- **Structs that lay out classes are sound**, if there are not too many bytes.

**Proof sketch.** By induction on the classes that a class holds: their structs are sound, so that
they are sound shapes of members. -/
theorem LaidBelow.of_lays (hF : ∀ d t, (F d t).IsSound)
    (hlays : ∀ d, Includes p c d → ∀ s, S d = some s → Lays p S (F d) d s)
    (hgrounded : ∀ d, Includes p c d → ∀ s, S d = some s → IsGrounded p d)
    (hlt : ∀ d, Includes p c d → ∀ s, S d = some s → s.extent < 2 ^ 63) : LaidBelow p S F c := by
  intro d hd s hs
  refine ⟨hlays d hd s hs, ?_⟩
  induction hgrounded d hd s hs generalizing s with
  | intro d _ ih =>
    have hlaid := hlays d hd s hs
    refine hlaid.isStacked.isSound (fun m hm => ?_) (hlt d hd s hs)
    obtain ⟨v, hv, hholds⟩ := exists_of_forall₂ hlaid.members.flip hm
    cases ht : v.type with
    | cls q k =>
      obtain ⟨t, hnested, hshape⟩ := hholds.nested q k ht
      have hnests : Nests p d k := ⟨v, hv, q, ht⟩
      exact hshape ▸ (ih k hnests (hd.tail hnests) t hnested).asMember
    | scalar | container | ptr | error => exact hholds.leaf (by rw [ht]; rfl) ▸ hF d _

/-- The members that follow each other are aligned. -/
lemma dvd_start_of_adjoin : ∀ {ms : List StructMember} {n n' : Nat}, Adjoin n ms n' →
    ∀ m ∈ ms, m.shape.alignment ∣ m.start
  | [], _, _, _ => by simp
  | _ :: _, _, _, ⟨hm, hms⟩ => List.forall_mem_cons.2 ⟨hm.1.1, dvd_start_of_adjoin hms⟩

/-- The first member on a path. -/
lemma LaidBelow.member (hS : LaidBelow p S F c) (hp : p.WellFormed) (hs : S c = some s)
    (hv : v ∈ (p.classOf c).vars) (hm : s.member? v.name = some m) :
    m ∈ s.members ∧ HoldsVar S (F c) v m ∧ s.IsSound := by
  obtain ⟨hlays, hsound⟩ := hS c .refl s hs
  obtain ⟨m', hmem, hfind, hholds⟩ := hlays.member? hp hv
  obtain rfl := Option.some.inj (hfind.symm.trans hm)
  exact ⟨hmem, hholds, hsound⟩

/-- A path has members. -/
lemma Along.ne_nil (h : Along p S c π d v) : π ≠ [] := by
  cases h <;> simp

/-- A path leads to a variable of a class that the first class includes. -/
lemma Along.mem_vars (h : Along p S c π d v) : Includes p c d ∧ v ∈ (p.classOf d).vars := by
  induction h with
  | last _ hv _ => exact ⟨.refl, hv⟩
  | step _ hv _ ht _ ih => exact ⟨.head ⟨_, hv, _, ht⟩ ih.1, ih.2⟩

/-- The reach of a path from its first step. -/
lemma reach_cons (hπ : π ≠ []) : reach (m :: π) = m.start + reach π := by
  cases π with
  | nil => exact absurd rfl hπ
  | cons => rfl

/-- **Paths lead to places inside of the struct**.

**Proof sketch.** By induction on the path. The place of a nested struct is a multiple of the
alignment of that struct, and so of that of all its members. -/
theorem Along.lands (hp : p.WellFormed) (hS : LaidBelow p S F c) (h : Along p S c π d v) :
    ∃ s m, S c = some s ∧ Lands s π m ∧ HoldsVar S (F d) v m := by
  induction h with
  | @last c s v m hs hv hm =>
    obtain ⟨hmem, hholds, hsound⟩ := hS.member hp hs hv hm
    obtain ⟨n, -, hadjoin⟩ := hsound.adjoin
    refine ⟨s, m, hs, ⟨rfl, hsound.stop_le m hmem, ?_, ?_, hsound.dvd_align m hmem⟩, hholds⟩
    · simpa using hsound.bounded.1 m hmem
    · exact dvd_start_of_adjoin hadjoin m hmem
  | @step c d e s v w m q π hs hv hm ht hrest ih =>
    obtain ⟨hmem, hholds, hsound⟩ := hS.member hp hs hv hm
    obtain ⟨t, hnested, hshape⟩ := hholds.nested q d ht
    obtain ⟨t', m', ht', hlands, hholds'⟩ := ih (hS.of_var hv ht)
    obtain rfl := Option.some.inj (hnested.symm.trans ht')
    obtain ⟨n, -, hadjoin⟩ := hsound.adjoin
    have hbytes : m.shape.bytes = t.bytes := hshape ▸ rfl
    have halign : m.shape.alignment = t.alignment := hshape ▸ rfl
    have hstart := dvd_start_of_adjoin hadjoin m hmem
    have hstop := hsound.stop_le m hmem
    refine ⟨s, m', hs, ⟨?_, ?_, ?_, ?_, ?_⟩, hholds'⟩
    · rw [List.getLast?_cons_of_ne_nil hrest.ne_nil, hlands.last]
    · have hle := hlands.reach_le
      rw [reach_cons hrest.ne_nil]
      unfold StructMember.stop at hstop
      omega
    · exact List.forall_mem_cons.2 ⟨hsound.bounded.1 m hmem, hlands.bounded⟩
    · exact Nat.dvd_add ((halign ▸ hlands.dvd_align).trans hstart) hlands.dvd_distance
    · exact (halign ▸ hlands.dvd_align).trans (hsound.dvd_align m hmem)

/-- The distance of a place inside of a struct is a word without a sign. -/
lemma Lands.toInt_eq (h : Lands s π m) :
    (Offset.ofPath π).bytes.toInt = distance π := by
  have hword := word_ofPath h.bounded
  have hlt : distance π < 2 ^ 63 := by
    have hle := (distance_le_reach π).trans h.reach_le
    have := s.size.toInt_lt
    unfold Struct.bytes at hle
    omega
  have hnat : (Offset.ofPath π).bytes.toUInt64.toNat = distance π := by
    have heq : Offset.word (some (.ofPath π)) = (Offset.ofPath π).bytes.toUInt64 := rfl
    have hsize : UInt64.size = 2 ^ 64 := rfl
    rw [← heq, hword, UInt64.toNat_ofNat_of_lt' (by omega)]
  show (Offset.ofPath π).bytes.toBitVec.toInt = _
  rw [BitVec.toInt_eq_toNat_of_lt (by
    show 2 * (Offset.ofPath π).bytes.toUInt64.toNat < _
    omega)]
  exact congrArg _ hnat

/-- The places on a path through a member lie inside of the member. -/
lemma Along.reach_le_stop (hp : p.WellFormed) (hS : LaidBelow p S F c) (h : Along p S c π d v) :
    ∃ s w m, S c = some s ∧ w ∈ (p.classOf c).vars ∧ s.member? w.name = some m ∧
      π.head? = some m ∧ m.start ≤ distance π ∧ reach π ≤ m.stop := by
  cases h with
  | @last _ s v m hs hv hm =>
    exact ⟨s, v, m, hs, hv, hm, rfl, Nat.le_refl _, Nat.le_refl _⟩
  | @step _ d _ s v w m q π hs hv hm ht hrest =>
    obtain ⟨hmem, hholds, -⟩ := hS.member hp hs hv hm
    obtain ⟨t, hnested, hshape⟩ := hholds.nested q d ht
    obtain ⟨t', m', ht', hlands, -⟩ := hrest.lands hp (hS.of_var hv ht)
    obtain rfl := Option.some.inj (hnested.symm.trans ht')
    have hle := hlands.reach_le
    have hbytes : m.shape.bytes = t.bytes := hshape ▸ rfl
    refine ⟨s, v, m, hs, hv, hm, rfl, Nat.le_add_right _ _, ?_⟩
    rw [reach_cons hrest.ne_nil]
    unfold StructMember.stop
    omega

/-- Paths through different members lead to places that are apart. -/
lemma Along.apart_of_head (hp : p.WellFormed) (hS : LaidBelow p S F c) (h : Along p S c π d v)
    (h' : Along p S c ρ e w) (hne : π.head? ≠ ρ.head?) :
    reach π ≤ distance ρ ∨ reach ρ ≤ distance π := by
  obtain ⟨s, x, m, hs, hx, hm, hhead, hstart, hstop⟩ := h.reach_le_stop hp hS
  obtain ⟨s', x', m', hs', hx', hm', hhead', hstart', hstop'⟩ := h'.reach_le_stop hp hS
  obtain rfl := Option.some.inj (hs.symm.trans hs')
  obtain ⟨hmem, -, hsound⟩ := hS.member hp hs hx hm
  obtain ⟨hmem', -, -⟩ := hS.member hp hs hx' hm'
  have hmm : m ≠ m' := fun he => hne (by rw [hhead, hhead', he])
  have : Std.Symm fun m m' : StructMember => m.stop ≤ m'.start ∨ m'.stop ≤ m.start :=
    ⟨fun _ _ => Or.symm⟩
  have := (hsound.apart.imp (S := fun m m' => m.stop ≤ m'.start ∨ m'.stop ≤ m.start) Or.inl).forall
    hmem hmem' hmm
  omega

/-- A member is for one variable only. -/
lemma LaidBelow.var_eq (hS : LaidBelow p S F c) (hp : p.WellFormed) (hs : S c = some s)
    (hv : v ∈ (p.classOf c).vars) (hw : w ∈ (p.classOf c).vars) (hm : s.member? v.name = some m)
    (hm' : s.member? w.name = some m) : v = w :=
  List.inj_on_of_nodup_map (nodup_var_names hp c) hv hw
    ((hS.member hp hs hv hm).2.1.name_eq.symm.trans (hS.member hp hs hw hm').2.1.name_eq)

/-- **Different paths lead to different places**, unless one goes on where the other ends.

**Proof sketch.** By induction on one of the paths. As long as they go through the same members,
both go on inside of one member; after that they are inside of members that do not overlap. -/
theorem Along.apart (hp : p.WellFormed) (hS : LaidBelow p S F c) (h : Along p S c π d v)
    (h' : Along p S c ρ e w) (hπ : ¬π <+: ρ) (hρ : ¬ρ <+: π) :
    reach π ≤ distance ρ ∨ reach ρ ≤ distance π := by
  induction h generalizing ρ e w with
  | @last c s v m hs hv hm =>
    refine (Along.last hs hv hm).apart_of_head hp hS h' fun hhead => hπ ?_
    obtain ⟨ρ', rfl⟩ := List.head?_eq_some_iff.1 hhead.symm
    exact ⟨ρ', rfl⟩
  | @step c d f s v x m q π hs hv hm ht hrest ih =>
    cases h' with
    | @last _ s' w m' hs' hw hm' =>
      refine (Along.step hs hv hm ht hrest).apart_of_head hp hS (.last hs' hw hm')
        fun hhead => hρ ?_
      obtain rfl := Option.some.inj hhead
      exact ⟨π, rfl⟩
    | @step _ d' _ s' w _ m' q' ρ hs' hw hm' ht' hrest' =>
      by_cases hmm : m = m'
      · subst hmm
        obtain rfl := Option.some.inj (hs.symm.trans hs')
        obtain rfl := hS.var_eq hp hs hv hw hm hm'
        obtain ⟨-, rfl⟩ := Ty.cls.inj (ht.symm.trans ht')
        have := ih (hS.of_var hv ht) hrest'
          (fun h => hπ ((List.prefix_cons_inj m).2 h)) fun h => hρ ((List.prefix_cons_inj m).2 h)
        rw [reach_cons hrest.ne_nil, reach_cons hrest'.ne_nil, distance, distance]
        omega
      · exact (Along.step hs hv hm ht hrest).apart_of_head hp hS (.step hs' hw hm' ht' hrest')
          fun hhead => hmm (Option.some.inj hhead)

/-- A path to what is no class does not go on. -/
lemma Along.eq_of_prefix (hp : p.WellFormed) (hS : LaidBelow p S F c) (h : Along p S c π d v)
    (hv : v.type.isClass = false) (h' : Along p S c ρ e w) (hpre : π <+: ρ) : π = ρ := by
  induction h generalizing ρ e w with
  | @last c s v m hs hmem hm =>
    cases h' with
    | @last _ _ _ m' =>
      obtain ⟨rfl, -⟩ := List.cons_prefix_cons.1 hpre
      rfl
    | @step _ d' _ s' w _ m' q' ρ hs' hw hm' ht' hrest' =>
      obtain ⟨rfl, -⟩ := List.cons_prefix_cons.1 hpre
      obtain rfl := Option.some.inj (hs.symm.trans hs')
      obtain rfl := hS.var_eq hp hs hmem hw hm hm'
      rw [ht'] at hv
      cases hv
  | @step c d f s x v m q π hs hx hm ht hrest ih =>
    cases h' with
    | @last _ _ _ m' => exact absurd (List.cons_prefix_cons.1 hpre).2 (by simp [hrest.ne_nil])
    | @step _ d' _ s' w _ m' q' ρ hs' hw hm' ht' hrest' =>
      obtain ⟨rfl, hrest''⟩ := List.cons_prefix_cons.1 hpre
      obtain rfl := Option.some.inj (hs.symm.trans hs')
      obtain rfl := hS.var_eq hp hs hx hw hm hm'
      obtain ⟨-, rfl⟩ := Ty.cls.inj (ht.symm.trans ht')
      rw [ih (hS.of_var hx ht) hv hrest' hrest'']

/-- **Different paths to what is no class** lead to different places. -/
theorem Along.apart_of_ne (hp : p.WellFormed) (hS : LaidBelow p S F c) (h : Along p S c π d v)
    (hv : v.type.isClass = false) (h' : Along p S c ρ e w) (hw : w.type.isClass = false)
    (hne : π ≠ ρ) : reach π ≤ distance ρ ∨ reach ρ ≤ distance π :=
  h.apart hp hS h' (fun hpre => hne (h.eq_of_prefix hp hS hv h' hpre))
    fun hpre => hne (h'.eq_of_prefix hp hS hw h hpre).symm

end Paths

/-! ## Leaves -/

/-- The fields of the header of a container. -/
def headerFields : List StructMember := [.headerData, .headerLen]

/-- **Paths to leaves**: to what is no class, or to a field of the header of a container. -/
inductive ToLeaf (p : Program) (S : ClassRef → Option Struct) (c : ClassRef) :
    List StructMember → StructMember → Prop
  | member {π : List StructMember} {d : ClassRef} {v : MemberVar} {m : StructMember}
      (h : Along p S c π d v) (hv : v.type.isClass = false) (hm : π.getLast? = some m) :
      ToLeaf p S c π m
  | field {π : List StructMember} {d : ClassRef} {v : MemberVar} {m : StructMember}
      (h : Along p S c π d v) (hv : v.type.isContainer) (hm : m ∈ headerFields) :
      ToLeaf p S c (π ++ [m]) m

section Leaves

variable {p : Program} {S : ClassRef → Option Struct} {F : ClassRef → Ty → MemberShape}
  {c d : ClassRef} {s : Struct} {v : MemberVar} {m m' f : StructMember} {π ρ : List StructMember}

/-- The distance of a path with one more step. -/
lemma distance_append (π : List StructMember) (m : StructMember) :
    distance (π ++ [m]) = distance π + m.start := by
  induction π with
  | nil => exact Nat.add_comm ..
  | cons m' π ih => rw [List.cons_append, distance, distance, ih, Nat.add_assoc]

/-- The reach of a path with one more step. -/
lemma reach_append (π : List StructMember) (m : StructMember) :
    reach (π ++ [m]) = distance π + m.stop := by
  rw [reach_eq List.getLast?_concat, distance_append, StructMember.stop, Nat.add_assoc]

/-- A field lies inside of the header, and is aligned as the header is. -/
lemma headerFields_spec (hf : f ∈ headerFields) : f.IsBounded ∧ f.shape.alignment = 8 ∧
    8 ∣ f.start ∧ f.stop ≤ MemberShape.header.bytes := by
  have hall : ∀ f ∈ headerFields, f.IsBounded ∧ f.shape.alignment = 8 ∧ 8 ∣ f.start ∧
      f.stop ≤ MemberShape.header.bytes := by decide
  exact hall f hf

/-- The fields of a header do not overlap. -/
lemma headerFields_apart (hf : f ∈ headerFields) (hm : m ∈ headerFields) (hne : f ≠ m) :
    f.stop ≤ m.start ∨ m.stop ≤ f.start := by
  have hall : headerFields.Pairwise fun f m => f.stop ≤ m.start := by decide
  have : Std.Symm fun m m' : StructMember => m.stop ≤ m'.start ∨ m'.stop ≤ m.start :=
    ⟨fun _ _ => Or.symm⟩
  exact (hall.imp (S := fun m m' => m.stop ≤ m'.start ∨ m'.stop ≤ m.start) Or.inl).forall hf hm hne

variable (hF : ∀ c q k u, F c (.container q k u) = .header)

include hF in
/-- The header of a container. -/
lemma HoldsVar.shape_eq_header (h : HoldsVar S (F d) v m) (hv : v.type.isContainer) :
    m.shape = .header := by
  cases ht : v.type with
  | container q k u => rw [h.leaf (by rw [ht]; rfl), ht, hF]
  | scalar | cls | ptr | error => rw [ht] at hv; cases hv

/-- A container is no class. -/
lemma isClass_of_isContainer {t : Ty} (h : t.isContainer) : t.isClass = false := by
  cases t with
  | container => rfl
  | scalar | cls | ptr | error => cases h

include hF in
/-- **Paths to leaves** lead to places inside of the struct. -/
theorem ToLeaf.lands (hp : p.WellFormed) (hS : LaidBelow p S F c) (h : ToLeaf p S c π m) :
    ∃ s, S c = some s ∧ Lands s π m := by
  cases h with
  | @member _ d v _ h hv hm =>
    obtain ⟨s, m', hs, hlands, -⟩ := h.lands hp hS
    obtain rfl := Option.some.inj (hm.symm.trans hlands.last)
    exact ⟨s, hs, hlands⟩
  | @field π d v f h hv hf =>
    obtain ⟨s, m', hs, hlands, hholds⟩ := h.lands hp hS
    obtain ⟨hbounded, halign, hstart, hstop⟩ := headerFields_spec hf
    have hheader := hholds.shape_eq_header hF hv
    have hdvd : 8 ∣ distance π := by
      have := hlands.dvd_distance
      rwa [hheader] at this
    refine ⟨s, hs, List.getLast?_concat, ?_, ?_, ?_, ?_⟩
    · have hle := hlands.reach_le
      rw [reach_eq hlands.last, hheader] at hle
      rw [reach_append]
      omega
    · exact List.forall_mem_append.2 ⟨hlands.bounded, by simpa using hbounded⟩
    · rw [halign, distance_append]
      exact Nat.dvd_add hdvd hstart
    · have := hlands.dvd_align
      rw [hheader] at this
      exact halign ▸ this

include hF in
/-- A path to a leaf is one to what is no class, or one step longer. -/
lemma ToLeaf.base (hp : p.WellFormed) (hS : LaidBelow p S F c) (h : ToLeaf p S c π m) :
    ∃ π₀ d v, Along p S c π₀ d v ∧ v.type.isClass = false ∧
      (π = π₀ ∨ ∃ f ∈ headerFields, π = π₀ ++ [f]) ∧ distance π₀ ≤ distance π ∧
      reach π ≤ reach π₀ := by
  cases h with
  | @member _ d v _ h hv hm => exact ⟨π, d, v, h, hv, .inl rfl, le_rfl, le_rfl⟩
  | @field π d v f h hv hf =>
    obtain ⟨s, m', hs, hlands, hholds⟩ := h.lands hp hS
    obtain ⟨-, -, -, hstop⟩ := headerFields_spec hf
    refine ⟨π, d, v, h, isClass_of_isContainer hv, .inr ⟨_, hf, rfl⟩, ?_, ?_⟩
    · rw [distance_append]
      exact Nat.le_add_right ..
    · rw [reach_append, reach_eq hlands.last, hholds.shape_eq_header hF hv]
      omega

include hF in
/-- **Different paths to leaves** lead to different places, unless one goes on into the header where
the other ends.

**Proof sketch.** Paths to different members are apart, and so are the fields of their headers. If
the paths are to one member, then they go on to different fields. -/
theorem ToLeaf.apart (hp : p.WellFormed) (hS : LaidBelow p S F c) (h : ToLeaf p S c π m)
    (h' : ToLeaf p S c ρ m') (hπ : ¬π <+: ρ) (hρ : ¬ρ <+: π) :
    reach π ≤ distance ρ ∨ reach ρ ≤ distance π := by
  obtain ⟨π₀, d, v, halong, hv, hends, hstart, hstop⟩ := h.base hF hp hS
  obtain ⟨ρ₀, e, w, halong', hw, hends', hstart', hstop'⟩ := h'.base hF hp hS
  by_cases heq : π₀ = ρ₀
  · subst heq
    obtain rfl | ⟨f, hf, rfl⟩ := hends
    · obtain rfl | ⟨g, -, rfl⟩ := hends'
      · exact absurd (List.prefix_refl _) hπ
      · exact absurd (List.prefix_append _ [g]) hπ
    · obtain rfl | ⟨g, hg, rfl⟩ := hends'
      · exact absurd (List.prefix_append _ [f]) hρ
      · have hne : f ≠ g := fun he => hπ (he ▸ List.prefix_refl _)
        have := headerFields_apart hf hg hne
        rw [reach_append, reach_append, distance_append, distance_append]
        omega
  · have := halong.apart_of_ne hp hS hv halong' hw heq
    omega

end Leaves

end Lane.Lowering
