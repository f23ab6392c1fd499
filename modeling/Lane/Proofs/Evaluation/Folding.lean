import Lane.Proofs.Analysis.Foldable
import Lane.Proofs.Evaluation.Program
import Lane.Proofs.Lowering.Containment
import Lane.Proofs.Lowering.Layouts
import Lane.Proofs.Protection.Program

set_option relaxedAutoImplicit false
set_option autoImplicit false

/-!
# Folded members

A chain of members that the analysis calls foldable is lowered without code: its place is at a
distance from the storage of the variable where the chain begins. The path to it is the chain of
members, and it leads to a place inside of the struct of the variable, as long as structs take less
than 2 ^ 63 bytes.

## Main definitions

* `Lane.Lowering.pathOffset`: the offset of a path, or none for the base itself.
* `Lane.Lowering.GoesTo`: paths from a class to values of a class.

## Main results

* `Lane.Lowering.folds_of_isChain`: where a chain is.
* `Lane.Accepted.foldable_members_fold`: the verdict of the analysis matches the code.
-/

namespace Lane

open Code

namespace Code

/-- The distance of a path adds up those of its members, as words. -/
lemma bytes_ofPath (π : List StructMember) :
    (Offset.ofPath π).bytes = (π.map StructMember.offset).foldl (· + ·) 0 := by
  have fold : ∀ (π : List StructMember) (o : Offset),
      (π.foldl Offset.add o).bytes = (π.map StructMember.offset).foldl (· + ·) o.bytes := by
    intro π
    induction π with
    | nil => exact fun _ => rfl
    | cons m π ih => exact fun o => ih (o.add m)
  exact fold π {}

end Code

/-! ## Expressions in bodies -/

namespace TStmt

variable {A : AssignCondition} {R : TExpr → Prop}

mutual

/-- An expression in a statement is inside one of which the condition holds. -/
theorem Mentions.exists_has
    (hA : ∀ {gs vs ps ds}, A gs vs ps ds → ∀ y ∈ vs ++ ps.filterMap Pair.place? ++ ds, R y)
    {Γ Δ : List Local} {s : TStmt} {x : TExpr} (hs : s.Each A R) (h : Mentions Γ s Δ x) :
    ∃ y, R y ∧ y.Has x := by
  cases s with
  | assign =>
    obtain ⟨-, y, hy, hx⟩ := h
    exact ⟨y, hA hs y hy, hx⟩
  | ifThen | whileLoop =>
    obtain ⟨-, hx⟩ | h := h
    · exact ⟨_, hs.1, hx⟩
    · exact MentionAll.exists_has hA hs.2 h
  | ifElse =>
    obtain ⟨-, hx⟩ | h | h := h
    · exact ⟨_, hs.1, hx⟩
    · exact MentionAll.exists_has hA hs.2.1 h
    · exact MentionAll.exists_has hA hs.2.2 h
  | repeatUntil =>
    obtain h | ⟨-, hx⟩ := h
    · exact MentionAll.exists_has hA hs.2 h
    · exact ⟨_, hs.1, hx⟩
  | block => exact MentionAll.exists_has hA hs h
  | ret | brk | cont => exact h.elim

/-- An expression in statements is inside one of which the condition holds. -/
theorem MentionAll.exists_has
    (hA : ∀ {gs vs ps ds}, A gs vs ps ds → ∀ y ∈ vs ++ ps.filterMap Pair.place? ++ ds, R y)
    {Γ Δ : List Local} {ss : List TStmt} {x : TExpr} (hs : EachAll A R ss)
    (h : MentionAll Γ ss Δ x) : ∃ y, R y ∧ y.Has x := by
  cases ss with
  | nil => exact h.elim
  | cons s ss =>
    obtain h | h := h
    · exact Mentions.exists_has hA hs.1 h
    · exact MentionAll.exists_has hA hs.2 h

end

end TStmt

/-- All expressions of a checked assignment are among its targets and the expressions on the
right. -/
lemma AssignChecked.of_assignEach {R : TExpr → Prop} {gs : List TTarget} {vs ds : List TExpr}
    {ps : List Pair} (h : AssignChecked gs vs ps ds) (hR : AssignEach R gs vs ps ds) :
    ∀ y ∈ vs ++ ps.filterMap Pair.place? ++ ds, R y := by
  obtain ⟨htargets, hvalues⟩ := hR
  intro y hy
  obtain hy | hy := List.mem_append.1 hy
  · obtain hy | hy := List.mem_append.1 hy
    · exact hvalues y hy
    · obtain ⟨q, hq, hqy⟩ := List.mem_filterMap.1 hy
      refine htargets y (List.mem_filterMap.2 ⟨q.target, ?_, q.place?_eq ▸ hqy⟩)
      have hmem : q.target ∈ ps.map Pair.target := List.mem_map_of_mem hq
      rw [h.targets_eq] at hmem
      split at hmem
      · exact List.mem_of_mem_filter hmem
      · exact hmem
  · rw [h.discarded_eq] at hy
    split at hy
    · obtain ⟨g, hg, hgy⟩ := List.mem_filterMap.1 hy
      exact htargets y (List.mem_filterMap.2 ⟨g, hg, (Option.filter_eq_some_iff.1 hgy).1⟩)
    · cases hy

/-- **What holds of all expressions** holds of those that the bodies of an accepted program are made
of. -/
theorem Accepted.exists_has {R : TExpr → Prop} (hR : ∀ e, Analysis.Always (Analysis.expr e) R)
    {file : String} {text : List Rune} {e : Elaborated} (h : Accepted file text e) {b : FuncBody}
    (hb : b ∈ e.bodies) {Γ Δ : List Local} {x : TExpr} (hx : TStmt.MentionAll Γ b.body Δ x) :
    ∃ y, R y ∧ y.Has x := by
  have heach : TStmt.EachAll (AssignEach R) R b.body := by
    obtain ⟨tree, ds, -, rfl, -⟩ := h
    exact Analysis.bodies_each hR tree ds b hb
  have hall : TStmt.EachAll (fun _ vs ps ds => ∀ y ∈ vs ++ ps.filterMap Pair.place? ++ ds, R y) R
      b.body :=
    heach.combine (fun ha hc => hc.of_assignEach ha) (fun hc _ => hc) (h.checkedAll hb)
  exact hx.exists_has (fun ha => ha) hall

namespace Lowering

/-! ## Places of chains -/

/-- **The offset of a path**, or none for the base itself. -/
def pathOffset (π : List StructMember) : Option Offset :=
  if π.isEmpty then none else some (.ofPath π)

/-- A step goes to the next member of the path. -/
lemma step_pathOffset (π : List StructMember) (m : StructMember) :
    Offset.step (pathOffset π) m = .ofPath (π ++ [m]) := by
  have hget : (pathOffset π).getD {} = .ofPath π := by
    cases π <;> rfl
  rw [Offset.step, hget, Offset.ofPath, Offset.ofPath, List.foldl_append]
  rfl

/-- **Paths to values of a class**: of the class itself, or of a member variable inside of it. -/
def GoesTo (p : Program) (S : ClassRef → Option Struct) (c : ClassRef) (π : List StructMember)
    (d : ClassRef) : Prop :=
  (π = [] ∧ c = d) ∨ ∃ k v q, Along p S c π k v ∧ v.type = .cls q d

section Chains

variable {p : Program} {S : ClassRef → Option Struct} {c d k : ClassRef} {π : List StructMember}
  {v w : MemberVar} {s : Struct} {m : StructMember} {q : Modifier}

/-- A member of a class that is gone to lies along the path. -/
lemma GoesTo.along (h : GoesTo p S c π d) (hs : S d = some s) (hw : w ∈ (p.classOf d).vars)
    (hm : s.member? w.name = some m) : Along p S c (π ++ [m]) d w := by
  obtain ⟨rfl, rfl⟩ | ⟨k, v, q, halong, ht⟩ := h
  · exact .last hs hw hm
  · exact halong.snoc ht hs hw hm

/-- The bytes of a member at the end of a path are inside of the struct. -/
lemma Along.range {F : ClassRef → Ty → MemberShape} (hp : p.WellFormed) (hS : LaidBelow p S F c)
    (h : Along p S c π k v) : ∃ s m, S c = some s ∧ π.getLast? = some m ∧
      0 ≤ (Offset.ofPath π).bytes.toInt ∧
      (Offset.ofPath π).bytes.toInt + m.shape.size.toInt ≤ s.size.toInt := by
  obtain ⟨s, m, hs, hlands, -⟩ := h.lands hp hS
  have hsize : 0 ≤ s.size.toInt := Int64.le_iff_toInt_le.1 (hS c .refl s hs).2.bounded.2
  obtain ⟨-, hbytes, -⟩ := (hlands.bounded m (List.mem_of_getLast? hlands.last)).toInt_eq
  have hle := hlands.reach_le
  rw [reach_eq hlands.last, Struct.bytes] at hle
  refine ⟨s, m, hs, hlands.last, ?_, ?_⟩
  · rw [hlands.toInt_eq]
    exact Int.natCast_nonneg _
  · rw [hlands.toInt_eq, hbytes]
    omega

variable {e : Elaborated} {env : Env} {Γ : List Local} {B : Builder} {l : Local} {x : TExpr}
  {vs : List MemberVar} {t : Ty} {addr : Operand} {off : Option Offset}

/-- The type of an expression is that which it has. -/
lemma run_typeOf (ht : x.types = [t]) : ((typeOf x).run env).run B = .ok (t, B) := by
  unfold typeOf TExpr.type?
  rw [ht]
  rfl

/-- The place of a local of a class is at its storage. -/
lemma localPlace_run (hB : Houses True Γ B.locals) (hl : l ∈ Γ) (hc : l.type = .cls q c)
    (ht : x.types = [.cls q c]) : ∃ addr, B.locals.lookup l.id = some (.memory addr) ∧
      ((localPlace x (some l)).run env).run B = .ok (.memory addr none (.cls q c), B) := by
  obtain ⟨s, hs, hsound⟩ := hB l hl
  cases s with
  | var v =>
    have hatomic : l.type.isAtomic := hsound.place.1
    rw [hc] at hatomic
    cases hatomic
  | memory addr =>
    have hstorage : ((storageOf l).run env).run B = .ok (.memory addr, B) := by
      unfold storageOf
      rw [run_bind (show ((get : Lower Builder).run env).run B = .ok (B, B) from rfl), hs]
      rfl
    refine ⟨addr, hs, ?_⟩
    unfold localPlace
    rw [run_bind (run_typeOf ht)]
    dsimp only
    rw [run_bind hstorage]
    rfl

/-- The place of a member is at a distance from the place of the value. -/
lemma memberPlace_run {y : TExpr} {pos : Position} {name : String} {b : Bool}
    (hs : env.layouts.struct? v.cls = some s) (hm : s.member? v.name = some m)
    (hy : y = .member pos [t] x name (some v) b) (ha : x.isAddressable) (hx : x.types = [.cls q d])
    (hrun : ((expr x).place.run env).run B = .ok (.memory addr off (.cls q d), B)) :
    ((expr y).place.run env).run B = .ok (.memory addr (some (Offset.step off m)) t, B) := by
  subst hy
  have hmember : ((memberOf v).run env).run B = .ok (m, B) := by
    unfold memberOf
    rw [run_bind (show ((read : Lower Env).run env).run B = .ok (env, B) from rfl)]
    rw [hs]
    dsimp only
    rw [hm]
    rfl
  have hobject : ((expr x).object.run env).run B = .ok (.memory addr off (.cls q d), B) := by
    unfold Lowered.object
    rw [expr_expr, if_pos ha]
    exact hrun
  have htype : ((typeOf (expr x).expr).run env).run B = .ok (.cls q d, B) :=
    run_typeOf (by rw [expr_expr, hx])
  show ((memberPlace _ (expr x) v).run env).run B = _
  unfold memberPlace
  rw [run_bind (run_typeOf rfl), run_bind hmember, run_bind htype]
  simp only [Ty.isPtr, Bool.false_eq_true, if_false]
  rw [run_bind hobject]
  rfl

/-- **Folded places**: an expression stands for a place at the end of a path from the storage of a
local of a class, without any code. The members on the path are those of the chain. -/
structure Folds (env : Env) (B : Builder) (l : Local) (vs : List MemberVar) (x : TExpr)
    (c : ClassRef) (addr : Operand) (π : List StructMember) (t : Ty) : Prop where
  local_type : ∃ q, l.type = .cls q c
  storage : B.locals.lookup l.id = some (.memory addr)
  place : ((expr x).place.run env).run B = .ok (.memory addr (pathOffset π) t, B)
  names : π.map StructMember.name = vs.map MemberVar.name

/-- A chain goes on with a member of the value. -/
lemma Folds.member (he : env.Sound e) (h : Folds env B l vs x c addr π (.cls q d))
    (hleads : GoesTo e.program env.layouts.struct? c π d) (ha : x.isAddressable)
    (hx : x.types = [.cls q d]) (hd : e.program.Valid (.cls q d))
    (hv : v ∈ (e.program.classOf d).vars) {pos : Position} {name : String} {b : Bool} :
    ∃ m, Folds env B l (vs ++ [v]) (.member pos [t] x name (some v) b) c addr (π ++ [m]) t ∧
      Along e.program env.layouts.struct? c (π ++ [m]) d v := by
  obtain ⟨k, hk, rfl⟩ := hd
  rw [he.program_wf.classOf_eq hk] at hv
  obtain ⟨s, hs, hfits⟩ := he.complete k hk
  have hvalid := he.program_wf.classes_valid k hk
  obtain ⟨m, -, hm, -⟩ := hfits.member?_eq_some hvalid.var_names hv
  have hname : m.name = v.name := by
    simpa using List.find?_some hm
  refine ⟨m, ⟨h.local_type, h.storage, ?_, ?_⟩, ?_⟩
  · rw [memberPlace_run (by rw [(hvalid.vars_own v hv).1, hs]) hm rfl ha hx h.place,
      step_pathOffset]
    rw [pathOffset, if_neg (by simp)]
  · simp [h.names, hname]
  · exact hleads.along hs (by rwa [he.program_wf.classOf_eq hk]) hm

/-- The access to a member of a value whose place is known. -/
lemma folds_of_value (he : env.Sound e) (hΓ : ∀ l ∈ Γ, e.program.Valid l.type) {pos : Position}
    {ts : List Ty} {name : String} {b : Bool}
    (hy : (TExpr.member pos ts x name (some v) b).Typed e.program Γ) (ha : x.isAddressable)
    (hx : x.types = [t]) (hptr : t.isPtr = false)
    (hvalue : ∀ q d, t = .cls q d → ∃ c addr π, Folds env B l vs x c addr π t ∧
      GoesTo e.program env.layouts.struct? c π d) :
    ∃ c addr π k q, ts = [v.type.withModifier q] ∧
      Folds env B l (vs ++ [v]) (.member pos ts x name (some v) b) c addr π
        (v.type.withModifier q) ∧
      Along e.program env.layouts.struct? c π k v := by
  cases hy with
  | @member _ _ _ u r _ m _ hxt hu hc hv =>
    obtain rfl := List.singleton_inj.1 (hx.symm.trans hu)
    obtain ⟨q, rfl⟩ : ∃ q, t = .cls q r := by
      cases t with
      | cls q c => exact ⟨q, congrArg _ (Option.some.inj hc)⟩
      | ptr => cases hptr
      | scalar | container | error => cases hc
    obtain ⟨c, addr, π, hfolds, hleads⟩ := hvalue q r rfl
    have hvalid : e.program.Valid (.cls q r) :=
      hxt.valid he.program_wf hΓ _ (by rw [hx]; exact List.mem_singleton_self _)
    obtain ⟨m', hfolds', halong⟩ := hfolds.member he hleads ha hx hvalid hv
    exact ⟨c, addr, π ++ [m'], r, m, rfl, hfolds', halong⟩

/-- **The place of a chain** is at a distance from the storage of its local, and no code is needed
for it. The path is the chain of members.

**Proof sketch.** By induction on the chain. The place of a member goes one step further than the
place of the value, which is of a class: no step of a chain goes through a pointer. -/
theorem folds_of_isChain (he : env.Sound e) (hB : Houses True Γ B.locals)
    (hΓ : ∀ l ∈ Γ, e.program.Valid l.type) (h : x.IsChain l vs) (hx : x.Typed e.program Γ)
    (ht : x.types = [.cls q d]) : ∃ c addr π, Folds env B l vs x c addr π (.cls q d) ∧
      GoesTo e.program env.layouts.struct? c π d := by
  induction h generalizing q d with
  | ident | self =>
    obtain ⟨hl, hcls⟩ : l ∈ Γ ∧ l.type = .cls q d := by
      cases hx
      exact ⟨‹_›, List.singleton_inj.1 ht⟩
    obtain ⟨addr, hs, hrun⟩ := localPlace_run hB hl hcls ht
    exact ⟨d, addr, [], ⟨⟨q, hcls⟩, hs, hrun, rfl⟩, .inl ⟨rfl, rfl⟩⟩
  | @member _ _ y u _ v _ _ hchain hu hptr ih =>
    have hy : y.Typed e.program Γ := hx.of_mem_parts (List.mem_singleton_self y)
    obtain ⟨c, addr, π, k, q', rfl, hfolds, halong⟩ :=
      folds_of_value he hΓ hx hchain.isAddressable hu hptr fun _ _ hcls => by
        subst hcls
        exact ih hy hu
    obtain ht : v.type.withModifier q' = .cls q d := List.singleton_inj.1 ht
    rw [ht] at hfolds ⊢
    refine ⟨c, addr, π, hfolds, .inr ⟨k, v, v.type.modifier, halong, ?_⟩⟩
    cases hv : v.type with
    | cls r c' =>
      rw [hv] at ht
      cases ht
      rfl
    | scalar | ptr | container | error =>
      rw [hv] at ht
      cases ht

end Chains

end Lowering

/-- Whether an expression is the access to a member that is called foldable. -/
def TExpr.isFolded : TExpr → Bool
  | .member _ _ _ _ (some _) isFoldable => isFoldable
  | _ => false

/-- A folded expression is a member. -/
lemma TExpr.of_isFolded {y : TExpr} (h : y.isFolded) :
    ∃ pos ts x n v, y = .member pos ts x n (some v) true := by
  cases y with
  | member pos ts x n v b =>
    cases v with
    | some v => exact ⟨pos, ts, x, n, v, by rw [show b = true from h]⟩
    | none => cases h
  | _ => cases h

/-! ## Programs -/

namespace Accepted

open Lowering

variable {file name : String} {text : List Rune} {e : Elaborated} {width : Int} {ds : Diagnostics}
  {p : LoweredProgram}

/-- The members in bodies are called foldable if they are. -/
lemma allFold (h : Accepted file text e) {f : MemberFunction} {b : FuncBody}
    (hb : e.body? f = some b) {Γ Δ : List Local} {x : TExpr}
    (hx : TStmt.MentionAll Γ b.body Δ x) : x.AllFold := by
  obtain ⟨y, hy, hhas⟩ := h.exists_has Analysis.expr_allFold (List.mem_of_find?_eq_some hb) hx
  exact hy.of_has hhas

/-- An access to a member that is called foldable stands for a place at the end of a path. -/
lemma exists_folds (h : Accepted file text e) (hp : (e.lower name width ds).2 = .ok p)
    (hok : p.isOk) {f : MemberFunction} (hf : e.program.Declares f) {b : FuncBody}
    (hb : e.body? f = some b) {Γ : List Local} {pos : Position} {ts : List Ty} {x : TExpr}
    {n : String} {v : MemberVar}
    (hy : TStmt.MentionAll f.rootLocals b.body Γ (.member pos ts x n (some v) true))
    (current : FuncDecl) (B : Builder) (hB : Houses True Γ B.locals) :
    let env := envOf e p.layouts p.width current
    let y := TExpr.member pos ts x n (some v) true
    ∃ l ∈ Γ, e.program.Valid l.type ∧ ∃ vs c addr π k t, y.IsChain l vs ∧ ts = [t] ∧
      Folds env B l vs y c addr π t ∧ Along e.program p.layouts.struct? c π k v := by
  intro env y
  have hp' := h.typed.program_wf
  obtain ⟨hbody, rfl⟩ := typed_of_body? h.typed hf hb
  obtain ⟨hy', hΓ⟩ := TStmt.MentionAll.typed hbody.typed (hf.rootLocals_valid hp') hy
  have hx := hy'.of_mem_parts (List.mem_singleton_self x)
  have he : env.Sound e := envOf_sound hp' (h.lower_isOk hp hok).1 p.width current
  have hfold : y.AllFold := h.allFold hb hy
  obtain ⟨u, hu, hbase⟩ := hfold.verdict
  have hptr := TExpr.isPtr_of_foldableBase hbase.symm
  obtain ⟨l, hl, vs, hchain⟩ := hfold.value.exists_isChain hx hbase.symm
  obtain ⟨c, addr, π, k, q, rfl, hfolds, halong⟩ :=
    folds_of_value he hΓ hy' hchain.isAddressable hu hptr fun _ _ hcls => by
      subst hcls
      exact folds_of_isChain he hB hΓ hchain hx hu
  exact ⟨l, hl, hΓ l hl, vs ++ [v], c, addr, π, k, _, .member hchain hu hptr, rfl, hfolds, halong⟩

/-- **Foldable members fold.** An access to a member variable that the analysis calls foldable is a
chain of members from a local, and its place is found without code: the base is the address of the
storage of the local, and the path is the chain. The path leads to the member variable in the class
of the local, and its distance is the sum of those of its members. As long as the structs in the
class take less than 2 ^ 63 bytes, the bytes of the member are inside of the struct. What goes
through a pointer, an index or a call is not called foldable. -/
theorem foldable_members_fold (h : Accepted file text e) (hp : (e.lower name width ds).2 = .ok p)
    (hok : p.isOk) {f : MemberFunction} (hf : e.program.Declares f) {b : FuncBody}
    (hb : e.body? f = some b) {Γ : List Local} {pos : Position} {ts : List Ty} {x : TExpr}
    {n : String} {v : MemberVar} {foldable : Bool}
    (hy : TStmt.MentionAll f.rootLocals b.body Γ (.member pos ts x n (some v) foldable))
    (current : FuncDecl) (B : Builder) (hB : Houses True Γ B.locals) :
    let env := envOf e p.layouts p.width current
    let y := TExpr.member pos ts x n (some v) foldable
    (foldable → ∃ l ∈ Γ, ∃ vs c addr π k t, y.IsChain l vs ∧ ts = [t] ∧
      Folds env B l vs y c addr π t ∧ Along e.program p.layouts.struct? c π k v ∧
      (Offset.ofPath π).bytes = (π.map StructMember.offset).foldl (· + ·) 0 ∧
      ((∀ d, Includes e.program c d → ∀ s, p.layouts.struct? d = some s → s.extent < 2 ^ 63) →
        ∃ s m, p.layouts.struct? c = some s ∧ π.getLast? = some m ∧
          0 ≤ (Offset.ofPath π).bytes.toInt ∧
          (Offset.ofPath π).bytes.toInt + m.shape.size.toInt ≤ s.size.toInt)) ∧
    (y.Detours → foldable = false) := by
  refine ⟨fun hfoldable => ?_, fun hdetours => hdetours.eq_false (h.allFold hb hy)⟩
  subst hfoldable
  obtain ⟨l, hl, hvalid, vs, c, addr, π, k, t, hchain, hts, hfolds, halong⟩ :=
    h.exists_folds hp hok hf hb hy current B hB
  refine ⟨l, hl, vs, c, addr, π, k, t, hchain, hts, hfolds, halong, bytes_ofPath π, fun hlt => ?_⟩
  obtain ⟨r, hr⟩ := hfolds.local_type
  obtain ⟨-, hlayouts, -⟩ := h.typed.of_lower_isOk hp hok
  have hc : e.program.Valid (.cls .var c) := by
    rwa [hr] at hvalid
  have hlaid : LaidBelow e.program p.layouts.struct? (fun _ => instanceShape) c := by
    rw [hlayouts, layoutAll_eq] at hlt ⊢
    exact laidBelow_layoutEach h.typed.program_wf hc hlt
  exact halong.range h.typed.program_wf hlaid

/-- A class that reads a member of a member of a parameter. -/
def readsInner : String :=
  "class N { var v: int; } class C { var i: int; var n: N;
    routine f(c: C) -> (r: int) { r = c.n.v; } }"

/-- A member of a member of a parameter, inside of the parameter. -/
theorem foldable_members_fold_inner : ∃ e p f b pos ts x n v q B,
    compile? readsInner = some (e, p) ∧ p.isOk ∧ e.program.Declares f ∧ e.body? f = some b ∧
    TStmt.MentionAll f.rootLocals b.body f.rootLocals (.member pos ts x n (some v) true) ∧
    let env := envOf e p.layouts p.width (memberDecl e f 0)
    ((prologue f).run env).run {} = .ok (q, B) ∧
    ∃ l vs c addr π t s m, Folds env B l vs (.member pos ts x n (some v) true) c addr π t ∧
      p.layouts.struct? c = some s ∧ π.getLast? = some m ∧ 0 ≤ (Offset.ofPath π).bytes.toInt ∧
      (Offset.ofPath π).bytes.toInt + m.shape.size.toInt ≤ s.size.toInt := by
  have hrun : (compile? readsInner).any fun (e, p) => p.isOk &&
          (p.layouts.classes.all fun q => q.2.all fun s => decide (s.extent < 2 ^ 63)) &&
          (memberFuncs e).any fun f => (e.body? f).any fun b =>
            b.body.head?.any fun s => s.values.any TExpr.isFolded := by
    rw [compile?, readsInner, Rune.ascii_ofList]
    decide +kernel
  obtain ⟨⟨e, p⟩, hcomp, hrun⟩ := (Option.any_eq_true ..).1 hrun
  simp only [Bool.and_eq_true, Option.any_eq_true, List.any_eq_true] at hrun
  obtain ⟨⟨hok, hsmall⟩, f, hf, b, hb, s, hs, y, hy, hfold⟩ := hrun
  obtain ⟨ss, hbody⟩ := List.head?_eq_some_iff.1 hs
  obtain ⟨pos, ts, x, n, v, rfl⟩ := TExpr.of_isFolded hfold
  obtain ⟨hacc, hp⟩ := of_compile? hcomp
  have hf := mem_memberFuncs.1 hf
  have hmention : TStmt.MentionAll f.rootLocals b.body f.rootLocals _ :=
    hbody ▸ TStmt.mentionAll_of_mem_values hy
  obtain ⟨q, B, hpro, hB⟩ := hacc.exists_houses hp hok hf (memberDecl e f 0)
  obtain ⟨l, -, vs, c, addr, π, k, t, -, -, hfolds, -, -, hrange⟩ :=
    (hacc.foldable_members_fold hp hok hf hb hmention (memberDecl e f 0) B hB).1 rfl
  obtain ⟨s, m, hs, hm, hpos, hle⟩ := hrange fun d _ s hs => by
    simpa using List.all_eq_true.1 hsmall _ (Layouts.mem_of_struct? hs)
  exact ⟨e, p, f, b, pos, ts, x, n, v, q, B, hcomp, hok, hf, hb, hmention, hpro, l, vs, c, addr, π,
    t, s, m, hfolds, hs, hm, hpos, hle⟩

/-- Classes whose structs grow fivefold: each has five members of the class before. The last one has
three members of that class, and a routine that reads the last member. -/
def growing : List Char → List Char → List Char
  | type, [] => "class Z \x7b var a: ".toList ++ type ++ "; var b: ".toList ++ type ++
      "; var c: ".toList ++ type ++ "; routine f(z: Z) -> (y: ".toList ++ type ++
      ") \x7b y = z.c; \x7d \x7d".toList
  | type, c :: cs => "class ".toList ++ c :: " \x7b ".toList ++
      "abcde".toList.flatMap (fun v => "var ".toList ++ v :: ": ".toList ++ type ++ "; ".toList) ++
      "\x7d ".toList ++ growing [c] cs

/-- Classes whose last one has members of more than `2 ^ 63` bytes. -/
def overlarge : String :=
  String.ofList (growing "array\x7bint\x7d".toList "ABCDEFGHIJKLMNOPQRSTUVWXY".toList)

/-- Whether an expression is a member of a local that has an offset below zero. -/
def isBefore (layouts : Layouts) : TExpr → Bool
  | .member _ _ (.ident _ _ _ (some ⟨_, _, _, .cls _ c, _⟩)) _ (some v) true =>
    (layouts.struct? c).any fun s => (s.member? v.name).any fun m => decide (m.offset.toInt < 0)
  | _ => false

/-- Structs of more than 2 ^ 63 bytes: the place of a member is before the storage of the local. -/
theorem folds_before_storage : ∃ e p f b pos ts x n v q B,
    accept? "" (Rune.ascii overlarge) = some e ∧
    (e.lower "" 0 {}).2 = .ok p ∧ p.isOk ∧ e.program.Declares f ∧ e.body? f = some b ∧
    TStmt.MentionAll f.rootLocals b.body f.rootLocals (.member pos ts x n (some v) true) ∧
    let env := envOf e p.layouts p.width (memberDecl e f 0)
    ((prologue f).run env).run {} = .ok (q, B) ∧
    ∃ l vs c addr π t, Folds env B l vs (.member pos ts x n (some v) true) c addr π t ∧
      (Offset.ofPath π).bytes.toInt < 0 := by
  have hrun : (accept? "" (Rune.ascii overlarge)).any fun e =>
        isLaidOut e {} && (e.bodies.all fun b => TStmt.areReady b.body) &&
          (memberFuncs e).any fun f => (e.body? f).any fun b =>
            b.body.head?.any fun s => s.values.any (isBefore (layoutAll e.program {})) := by
    rw [overlarge, Rune.ascii_ofList]
    decide +kernel
  obtain ⟨e, he, hrun⟩ := (Option.any_eq_true ..).1 hrun
  simp only [Bool.and_eq_true, Option.any_eq_true, List.any_eq_true] at hrun
  obtain ⟨⟨hl, hready⟩, f, hf, b, hb, s, hs, y, hy, hbefore⟩ := hrun
  obtain ⟨ss, hbody⟩ := List.head?_eq_some_iff.1 hs
  have hacc := of_accept? he
  have hf := mem_memberFuncs.1 hf
  obtain ⟨p, hp, hok⟩ := hacc.exists_lower "" 0 hl fun g b _ _ hb =>
    List.all_eq_true.1 hready b (List.mem_of_find?_eq_some hb)
  obtain ⟨-, hlayouts, -⟩ := hacc.typed.of_lower_isOk hp hok
  rw [← hlayouts] at hbefore
  obtain ⟨q, B, hpro, hB⟩ := hacc.exists_houses hp hok hf (memberDecl e f 0)
  unfold isBefore at hbefore
  split at hbefore
  · have hmention : TStmt.MentionAll f.rootLocals b.body f.rootLocals _ :=
      hbody ▸ TStmt.mentionAll_of_mem_values hy
    obtain ⟨l, -, -, vs, c, addr, π, k, t, hchain, -, hfolds, halong⟩ :=
      hacc.exists_folds hp hok hf hb hmention (memberDecl e f 0) B hB
    refine ⟨e, p, f, b, _, _, _, _, _, q, B, he, hp, hok, hf, hb, hmention, hpro, l, vs, c, addr, π,
      t, hfolds, ?_⟩
    cases hchain with
    | member hx =>
      cases hx
      obtain ⟨m, rfl, -⟩ := List.map_eq_singleton_iff.1 hfolds.names
      cases halong with
      | last hs _ hm =>
        obtain ⟨r, hr⟩ := hfolds.local_type
        cases hr
        simp only [hs, hm, Option.any_some, decide_eq_true_eq] at hbefore
        rwa [bytes_ofPath, List.map_singleton, List.foldl_cons, List.foldl_nil, Int64.zero_add]
      | step _ _ _ _ h => cases h
  · cases hbefore

end Accepted

end Lane
