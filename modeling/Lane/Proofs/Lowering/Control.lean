import Lane.Proofs.Lowering.Assign

set_option relaxedAutoImplicit false
set_option autoImplicit false

/-!
# Typed statements are lowered

The code of statements consists of chunks: the code of an assignment, the code of a condition with
the branch that ends it, labels and jumps. Which chunks there are follows from the form of the
statements and from the number of labels made before.

## Main definitions

* `Lane.Lowering.Chunk`: the parts that code is made of.
* `Lane.Lowering.Shapes`, `Lane.Lowering.ShapesAll`: the chunks of statements.
* `Lane.Lowering.Hosts`: storage for the visible locals, and for nothing else.

## Main results

* `Lane.Lowering.statement_builds`, `Lane.Lowering.statements_build`: typed statements are lowered
  to their chunks.
* `Lane.Lowering.statements_fail`: statements that are not ready are not lowered.
-/

namespace Lane.Lowering

open Code

/-! ## Chunks -/

/-- The parts that the code of a function is made of. -/
inductive Chunk where
  /-- Instructions that belong to no statement. -/
  | quiet (code : List Instr)
  /-- The code of an assignment. -/
  | assign (s : TStmt) (code : List Instr)
  /-- The code of a condition, and the branch on its value. -/
  | cond (x : TExpr) (code : List Instr) (value : Operand) (yes no : Label)
  | label (l : Label)
  | goto (l : Label)

namespace Chunk

/-- The instructions of a chunk. -/
def code : Chunk → List Instr
  | .quiet is | .assign _ is => is
  | .cond _ is c yes no => is ++ [.branch c yes no]
  | .label l => [.label l]
  | .goto l => [.goto l]

/-- The labels that a chunk may jump to. -/
def targets : Chunk → List Label
  | .cond _ _ _ yes no => [yes, no]
  | .goto l => [l]
  | .quiet _ | .assign _ _ | .label _ => []

end Chunk

/-- The instructions of chunks in order. -/
def flatten (cs : List Chunk) : List Instr := cs.flatMap Chunk.code

/-- No chunks have no code. -/
@[simp] lemma flatten_nil : flatten [] = [] := rfl

/-- The code of the first chunk comes first. -/
@[simp] lemma flatten_cons (c : Chunk) (cs : List Chunk) :
    flatten (c :: cs) = c.code ++ flatten cs := rfl

/-- The code of two lists of chunks. -/
@[simp] lemma flatten_append (cs ds : List Chunk) : flatten (cs ++ ds) = flatten cs ++ flatten ds :=
  List.flatMap_append

/-- **Emitted code**: somewhere in the making of a function, a computation gave a result and emitted
the instructions `is`, none of which jumps or is jumped to. -/
def Emitted {α : Type} (env : Env) (m : Lower α) (a : α) (is : List Instr) : Prop :=
  (∃ b b', (m.run env).run b = .ok (a, b') ∧ b'.code = b.code ++ is) ∧ ∀ i ∈ is, i.isStraight

/-- Instructions without labels and jumps. -/
def Quiet (is : List Instr) : Prop := ∀ i ∈ is, i.isLabel = false ∧ i.targets = []

/-- Straight code is quiet. -/
lemma quiet_of_isStraight {is : List Instr} (h : ∀ i ∈ is, i.isStraight) : Quiet is := by
  intro i hi
  refine ⟨?_, Instr.targets_of_isStraight (h i hi)⟩
  cases i with
  | label => exact nomatch h _ hi
  | _ => rfl

/-- The code of an expression is quiet. -/
lemma Emitted.quiet {α : Type} {env : Env} {m : Lower α} {a : α} {is : List Instr}
    (h : Emitted env m a is) : Quiet is :=
  quiet_of_isStraight h.2

namespace Chunk

/-- **Faithful chunks** hold what was emitted for their assignment or condition. Nothing jumps out
of their inside, or into it. -/
def Faithful (env : Env) : Chunk → Prop
  | .quiet is => Quiet is
  | .assign s is => ∃ pos gs vs ps ds, s = .assign pos gs vs ps ds ∧
    Emitted env (Lowering.assign vs ps ds) () is
  | .cond x is v _ _ => Emitted env (expr x).value v is
  | .label _ | .goto _ => True

section Faithful

variable {env : Env} {c : Chunk}

/-- The jumps of a chunk are those of its last instruction. -/
lemma Faithful.targets (hc : c.Faithful env) {i : Instr} (hi : i ∈ c.code) {l : Label}
    (hl : l ∈ i.targets) : l ∈ c.targets := by
  have inner : ∀ is, Quiet is → i ∉ is := fun is his hmem => by simp [(his i hmem).2] at hl
  cases c with
  | quiet is => exact absurd hi (inner is hc)
  | assign s is =>
    obtain ⟨_, _, _, _, _, -, his⟩ := hc
    exact absurd hi (inner is his.quiet)
  | cond x is o yes no =>
    obtain hi | hi := List.mem_append.1 hi
    · exact absurd hi (inner is (Emitted.quiet hc))
    · obtain rfl := List.mem_singleton.1 hi
      exact hl
  | label =>
    obtain rfl := List.mem_singleton.1 hi
    cases hl
  | goto =>
    obtain rfl := List.mem_singleton.1 hi
    exact hl

end Faithful

end Chunk

mutual

/-- **The chunks of a statement**, `n` labels being made before it and `n'` after it. -/
def Shapes (env : Env) (flow : Option Flow) : TStmt → Nat → Nat → List Chunk → Prop
  | .assign pos gs vs ps ds, n, n', cs => ∃ is, Emitted env (assign vs ps ds) () is ∧
    n' = n ∧ cs = [.assign (.assign pos gs vs ps ds) is]
  | .ifThen _ x _ body, n, n', cs => ∃ is c bs, Emitted env (expr x).value c is ∧
    ShapesAll env flow body (n + 2) n' bs ∧
    cs = .cond x is c ⟨n + 1, "then"⟩ ⟨n + 2, "next"⟩ :: .label ⟨n + 1, "then"⟩ ::
      (bs ++ [.label ⟨n + 2, "next"⟩])
  | .ifElse _ x _ body _ other, n, n', cs => ∃ is c bs k os, Emitted env (expr x).value c is ∧
    ShapesAll env flow body (n + 3) k bs ∧ ShapesAll env flow other k n' os ∧
    cs = .cond x is c ⟨n + 1, "then"⟩ ⟨n + 3, "else"⟩ :: .label ⟨n + 1, "then"⟩ ::
      (bs ++ .goto ⟨n + 2, "next"⟩ :: .label ⟨n + 3, "else"⟩ :: (os ++ [.label ⟨n + 2, "next"⟩]))
  | .whileLoop _ x _ body, n, n', cs => ∃ is c bs, Emitted env (expr x).value c is ∧
    ShapesAll env (some ⟨⟨n + 3, "out"⟩, ⟨n + 1, "header"⟩⟩) body (n + 3) n' bs ∧
    cs = .label ⟨n + 1, "header"⟩ :: .cond x is c ⟨n + 2, "loop"⟩ ⟨n + 3, "out"⟩ ::
      .label ⟨n + 2, "loop"⟩ :: (bs ++ [.goto ⟨n + 1, "header"⟩, .label ⟨n + 3, "out"⟩])
  | .repeatUntil _ _ body x, n, n', cs => ∃ is c bs, Emitted env (expr x).value c is ∧
    ShapesAll env (some ⟨⟨n + 2, "out"⟩, ⟨n + 3, "cond"⟩⟩) body (n + 3) n' bs ∧
    cs = .label ⟨n + 1, "loop"⟩ ::
      (bs ++ ((if anyContinues body then [.label ⟨n + 3, "cond"⟩] else []) ++
        [.cond x is c ⟨n + 2, "out"⟩ ⟨n + 1, "loop"⟩, .label ⟨n + 2, "out"⟩]))
  | .block _ _ body, n, n', cs => ShapesAll env flow body n n' cs
  | .ret _, n, n', cs => n' = n ∧ cs = [.goto .epilogue]
  | .brk _, n, n', cs => ∃ f, flow = some f ∧ n' = n ∧ cs = [.goto f.leave]
  | .cont _, n, n', cs => ∃ f, flow = some f ∧ n' = n ∧ cs = [.goto f.next]

/-- The chunks of statements in order. -/
def ShapesAll (env : Env) (flow : Option Flow) : List TStmt → Nat → Nat → List Chunk → Prop
  | [], n, n', cs => n' = n ∧ cs = []
  | s :: ss, n, n', cs => ∃ k cs₁ cs₂, Shapes env flow s n k cs₁ ∧
    ShapesAll env flow ss k n' cs₂ ∧ cs = cs₁ ++ cs₂

end

/-! ## Computations that build chunks -/

/-- **Computations that build chunks**: from the locals `L`, the number `n` of labels and the code
`pre` that no chunk holds yet, they succeed and add code, and the chunks with this code satisfy `Q`
together with the labels and locals in the end. -/
def Builds (env : Env) (T : Prop) (L : Locals) (n : Nat) (pre : List Instr) (m : Lower Unit)
    (Q : Nat → List Chunk → Locals → Prop) : Prop :=
  ∀ b : Builder, b.locals = L → b.labels = n →
    ∃ b' is cs, (m.run env).run b = .ok ((), b') ∧ Grows env T b b' is ∧
      pre ++ is = flatten cs ∧ Q b'.labels cs b'.locals

section Builds

variable {env : Env} {T : Prop} {L : Locals} {n : Nat} {pre : List Instr}
  {Q R : Nat → List Chunk → Locals → Prop} {m : Lower Unit} {f : Unit → Lower Unit}

/-- Nothing is built. -/
lemma Builds.pure (h : Q n [] L) : Builds env T L n [] (pure ()) Q := by
  rintro b rfl rfl
  exact ⟨b, [], [], rfl, .nil rfl (Nat.le_refl _), rfl, h⟩

/-- Less may be said about what is built. -/
lemma Builds.weaken (hm : Builds env T L n pre m R) (h : ∀ n' cs L', R n' cs L' → Q n' cs L') :
    Builds env T L n pre m Q := by
  intro b hb hn
  obtain ⟨b', is, cs, hrun, hg, hcs, hR⟩ := hm b hb hn
  exact ⟨b', is, cs, hrun, hg, hcs, h _ _ _ hR⟩

/-- One piece is built after the other. -/
lemma Builds.bind (hm : Builds env T L n [] m R)
    (hf : ∀ n' cs L', R n' cs L' →
      Builds env T L' n' [] (f ()) fun n'' cs' L'' => Q n'' (cs ++ cs') L'') :
    Builds env T L n [] (m >>= f) Q := by
  intro b hb hn
  obtain ⟨b', is, cs, hrun, hg, hcs, hR⟩ := hm b hb hn
  obtain ⟨b'', js, ds, hrun', hg', hds, hQ⟩ := hf _ _ _ hR b' rfl rfl
  refine ⟨b'', is ++ js, cs ++ ds, (run_bind hrun).trans hrun', hg.trans hg', ?_, hQ⟩
  rw [List.nil_append] at hcs hds ⊢
  rw [flatten_append, hcs, hds]

/-- A new label. -/
lemma Builds.newLabel {hint : String} {f : Label → Lower Unit}
    (hf : Builds env T L (n + 1) pre (f ⟨n + 1, hint⟩) Q) :
    Builds env T L n pre (newLabel hint >>= f) Q := by
  rintro b hb rfl
  obtain ⟨b', is, cs, hrun, hg, hcs, hQ⟩ := hf { b with labels := b.labels + 1 } hb rfl
  exact ⟨b', is, cs, hrun, ⟨hg.code_eq, hg.regs_le, hg.typed, hg.regs_new, hg.regs_nodup⟩, hcs, hQ⟩

/-- A chunk that ends with an instruction that is no assignment. -/
lemma Builds.emit {c : Chunk} {i : Instr} (hc : pre ++ [i] = c.code) (hr : i.reg? = none)
    (ht : T → i.WellTyped env.Calls)
    (hf : Builds env T L n [] (f ()) fun n' cs L' => Q n' (c :: cs) L') :
    Builds env T L n pre (emit i >>= f) Q := by
  intro b hb hn
  obtain ⟨b', is, cs, hrun, hg, hcs, hQ⟩ := hf { b with code := b.code ++ [i] } hb hn
  refine ⟨b', i :: is, c :: cs, hrun, Grows.trans (.single hr ht) hg, ?_, hQ⟩
  rw [List.nil_append] at hcs
  rw [flatten_cons, ← hc, ← hcs, List.append_assoc]
  rfl

/-- The last chunk, which ends with an instruction that is no assignment. -/
lemma Builds.emitLast {c : Chunk} {i : Instr} (hc : pre ++ [i] = c.code) (hr : i.reg? = none)
    (ht : T → i.WellTyped env.Calls) (hQ : Q n [c] L) : Builds env T L n pre (Lowering.emit i) Q :=
  Builds.emit (f := fun _ => Pure.pure ()) hc hr ht (Builds.pure hQ)

/-- The value of a condition, whose branch follows. -/
lemma Builds.value {m : Lower Operand} {P : Operand → Prop} {f : Operand → Lower Unit}
    (hm : Yields env T L m P)
    (hf : ∀ c is, P c → Emitted env m c is → Builds env T L n is (f c) Q) :
    Builds env T L n [] (m >>= f) Q := by
  rintro b hb rfl
  obtain ⟨c, b', is, hrun, he, hl, hP⟩ := hm b hb
  obtain ⟨b'', js, cs, hrun', hg, hcs, hQ⟩ :=
    hf c is hP ⟨⟨b, b', hrun, he.code_eq⟩, he.straight⟩ b' hl he.labels_eq
  exact ⟨b'', is ++ js, cs, (run_bind hrun).trans hrun', he.toGrows.trans hg, hcs, hQ⟩

/-- The code of an assignment. -/
lemma Builds.assign {s : TStmt} {P : Locals → Prop} (hm : Lowers env T L m fun _ L' => P L')
    (hQ : ∀ is L', Emitted env m () is → P L' → Q n [.assign s is] L') :
    Builds env T L n [] m Q := by
  rintro b hb rfl
  obtain ⟨⟨⟩, b', is, hrun, he, hP⟩ := hm b hb
  refine ⟨b', is, [.assign s is], hrun, he.toGrows, by simp [Chunk.code], ?_⟩
  rw [he.labels_eq]
  exact hQ is b'.locals ⟨⟨b, b', hrun, he.code_eq⟩, he.straight⟩ hP

/-- Statements whose locals are not seen after them. -/
lemma Builds.inBlock (hm : Builds env T L n [] m fun n' cs _ => Q n' cs L) :
    Builds env T L n [] (inBlock m) Q := by
  intro b hb hn
  obtain ⟨b', is, cs, hrun, hg, hcs, hQ⟩ := hm b hb hn
  refine ⟨{ b' with locals := b.locals }, is, cs, ?_, ⟨hg.code_eq, hg.regs_le, hg.typed,
    hg.regs_new, hg.regs_nodup⟩, hcs, ?_⟩
  · refine (run_bind (show ((get : Lower Builder).run env).run b = .ok (b, b) from rfl)).trans ?_
    exact (run_bind hrun).trans rfl
  · rw [hb]
    exact hQ

end Builds

/-! ## Statements -/

/-- **Storage for the visible locals**, and for nothing else. -/
structure Hosts (T : Prop) (Γ : List Local) (L : Locals) : Prop where
  houses : Houses T Γ L
  known : ∀ i s, L.lookup i = some s → i ∈ Γ.map Local.id

section Statements

variable {env : Env} {e : Elaborated} {T : Prop} {L : Locals} {Γ D : List Local}

/-- What hosts locals admits distinct new ones. -/
lemma Hosts.admits (h : Hosts T Γ L) (hd : Distinct Γ D) : Admits T Γ D L where
  houses := h.houses
  sound l hl s hs := absurd (h.known _ s hs) (hd.new l hl)
  known i s hs := by
    rw [List.map_append]
    exact List.mem_append_left _ (h.known i s hs)

/-- Admitted locals that have storage are hosted. -/
lemma Admits.hosts (h : Admits T Γ D L) (hD : ∀ l ∈ D, HasStorage L l) : Hosts T (Γ ++ D) L :=
  ⟨h.houses_append hD, h.known⟩

/-- Statements declare locals of valid types. -/
lemma valid_of_declaresAll {p : Program} : ∀ {ss : List TStmt} {Γ : List Local} {inLoop : Bool},
    TStmt.TypedAll p Γ inLoop ss → ∀ l ∈ TStmt.declaresAll ss, p.Valid l.type
  | [], _, _, _, _, hl => by simp [TStmt.declaresAll] at hl
  | s :: ss, Γ, inLoop, h, l, hl => by
    obtain ⟨hs, hss⟩ := h
    rw [TStmt.declaresAll, List.flatMap_cons, List.mem_append] at hl
    obtain hl | hl := hl
    · cases s with
      | assign => exact hs.declared_valid l hl
      | _ => cases hl
    · exact valid_of_declaresAll hss l hl

/-- The value of a typed condition is a truth value. -/
lemma cond_yields (he : env.Sound e) (hL : Houses T Γ L) (hΓ : ∀ l ∈ Γ, e.program.Valid l.type)
    {x : TExpr} (hx : x.TypedCond e.program Γ) :
    Yields env T L (expr x).value fun c => T → c.HasType .bool := by
  obtain ⟨hx, m, ht⟩ := hx
  have ht' : (expr x).expr.types = [.scalar m .bool] := by rw [expr_expr, ht]
  exact ((expr_sound he hL hΓ hx).value_yields ht').weaken fun c hc hT => (hc hT).1

/-- The locals of a block are forgotten after it. -/
lemma Builds.block {flow : Option Flow} {ss : List TStmt} {n : Nat}
    (h : Builds env T L n [] (statements flow ss) fun n' cs L' =>
      ShapesAll env flow ss n n' cs ∧ Hosts T (Γ ++ TStmt.declaresAll ss) L') :
    Builds env T L n [] (Lowering.inBlock (statements flow ss)) fun n' cs L' =>
      ShapesAll env flow ss n n' cs ∧ L' = L :=
  Builds.inBlock (h.weaken fun _ _ _ h => ⟨h.1, rfl⟩)

mutual

/-- **Typed statements are lowered** to their chunks, if their assignments are ready.

**Proof sketch.** By induction on the statements. The labels of a statement are made in a fixed
order, so their numbers are known, and the code between them comes from the induction hypothesis.
The locals of a block are forgotten at its end, which brings back the storage before it. -/
theorem statement_builds (he : env.Sound e) {L : Locals} {Γ : List Local} {flow : Option Flow}
    {s : TStmt} {n : Nat}
    (ht : s.Typed e.program Γ flow.isSome) (hready : s.isReady)
    (hΓ : ∀ l ∈ Γ, e.program.Valid l.type) (hL : Hosts T Γ L) :
    Builds env T L n [] (statement flow s) fun n' cs L' =>
      Shapes env flow s n n' cs ∧ Hosts T (Γ ++ s.declares) L' := by
  have same : Hosts T (Γ ++ []) L := by rwa [List.append_nil]
  cases s with
  | assign pos gs vs ps ds =>
    have ha : AssignTyped e.program Γ vs ps ds := ht
    have hd : Distinct Γ (declaredBy ps) := ⟨ha.ids_nodup, ha.ids_new⟩
    refine Builds.assign (s := .assign pos gs vs ps ds)
      (assign_lowers he ha hready hΓ (hL.admits hd)) fun is L' hcode h => ?_
    exact ⟨⟨is, hcode, rfl, rfl⟩, h.1.admits.hosts h.2⟩
  | ifThen pos x bpos body =>
    obtain ⟨hx, hb⟩ := ht
    simp only [statement]
    refine Builds.value (cond_yields he hL.houses hΓ hx) fun c is hc hcode => ?_
    refine Builds.newLabel (Builds.newLabel ?_)
    refine Builds.emit (c := .cond x is c ⟨n + 1, "then"⟩ ⟨n + 2, "next"⟩) rfl rfl hc ?_
    refine Builds.emit (c := .label ⟨n + 1, "then"⟩) rfl rfl (fun _ => trivial) ?_
    refine Builds.bind (Builds.block (statements_build he hb hready hΓ hL)) fun n' bs L' h => ?_
    obtain ⟨hbs, rfl⟩ := h
    refine Builds.emitLast (c := .label ⟨n + 2, "next"⟩) rfl rfl (fun _ => trivial) ?_
    exact ⟨⟨is, c, bs, hcode, hbs, rfl⟩, same⟩
  | ifElse pos x bpos body opos other =>
    obtain ⟨hx, hb, ho⟩ := ht
    obtain ⟨hrb, hro⟩ := Bool.and_eq_true_iff.1 hready
    simp only [statement]
    refine Builds.value (cond_yields he hL.houses hΓ hx) fun c is hc hcode => ?_
    refine Builds.newLabel (Builds.newLabel (Builds.newLabel ?_))
    refine Builds.emit (c := .cond x is c ⟨n + 1, "then"⟩ ⟨n + 3, "else"⟩) rfl rfl hc ?_
    refine Builds.emit (c := .label ⟨n + 1, "then"⟩) rfl rfl (fun _ => trivial) ?_
    refine Builds.bind (Builds.block (statements_build he hb hrb hΓ hL)) fun k bs L' h => ?_
    obtain ⟨hbs, rfl⟩ := h
    refine Builds.emit (c := .goto ⟨n + 2, "next"⟩) rfl rfl (fun _ => trivial) ?_
    refine Builds.emit (c := .label ⟨n + 3, "else"⟩) rfl rfl (fun _ => trivial) ?_
    refine Builds.bind (Builds.block (statements_build he ho hro hΓ hL)) fun n' os L' h => ?_
    obtain ⟨hos, rfl⟩ := h
    refine Builds.emitLast (c := .label ⟨n + 2, "next"⟩) rfl rfl (fun _ => trivial) ?_
    exact ⟨⟨is, c, bs, k, os, hcode, hbs, hos, rfl⟩, same⟩
  | whileLoop pos x bpos body =>
    obtain ⟨hx, hb⟩ := ht
    simp only [statement]
    refine Builds.newLabel (Builds.newLabel (Builds.newLabel ?_))
    refine Builds.emit (c := .label ⟨n + 1, "header"⟩) rfl rfl (fun _ => trivial) ?_
    refine Builds.value (cond_yields he hL.houses hΓ hx) fun c is hc hcode => ?_
    refine Builds.emit (c := .cond x is c ⟨n + 2, "loop"⟩ ⟨n + 3, "out"⟩) rfl rfl hc ?_
    refine Builds.emit (c := .label ⟨n + 2, "loop"⟩) rfl rfl (fun _ => trivial) ?_
    refine Builds.bind (Builds.block (statements_build he hb hready hΓ hL)) fun n' bs L' h => ?_
    obtain ⟨hbs, rfl⟩ := h
    refine Builds.emit (c := .goto ⟨n + 1, "header"⟩) rfl rfl (fun _ => trivial) ?_
    refine Builds.emitLast (c := .label ⟨n + 3, "out"⟩) rfl rfl (fun _ => trivial) ?_
    exact ⟨⟨is, c, bs, hcode, hbs, rfl⟩, same⟩
  | repeatUntil pos bpos body x =>
    obtain ⟨hb, hx⟩ := ht
    have hΓ' : ∀ l ∈ Γ ++ TStmt.declaresAll body, e.program.Valid l.type := fun l hl =>
      (List.mem_append.1 hl).elim (hΓ l) (valid_of_declaresAll hb l)
    simp only [statement]
    refine Builds.newLabel (Builds.newLabel (Builds.newLabel ?_))
    refine Builds.emit (c := .label ⟨n + 1, "loop"⟩) rfl rfl (fun _ => trivial) ?_
    -- The condition is inside the block, so it sees the locals of the body.
    have cond : ∀ {k : Nat} {L' : Locals}, Hosts T (Γ ++ TStmt.declaresAll body) L' →
        Builds env T L' k [] (do
          let c ← (expr x).value
          emit (.branch c ⟨n + 2, "out"⟩ ⟨n + 1, "loop"⟩)) fun n' cs _ =>
            n' = k ∧ ∃ is c, Emitted env (expr x).value c is ∧
              cs = [.cond x is c ⟨n + 2, "out"⟩ ⟨n + 1, "loop"⟩] := fun hL' =>
      Builds.value (cond_yields he hL'.houses hΓ' hx) fun c is hc hcode =>
        Builds.emitLast (c := .cond x is c ⟨n + 2, "out"⟩ ⟨n + 1, "loop"⟩) rfl rfl hc
          ⟨rfl, is, c, hcode, rfl⟩
    have inner : Builds env T L (n + 3) [] (inBlock do
          statements (some ⟨⟨n + 2, "out"⟩, ⟨n + 3, "cond"⟩⟩) body
          if anyContinues body then emit (.label ⟨n + 3, "cond"⟩)
          let c ← (expr x).value
          emit (.branch c ⟨n + 2, "out"⟩ ⟨n + 1, "loop"⟩)) fun n' cs L' => L' = L ∧
        ∃ is c bs, Emitted env (expr x).value c is ∧
          ShapesAll env (some ⟨⟨n + 2, "out"⟩, ⟨n + 3, "cond"⟩⟩) body (n + 3) n' bs ∧
          cs = bs ++ ((if anyContinues body then [.label ⟨n + 3, "cond"⟩] else []) ++
            [.cond x is c ⟨n + 2, "out"⟩ ⟨n + 1, "loop"⟩]) := by
      refine Builds.inBlock (Builds.bind (statements_build he hb hready hΓ hL) fun k bs L' h => ?_)
      obtain ⟨hbs, hL'⟩ := h
      split
      · refine Builds.emit (c := .label ⟨n + 3, "cond"⟩) rfl rfl (fun _ => trivial) ?_
        refine (cond hL').weaken fun n' cs _ h => ?_
        obtain ⟨rfl, is, c, hcode, rfl⟩ := h
        exact ⟨rfl, is, c, bs, hcode, hbs, rfl⟩
      · refine (cond hL').weaken fun n' cs _ h => ?_
        obtain ⟨rfl, is, c, hcode, rfl⟩ := h
        exact ⟨rfl, is, c, bs, hcode, hbs, rfl⟩
    refine Builds.bind inner fun n' cs L' h => ?_
    obtain ⟨rfl, is, c, bs, hcode, hbs, rfl⟩ := h
    refine Builds.emitLast (c := .label ⟨n + 2, "out"⟩) rfl rfl (fun _ => trivial) ?_
    exact ⟨⟨is, c, bs, hcode, hbs, by simp⟩, same⟩
  | block pos bpos body =>
    refine (Builds.block (statements_build he ht hready hΓ hL)).weaken fun n' cs L' h => ?_
    obtain ⟨hcs, rfl⟩ := h
    exact ⟨hcs, same⟩
  | ret pos =>
    exact Builds.emitLast (c := .goto .epilogue) rfl rfl (fun _ => trivial) ⟨⟨rfl, rfl⟩, same⟩
  | brk pos =>
    obtain ⟨f, rfl⟩ := Option.isSome_iff_exists.1 ht
    exact Builds.emitLast (c := .goto f.leave) rfl rfl (fun _ => trivial)
      ⟨⟨f, rfl, rfl, rfl⟩, same⟩
  | cont pos =>
    obtain ⟨f, rfl⟩ := Option.isSome_iff_exists.1 ht
    exact Builds.emitLast (c := .goto f.next) rfl rfl (fun _ => trivial)
      ⟨⟨f, rfl, rfl, rfl⟩, same⟩

/-- Typed statements in order are lowered to their chunks. -/
theorem statements_build (he : env.Sound e) {L : Locals} {Γ : List Local} {flow : Option Flow}
    {ss : List TStmt} {n : Nat}
    (ht : TStmt.TypedAll e.program Γ flow.isSome ss) (hready : TStmt.areReady ss)
    (hΓ : ∀ l ∈ Γ, e.program.Valid l.type) (hL : Hosts T Γ L) :
    Builds env T L n [] (statements flow ss) fun n' cs L' =>
      ShapesAll env flow ss n n' cs ∧ Hosts T (Γ ++ TStmt.declaresAll ss) L' := by
  cases ss with
  | nil => exact Builds.pure ⟨⟨rfl, rfl⟩, by simpa [TStmt.declaresAll] using hL⟩
  | cons s ss =>
    obtain ⟨hs, hss⟩ := ht
    obtain ⟨hrs, hrss⟩ := Bool.and_eq_true_iff.1 hready
    simp only [statements]
    refine Builds.bind (statement_builds he hs hrs hΓ hL) fun k cs L' h => ?_
    have hΓ' : ∀ l ∈ Γ ++ s.declares, e.program.Valid l.type := by
      intro l hl
      obtain hl | hl := List.mem_append.1 hl
      · exact hΓ l hl
      · have hone : TStmt.TypedAll e.program Γ flow.isSome [s] := ⟨hs, trivial⟩
        exact valid_of_declaresAll hone l (by simpa [TStmt.declaresAll])
    refine (statements_build he hss hrss hΓ' h.2).weaken fun n' cs' L'' h' => ?_
    refine ⟨⟨k, cs, cs', h.1, h'.1, rfl⟩, ?_⟩
    rw [TStmt.declaresAll, List.flatMap_cons, ← List.append_assoc]
    exact h'.2

end

/-! ## Statements that are not ready -/

/-- A block fails if what is in it does. -/
lemma Fails.inBlock {m : Lower Unit} (h : Fails env m) : Fails env (inBlock m) :=
  Fails.of_bind fun _ => Fails.bind h

mutual

/-- Statements with an assignment that is not ready are not lowered. -/
theorem statement_fails {flow : Option Flow} : ∀ {s : TStmt}, s.isReady = false →
    Fails env (statement flow s)
  | .assign _ _ vs ps ds, h => assign_fails h
  | .ifThen _ x _ body, h => by
    simp only [statement]
    exact Fails.of_bind fun _ => Fails.of_bind fun _ => Fails.of_bind fun _ =>
      Fails.of_bind fun _ => Fails.of_bind fun _ => Fails.bind (Fails.inBlock (statements_fail h))
  | .ifElse _ x _ body _ other, h => by
    simp only [statement]
    refine Fails.of_bind fun _ => Fails.of_bind fun _ => Fails.of_bind fun _ =>
      Fails.of_bind fun _ => Fails.of_bind fun _ => Fails.of_bind fun _ => ?_
    obtain h | h := Bool.and_eq_false_iff.1 h
    · exact Fails.bind (Fails.inBlock (statements_fail h))
    · exact Fails.of_bind fun _ => Fails.of_bind fun _ => Fails.of_bind fun _ =>
        Fails.bind (Fails.inBlock (statements_fail h))
  | .whileLoop _ x _ body, h => by
    simp only [statement]
    exact Fails.of_bind fun _ => Fails.of_bind fun _ => Fails.of_bind fun _ =>
      Fails.of_bind fun _ => Fails.of_bind fun _ => Fails.of_bind fun _ =>
        Fails.of_bind fun _ => Fails.bind (Fails.inBlock (statements_fail h))
  | .repeatUntil _ _ body x, h => by
    simp only [statement]
    exact Fails.of_bind fun _ => Fails.of_bind fun _ => Fails.of_bind fun _ =>
      Fails.of_bind fun _ => Fails.bind (Fails.inBlock (Fails.bind (statements_fail h)))
  | .block _ _ body, h => Fails.inBlock (statements_fail h)
  | .ret _, h | .brk _, h | .cont _, h => nomatch h

/-- Statements in order of which one is not ready are not lowered. -/
theorem statements_fail {flow : Option Flow} : ∀ {ss : List TStmt}, TStmt.areReady ss = false →
    Fails env (statements flow ss)
  | [], h => nomatch h
  | s :: ss, h => by
    simp only [statements]
    obtain h | h := Bool.and_eq_false_iff.1 h
    · exact Fails.bind (statement_fails h)
    · exact Fails.of_bind fun _ => statements_fail h

end

end Statements

/-! ## Labels -/

/-- The labels that chunks define. -/
def labelsOf (cs : List Chunk) : List Label := cs.flatMap fun c =>
  match c with
  | .label l => [l]
  | _ => []

section Labels

variable {env : Env}

/-- No chunks have no labels. -/
@[simp] lemma labelsOf_nil : labelsOf [] = [] := rfl

/-- The labels of two lists of chunks. -/
@[simp] lemma labelsOf_append (cs ds : List Chunk) :
    labelsOf (cs ++ ds) = labelsOf cs ++ labelsOf ds := List.flatMap_append

/-- The label of a chunk comes first. -/
@[simp] lemma labelsOf_label (l : Label) (cs : List Chunk) :
    labelsOf (.label l :: cs) = l :: labelsOf cs := rfl

/-- A condition has no label. -/
@[simp] lemma labelsOf_cond (x : TExpr) (is : List Instr) (c : Operand) (yes no : Label)
    (cs : List Chunk) : labelsOf (.cond x is c yes no :: cs) = labelsOf cs := rfl

/-- A jump has no label. -/
@[simp] lemma labelsOf_goto (l : Label) (cs : List Chunk) :
    labelsOf (.goto l :: cs) = labelsOf cs := rfl

/-- An assignment has no label. -/
@[simp] lemma labelsOf_assign (s : TStmt) (is : List Instr) (cs : List Chunk) :
    labelsOf (.assign s is :: cs) = labelsOf cs := rfl

/-- Labels with numbers of their own between two numbers. -/
structure Fresh (n n' : Nat) (ls : List Label) : Prop where
  le : n ≤ n'
  bounds : ∀ l ∈ ls, n < l.id ∧ l.id ≤ n'
  nodup : (ls.map Label.id).Nodup

/-- No labels were made. -/
lemma Fresh.nil (n : Nat) : Fresh n n [] := ⟨Nat.le_refl n, by simp, by simp⟩

/-- The labels that two parts make are distinct. -/
lemma Fresh.append {n k n' : Nat} {ls ms : List Label} (h : Fresh n k ls) (h' : Fresh k n' ms) :
    Fresh n n' (ls ++ ms) where
  le := Nat.le_trans h.le h'.le
  bounds l hl := by
    obtain hl | hl := List.mem_append.1 hl
    · exact ⟨(h.bounds l hl).1, Nat.le_trans (h.bounds l hl).2 h'.le⟩
    · exact ⟨Nat.lt_of_le_of_lt h.le (h'.bounds l hl).1, (h'.bounds l hl).2⟩
  nodup := by
    rw [List.map_append, List.nodup_append']
    refine ⟨h.nodup, h'.nodup, fun i hi hi' => ?_⟩
    obtain ⟨l, hl, rfl⟩ := List.mem_map.1 hi
    obtain ⟨m, hm, he⟩ := List.mem_map.1 hi'
    have h1 := (h.bounds l hl).2
    have h2 := (h'.bounds m hm).1
    omega

/-- The order of labels does not matter. -/
lemma Fresh.perm {n n' : Nat} {ls ms : List Label} (h : Fresh n n' ls) (hp : ms.Perm ls) :
    Fresh n n' ms :=
  ⟨h.le, fun l hl => h.bounds l (hp.mem_iff.1 hl), (hp.map _).nodup_iff.2 h.nodup⟩

/-- Labels may be left out. -/
lemma Fresh.sublist {n n' : Nat} {ls ms : List Label} (h : Fresh n n' ls) (hs : ms.Sublist ls) :
    Fresh n n' ms :=
  ⟨h.le, fun l hl => h.bounds l (hs.mem hl), h.nodup.sublist (hs.map _)⟩

/-- A label with the next number. -/
lemma Fresh.single (n : Nat) (hint : String) : Fresh n (n + 1) [⟨n + 1, hint⟩] :=
  ⟨Nat.le_succ n, by simp, by simp⟩

/-- Labels with the next two numbers. -/
lemma Fresh.pair (n : Nat) (hint hint' : String) :
    Fresh n (n + 2) [⟨n + 1, hint⟩, ⟨n + 2, hint'⟩] :=
  (single n hint).append (single (n + 1) hint')

/-- Labels with the next three numbers. -/
lemma Fresh.triple (n : Nat) (hint hint' hint'' : String) :
    Fresh n (n + 3) [⟨n + 1, hint⟩, ⟨n + 2, hint'⟩, ⟨n + 3, hint''⟩] :=
  (pair n hint hint').append (single (n + 2) hint'')

/-- The labels of chunks that are or are not made from a condition. -/
lemma labelsOf_ite (b : Bool) (l : Label) :
    labelsOf (if b then [.label l] else []) = if b then [l] else [] := by
  cases b <;> rfl

mutual

/-- The labels of statements are new. -/
theorem Shapes.fresh {flow : Option Flow} {s : TStmt} {n n' : Nat} {cs : List Chunk}
    (h : Shapes env flow s n n' cs) : Fresh n n' (labelsOf cs) := by
  cases s with
  | assign =>
    obtain ⟨is, -, rfl, rfl⟩ := h
    exact .nil _
  | ifThen pos x bpos body =>
    obtain ⟨is, c, bs, -, hbs, rfl⟩ := h
    refine ((Fresh.pair n "then" "next").append hbs.fresh).perm ?_
    simp only [labelsOf_cond, labelsOf_label, labelsOf_append, labelsOf_nil]
    exact List.perm_iff_count.2 fun a => by
      simp only [List.count_append, List.count_cons, List.count_nil]
      omega
  | ifElse pos x bpos body opos other =>
    obtain ⟨is, c, bs, k, os, -, hbs, hos, rfl⟩ := h
    refine (((Fresh.triple n "then" "next" "else").append hbs.fresh).append hos.fresh).perm ?_
    simp only [labelsOf_cond, labelsOf_label, labelsOf_goto, labelsOf_append, labelsOf_nil]
    exact List.perm_iff_count.2 fun a => by
      simp only [List.count_append, List.count_cons, List.count_nil]
      omega
  | whileLoop pos x bpos body =>
    obtain ⟨is, c, bs, -, hbs, rfl⟩ := h
    refine ((Fresh.triple n "header" "loop" "out").append hbs.fresh).perm ?_
    simp only [labelsOf_cond, labelsOf_label, labelsOf_goto, labelsOf_append, labelsOf_nil]
    exact List.perm_iff_count.2 fun a => by
      simp only [List.count_append, List.count_cons, List.count_nil]
      omega
  | repeatUntil pos bpos body x =>
    obtain ⟨is, c, bs, -, hbs, rfl⟩ := h
    -- The label of the condition may be missing.
    have hperm : (⟨n + 1, "loop"⟩ :: (labelsOf bs ++ [⟨n + 3, "cond"⟩, ⟨n + 2, "out"⟩])).Perm
        ([⟨n + 1, "loop"⟩, ⟨n + 2, "out"⟩, ⟨n + 3, "cond"⟩] ++ labelsOf bs) :=
      List.perm_iff_count.2 fun a => by
        simp only [List.count_append, List.count_cons, List.count_nil]
        omega
    refine (((Fresh.triple n "loop" "out" "cond").append hbs.fresh).perm hperm).sublist ?_
    simp only [labelsOf_cond, labelsOf_label, labelsOf_append, labelsOf_nil, labelsOf_ite]
    refine .cons_cons _ (.append (.refl _) ?_)
    split
    · exact .refl _
    · exact .cons _ (.refl _)
  | block pos bpos body => exact ShapesAll.fresh h
  | ret =>
    obtain ⟨rfl, rfl⟩ := h
    exact .nil _
  | brk | cont =>
    obtain ⟨f, -, rfl, rfl⟩ := h
    exact .nil _

/-- The labels of statements in order are new. -/
theorem ShapesAll.fresh {flow : Option Flow} {ss : List TStmt} {n n' : Nat} {cs : List Chunk}
    (h : ShapesAll env flow ss n n' cs) : Fresh n n' (labelsOf cs) := by
  cases ss with
  | nil =>
    obtain ⟨rfl, rfl⟩ := h
    exact .nil _
  | cons s ss =>
    obtain ⟨k, cs₁, cs₂, h₁, h₂, rfl⟩ := h
    rw [labelsOf_append]
    exact h₁.fresh.append h₂.fresh

end

mutual

/-- The chunks of a statement are faithful. -/
theorem Shapes.faithful {flow : Option Flow} {s : TStmt} {n n' : Nat} {cs : List Chunk}
    (h : Shapes env flow s n n' cs) : ∀ c ∈ cs, c.Faithful env := by
  cases s with
  | assign =>
    obtain ⟨is, hcode, -, rfl⟩ := h
    exact List.forall_mem_cons.2 ⟨⟨_, _, _, _, _, rfl, hcode⟩, List.forall_mem_nil _⟩
  | ifThen pos x bpos body =>
    obtain ⟨is, c, bs, hcode, hbs, rfl⟩ := h
    simp only [List.forall_mem_cons, List.forall_mem_append]
    exact ⟨hcode, trivial, hbs.faithful, trivial, List.forall_mem_nil _⟩
  | ifElse pos x bpos body opos other =>
    obtain ⟨is, c, bs, k, os, hcode, hbs, hos, rfl⟩ := h
    simp only [List.forall_mem_cons, List.forall_mem_append]
    exact ⟨hcode, trivial, hbs.faithful, trivial, trivial, hos.faithful, trivial,
      List.forall_mem_nil _⟩
  | whileLoop pos x bpos body =>
    obtain ⟨is, c, bs, hcode, hbs, rfl⟩ := h
    simp only [List.forall_mem_cons, List.forall_mem_append]
    exact ⟨trivial, hcode, trivial, hbs.faithful, trivial, trivial, List.forall_mem_nil _⟩
  | repeatUntil pos bpos body x =>
    obtain ⟨is, c, bs, hcode, hbs, rfl⟩ := h
    have hlabel : ∀ d ∈ (if anyContinues body then [Chunk.label ⟨n + 3, "cond"⟩] else []),
        d.Faithful env := by
      split <;> simp [Chunk.Faithful]
    simp only [List.forall_mem_cons, List.forall_mem_append]
    exact ⟨trivial, hbs.faithful, hlabel, hcode, trivial, List.forall_mem_nil _⟩
  | block pos bpos body => exact ShapesAll.faithful h
  | ret =>
    obtain ⟨-, rfl⟩ := h
    simp [Chunk.Faithful]
  | brk | cont =>
    obtain ⟨f, -, -, rfl⟩ := h
    simp [Chunk.Faithful]

/-- The chunks of statements in order are faithful. -/
theorem ShapesAll.faithful {flow : Option Flow} {ss : List TStmt} {n n' : Nat} {cs : List Chunk}
    (h : ShapesAll env flow ss n n' cs) : ∀ c ∈ cs, c.Faithful env := by
  cases ss with
  | nil =>
    obtain ⟨-, rfl⟩ := h
    exact List.forall_mem_nil _
  | cons s ss =>
    obtain ⟨k, cs₁, cs₂, h₁, h₂, rfl⟩ := h
    exact List.forall_mem_append.2 ⟨h₁.faithful, h₂.faithful⟩

end

/-! ## Jumps -/

/-- Where jumps lead that leave statements, of which some may go on with the next round of the loop
around them. -/
def Leads (flow : Option Flow) (continues : Bool) (l : Label) : Prop :=
  l = .epilogue ∨ ∃ f, flow = some f ∧ (l = f.leave ∨ continues ∧ l = f.next)

/-- What leads to a label still does in a wider flow. -/
lemma Leads.mono {flow : Option Flow} {a b : Bool} {l : Label} (h : Leads flow a l)
    (hab : a → b) : Leads flow b l :=
  h.imp_right fun ⟨f, hf, hl⟩ => ⟨f, hf, hl.imp_right fun ⟨ha, hl⟩ => ⟨hab ha, hl⟩⟩

/-- The jumps of a loop lead out of the loop only by a return. -/
lemma Leads.inside {flow : Flow} {a : Bool} {l : Label} (h : Leads (some flow) a l) :
    l = .epilogue ∨ l = flow.leave ∨ a ∧ l = flow.next := by
  obtain h | ⟨f, hf, hl⟩ := h
  · exact .inl h
  · exact .inr (Option.some.inj hf ▸ hl)

/-- Jumps that lead to labels of the chunks, or out of the statements. -/
def Closed (flow : Option Flow) (continues : Bool) (cs ds : List Chunk) : Prop :=
  ∀ c ∈ cs, ∀ l ∈ c.targets, .label l ∈ ds ∨ Leads flow continues l

/-- No chunks jump anywhere. -/
lemma Closed.nil {flow : Option Flow} {a : Bool} {ds : List Chunk} : Closed flow a [] ds :=
  List.forall_mem_nil _

/-- A chunk is closed by labels or by what is around it. -/
lemma Closed.cons {flow : Option Flow} {a : Bool} {c : Chunk} {cs ds : List Chunk}
    (hc : ∀ l ∈ c.targets, .label l ∈ ds ∨ Leads flow a l) (h : Closed flow a cs ds) :
    Closed flow a (c :: cs) ds :=
  fun d hd => (List.mem_cons.1 hd).elim (fun hd => hd ▸ hc) (h d)

/-- Two lists of chunks are closed. -/
lemma Closed.append {flow : Option Flow} {a : Bool} {cs cs' ds : List Chunk}
    (h : Closed flow a cs ds) (h' : Closed flow a cs' ds) : Closed flow a (cs ++ cs') ds :=
  fun d hd => (List.mem_append.1 hd).elim (h d) (h' d)

/-- Chunks stay closed among more labels. -/
lemma Closed.mono {flow : Option Flow} {a b : Bool} {cs ds es : List Chunk}
    (h : Closed flow a cs ds) (hab : a → b) (hs : ds ⊆ es) : Closed flow b cs es :=
  fun c hc l hl => (h c hc l hl).imp (fun h => hs h) fun h => h.mono hab

/-- The jumps of the body of a loop lead to the labels of the loop. -/
lemma Closed.loop {flow : Option Flow} {f : Flow} {a b : Bool} {cs ds es : List Chunk}
    (h : Closed (some f) a cs ds) (hs : ds ⊆ es) (hl : .label f.leave ∈ es)
    (hn : a → .label f.next ∈ es) : Closed flow b cs es := by
  intro c hc l hcl
  obtain h | h := h c hc l hcl
  · exact .inl (hs h)
  · obtain rfl | rfl | ⟨ha, rfl⟩ := h.inside
    · exact .inr (.inl rfl)
    · exact .inl hl
    · exact .inl (hn ha)

mutual

/-- **Jumps are closed**: statements jump to their own labels, to the labels of the loop around
them, and to the epilogue. -/
theorem Shapes.closed {flow : Option Flow} {s : TStmt} {n n' : Nat} {cs : List Chunk}
    (h : Shapes env flow s n n' cs) : Closed flow (continues s) cs cs := by
  cases s with
  | assign =>
    obtain ⟨is, -, rfl, rfl⟩ := h
    exact .cons (by simp [Chunk.targets]) .nil
  | ifThen pos x bpos body =>
    obtain ⟨is, c, bs, -, hbs, rfl⟩ := h
    refine .cons (by simp [Chunk.targets]) (.cons (by simp [Chunk.targets]) (.append
      (hbs.closed.mono id ?_) (.cons (by simp [Chunk.targets]) .nil)))
    exact fun c hc => by simp [hc]
  | ifElse pos x bpos body opos other =>
    obtain ⟨is, c, bs, k, os, -, hbs, hos, rfl⟩ := h
    refine .cons (by simp [Chunk.targets]) (.cons (by simp [Chunk.targets]) (.append
      (hbs.closed.mono ?_ ?_) (.cons (by simp [Chunk.targets]) (.cons (by simp [Chunk.targets])
        (.append (hos.closed.mono ?_ ?_) (.cons (by simp [Chunk.targets]) .nil))))))
    · exact fun hc => by simp [continues, hc]
    · exact fun c hc => by simp [hc]
    · exact fun hc => by simp [continues, hc]
    · exact fun c hc => by simp [hc]
  | whileLoop pos x bpos body =>
    obtain ⟨is, c, bs, -, hbs, rfl⟩ := h
    refine .cons (by simp [Chunk.targets]) (.cons (by simp [Chunk.targets])
      (.cons (by simp [Chunk.targets]) (.append (hbs.closed.loop ?_ ?_ ?_)
        (.cons (by simp [Chunk.targets]) (.cons (by simp [Chunk.targets]) .nil)))))
    · exact fun c hc => by simp [hc]
    · simp
    · simp
  | repeatUntil pos bpos body x =>
    obtain ⟨is, c, bs, -, hbs, rfl⟩ := h
    refine .cons (by simp [Chunk.targets]) (.append (hbs.closed.loop ?_ ?_ ?_) (.append ?_
      (.cons (by simp [Chunk.targets]) (.cons (by simp [Chunk.targets]) .nil))))
    · exact fun c hc => by simp [hc]
    · simp
    · exact fun hc => by simp [hc]
    · split
      · exact .cons (by simp [Chunk.targets]) .nil
      · exact .nil
  | block pos bpos body => exact ShapesAll.closed h
  | ret =>
    obtain ⟨-, rfl⟩ := h
    exact .cons (by simp [Chunk.targets, Leads]) .nil
  | brk | cont =>
    obtain ⟨f, rfl, -, rfl⟩ := h
    exact .cons (by simp [Chunk.targets, Leads, continues]) .nil

/-- Statements in order jump to their own labels, to the labels of the loop around them, and to the
epilogue. -/
theorem ShapesAll.closed {flow : Option Flow} {ss : List TStmt} {n n' : Nat} {cs : List Chunk}
    (h : ShapesAll env flow ss n n' cs) : Closed flow (anyContinues ss) cs cs := by
  cases ss with
  | nil =>
    obtain ⟨-, rfl⟩ := h
    exact .nil
  | cons s ss =>
    obtain ⟨k, cs₁, cs₂, h₁, h₂, rfl⟩ := h
    refine .append (h₁.closed.mono ?_ ?_) (h₂.closed.mono ?_ ?_)
    · exact fun hc => by simp [anyContinues, hc]
    · exact fun c hc => List.mem_append_left cs₂ hc
    · exact fun hc => by simp [anyContinues, hc]
    · exact fun c hc => List.mem_append_right cs₁ hc

end

end Labels

end Lane.Lowering
