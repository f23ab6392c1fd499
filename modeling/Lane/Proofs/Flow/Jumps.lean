import Lane.Proofs.Flow.Structured
import Lane.Proofs.Lowering.Function
import Lane.Proofs.Lowering.Program

set_option relaxedAutoImplicit false
set_option autoImplicit false

/-!
# Execution of jumps

The code of a function is executed chunk by chunk: the code of an assignment and the code of a
condition are single steps, and an oracle says how each condition comes out. What is done is what
the structured statements do.

## Main definitions

* `Lane.Lowering.Config`, `Lane.Lowering.next?`: the machine that executes chunks.
* `Lane.Lowering.Reaches`: executions with their steps.
* `Lane.Lowering.Follows`: executions of chunks that do what a run of statements does.

## Main results

* `Lane.Lowering.follows_statement`, `Lane.Lowering.follows_statements`: the chunks of statements do
  what the statements do.
* `Lane.Lowering.Implements.performs_iff`: the code of a body makes the steps of the body.
* `Lane.Lowering.Implements.finishes_iff`: it reaches the epilogue exactly if the body ends.
* `Lane.Accepted.follows_body`: the code of every body makes the steps of the body.
-/

namespace Lane.Lowering

open Code

/-! ## The machine -/

/-- Where an execution is: the chunks that follow in the text, and the number of conditions
evaluated so far. -/
structure Config where
  rest : List Chunk
  asked : Nat

namespace Chunk

/-- Whether a chunk is this label. -/
def isLabelOf (l : Label) : Chunk → Bool
  | .label m => m.id == l.id
  | _ => false

end Chunk

/-- The code from a label on. -/
def seek (code : List Chunk) (l : Label) : List Chunk :=
  code.dropWhile fun c => !c.isLabelOf l

/-- What one chunk does, and where it leads. At the end of the code there is nothing to do. -/
def next? (code : List Chunk) (o : Nat → Bool) (c : Config) : Option (List Event × Config) :=
  match c.rest with
  | [] => none
  | .quiet _ :: rest | .label _ :: rest => some ([], ⟨rest, c.asked⟩)
  | .goto l :: _ => some ([], ⟨seek code l, c.asked⟩)
  | .assign s _ :: rest => some ([.assign s], ⟨rest, c.asked⟩)
  | .cond x _ _ yes no :: _ =>
    some ([.cond x (o c.asked)], ⟨seek code (if o c.asked then yes else no), c.asked + 1⟩)

/-- **Executions** with the steps that they make. -/
inductive Reaches (code : List Chunk) (o : Nat → Bool) : Config → List Event → Config → Prop
  | refl (c : Config) : Reaches code o c [] c
  | next {c d d' : Config} {es fs : List Event} (h : next? code o c = some (es, d))
      (ht : Reaches code o d fs d') : Reaches code o c (es ++ fs) d'

section Reaches

variable {code : List Chunk} {o : Nat → Bool} {c d d' : Config} {es fs : List Event}

/-- One stretch of steps after another. -/
lemma Reaches.trans (h : Reaches code o c es d) (h' : Reaches code o d fs d') :
    Reaches code o c (es ++ fs) d' := by
  induction h with
  | refl => exact h'
  | next hn _ ih =>
    rw [List.append_assoc]
    exact .next hn (ih h')

/-- A single step. -/
lemma Reaches.single (h : next? code o c = some (es, d)) : Reaches code o c es d := by
  simpa using Reaches.next h (.refl d)

/-- There is one way to go on, so one of two executions continues the other. -/
lemma Reaches.total (h : Reaches code o c es d) (h' : Reaches code o c fs d') :
    (∃ gs, fs = es ++ gs ∧ Reaches code o d gs d') ∨
      ∃ gs, es = fs ++ gs ∧ Reaches code o d' gs d := by
  induction h generalizing fs with
  | refl c => exact .inl ⟨fs, rfl, h'⟩
  | @next c d₁ d es₁ es₂ hn ht ih =>
    cases h' with
    | refl => exact .inr ⟨_, rfl, .next hn ht⟩
    | @next _ d₂ _ fs₁ fs₂ hn' ht' =>
      obtain ⟨rfl, rfl⟩ := Prod.mk.inj (Option.some.inj (hn.symm.trans hn'))
      obtain ⟨gs, rfl, h⟩ | ⟨gs, rfl, h⟩ := ih ht'
      · exact .inl ⟨gs, by rw [List.append_assoc], h⟩
      · exact .inr ⟨gs, by rw [List.append_assoc], h⟩

/-- The code from a label on starts with the label. -/
lemma seek_eq (hn : ((labelsOf code).map Label.id).Nodup) {l : Label} {before rest : List Chunk}
    (h : code = before ++ .label l :: rest) : seek code l = .label l :: rest := by
  subst h
  have hbefore : ∀ c ∈ before, c.isLabelOf l = false := by
    intro c hc
    cases c with
    | label m =>
      by_contra hid
      have hid : m.id = l.id := by simpa [Chunk.isLabelOf] using hid
      rw [labelsOf_append, labelsOf_label, List.map_append, List.nodup_append'] at hn
      refine hn.2.2 (List.mem_map.2 ⟨m, ?_, hid⟩) (by simp)
      exact List.mem_flatMap.2 ⟨_, hc, List.mem_singleton_self m⟩
    | _ => rfl
  unfold seek
  rw [List.dropWhile_append_of_pos fun c hc => by simp [hbefore c hc]]
  simp [Chunk.isLabelOf]

end Reaches

/-! ## Code that does what statements do -/

section Follows

/-- Where execution goes on when statements are left: with the code after them, or at a label. -/
def Arrives (code : List Chunk) (flow : Option Flow) (continues : Bool) (after : List Chunk) :
    Exit → List Chunk → Prop
  | .normal, rest => rest = after
  | .leave, rest => ∃ f, flow = some f ∧ rest = seek code f.leave
  | .next, rest => continues ∧ ∃ f, flow = some f ∧ rest = seek code f.next
  | .ret, rest => rest = seek code .epilogue

/-- **Following a run**: the execution makes the same steps, and if the run comes to an end, it goes
on where it has to. -/
def Follows (code : List Chunk) (o : Nat → Bool) (flow : Option Flow) (continues : Bool)
    (after : List Chunk) (c : Config) (r : Run) : Prop :=
  match r.exit? with
  | none => ∃ d, Reaches code o c r.events d
  | some x => ∃ rest, Arrives code flow continues after x rest ∧
      Reaches code o c r.events ⟨rest, r.asked⟩

variable {code : List Chunk} {o : Nat → Bool} {flow flow' : Option Flow} {a b : Bool}
  {after after' : List Chunk} {c d : Config} {r : Run}

/-- A run that is done follows where the code arrives. -/
lemma Follows.done {x : Exit} {rest : List Chunk} {k : Nat}
    (h : Arrives code flow a after x rest) :
    Follows code o flow a after ⟨rest, k⟩ (Run.done x k) :=
  ⟨rest, h, .refl _⟩

/-- A run that was stopped follows wherever it is. -/
lemma Follows.stopped (k : Nat) : Follows code o flow a after c (Run.stopped k) := ⟨c, .refl c⟩

/-- Steps without events before. -/
lemma Follows.silent (h : Follows code o flow a after d r) (hc : Reaches code o c [] d) :
    Follows code o flow a after c r := by
  unfold Follows at h ⊢
  split
  · rename_i hx
    rw [hx] at h
    obtain ⟨d', h⟩ := h
    exact ⟨d', hc.trans h⟩
  · rename_i x hx
    rw [hx] at h
    obtain ⟨rest, hr, h⟩ := h
    exact ⟨rest, hr, hc.trans h⟩

/-- Labels are passed. -/
lemma Follows.label {l : Label} {rest : List Chunk} {k : Nat}
    (h : Follows code o flow a after ⟨rest, k⟩ r) :
    Follows code o flow a after ⟨.label l :: rest, k⟩ r :=
  h.silent (.single rfl)

/-- A jump goes on at its label. -/
lemma Follows.goto {l : Label} {rest : List Chunk} {k : Nat}
    (h : Follows code o flow a after ⟨seek code l, k⟩ r) :
    Follows code o flow a after ⟨.goto l :: rest, k⟩ r :=
  h.silent (.single rfl)

/-- A condition is evaluated, and a branch taken. -/
lemma Follows.ask {x : TExpr} {is : List Instr} {v : Operand} {yes no : Label}
    {rest : List Chunk} {k : Nat} {f : Bool → Nat → Run}
    (h : ∀ b k, Follows code o flow a after ⟨seek code (if b then yes else no), k⟩ (f b k)) :
    Follows code o flow a after ⟨.cond x is v yes no :: rest, k⟩ (Run.ask o x k f) := by
  have hnext : next? code o ⟨.cond x is v yes no :: rest, k⟩ =
    some ([.cond x (o k)], ⟨seek code (if o k then yes else no), k + 1⟩) := rfl
  have h := h (o k) (k + 1)
  unfold Follows at h
  show match (f (o k) (k + 1)).exit? with | none => _ | some x => _
  split
  · rename_i hx
    rw [hx] at h
    obtain ⟨d, h⟩ := h
    exact ⟨d, .next hnext h⟩
  · rename_i y hx
    rw [hx] at h
    obtain ⟨rest', hr, h⟩ := h
    exact ⟨rest', hr, .next hnext h⟩

/-- One run after another. -/
lemma Follows.andThen {f : Exit → Nat → Run} (h : Follows code o flow a after c r)
    (hf : ∀ x rest k, Arrives code flow a after x rest →
      Follows code o flow' b after' ⟨rest, k⟩ (f x k)) :
    Follows code o flow' b after' c (r.andThen f) := by
  unfold Follows at h
  unfold Run.andThen
  cases hx : r.exit? with
  | none =>
    rw [hx] at h
    simp only
    unfold Follows
    rw [hx]
    exact h
  | some x =>
    rw [hx] at h
    obtain ⟨rest, hr, h⟩ := h
    have hfx := hf x rest r.asked hr
    unfold Follows at hfx
    show match (f x r.asked).exit? with | none => _ | some x => _
    split
    · rename_i hy
      rw [hy] at hfx
      obtain ⟨d, hfx⟩ := hfx
      exact ⟨d, h.trans hfx⟩
    · rename_i y hy
      rw [hy] at hfx
      obtain ⟨rest', hr', hfx⟩ := hfx
      exact ⟨rest', hr', h.trans hfx⟩

/-- Statements may be left in the same ways by the statements around them, except that what follows
them is inside. -/
lemma Follows.inside (h : Follows code o flow a after c r) (hab : a → b)
    (hafter : ∀ k, Reaches code o ⟨after, k⟩ [] ⟨after', k⟩) :
    Follows code o flow b after' c r := by
  unfold Follows at h ⊢
  split
  · rename_i hx
    rwa [hx] at h
  · rename_i x hx
    rw [hx] at h
    obtain ⟨rest, hr, h⟩ := h
    cases x with
    | normal =>
      obtain rfl := hr
      exact ⟨after', rfl, by simpa using h.trans (hafter _)⟩
    | leave | ret => exact ⟨rest, hr, h⟩
    | next => exact ⟨rest, ⟨hab hr.1, hr.2⟩, h⟩

/-! ## Statements -/

/-- The code of a function with the chunks `cs` in it, followed by `after`. -/
structure Inside (code cs after : List Chunk) : Prop where
  labels_nodup : ((labelsOf code).map Label.id).Nodup
  split : ∃ before, code = before ++ (cs ++ after)

/-- A label of the code is found where it stands. -/
lemma Inside.seek {cs : List Chunk} (h : Inside code cs after) (before : List Chunk) (l : Label)
    (rest : List Chunk) (hcs : cs ++ after = before ++ .label l :: rest) :
    seek code l = .label l :: rest := by
  obtain ⟨outer, hcode⟩ := h.split
  exact seek_eq h.labels_nodup (show code = (outer ++ before) ++ .label l :: rest by
    rw [hcode, hcs, List.append_assoc])

/-- A part of code inside of the whole is inside of the whole. -/
lemma Inside.part {cs ds : List Chunk} (h : Inside code cs after) (before : List Chunk)
    (hcs : cs ++ after = before ++ (ds ++ after')) : Inside code ds after' := by
  obtain ⟨outer, hcode⟩ := h.split
  exact ⟨h.labels_nodup, outer ++ before, by rw [hcode, hcs, List.append_assoc]⟩

/-- What follows the body of a loop inside the loop. -/
def loopArrives (code : List Chunk) (f : Flow) (continues : Bool) (after rest : List Chunk) :
    Exit → Prop
  | .normal => rest = after
  | .leave => rest = seek code f.leave
  | .next => continues ∧ rest = seek code f.next
  | .ret => rest = seek code .epilogue

/-- What leaves the body of a loop arrives around it. -/
lemma Arrives.loop {f : Flow} {x : Exit} {rest : List Chunk}
    (h : Arrives code (some f) a after x rest) : loopArrives code f a after rest x := by
  cases x with
  | normal | ret => exact h
  | leave =>
    obtain ⟨g, hg, h⟩ := h
    exact Option.some.inj hg ▸ h
  | next =>
    obtain ⟨ha, g, hg, h⟩ := h
    exact ⟨ha, Option.some.inj hg ▸ h⟩

/-- The chunks of a `while` loop do what the loop does. -/
lemma follows_whileLoop {x : TExpr} {is : List Instr} {v : Operand} {header loop out : Label}
    {bs : List Chunk} {body : Nat → Nat → Run}
    (hin : Inside code (.label header :: .cond x is v loop out :: .label loop ::
      (bs ++ [.goto header, .label out])) after)
    (hb : ∀ fuel k, Follows code o (some ⟨out, header⟩) a (.goto header :: .label out :: after)
      ⟨bs ++ .goto header :: .label out :: after, k⟩ (body fuel k)) :
    ∀ fuel k, Follows code o flow b after
      ⟨.label header :: .cond x is v loop out :: .label loop ::
        (bs ++ .goto header :: .label out :: after), k⟩ (Run.whileLoop o x body fuel k) := by
  have hheader := hin.seek [] header (.cond x is v loop out ::
    .label loop :: (bs ++ .goto header :: .label out :: after)) (by simp)
  have hloop := hin.seek ([.label header, .cond x is v loop out]) loop
    (bs ++ .goto header :: .label out :: after) (by simp)
  have hout := hin.seek (.label header :: .cond x is v loop out :: .label loop ::
    (bs ++ [.goto header])) out after (by simp)
  intro fuel
  -- One round for each unit of fuel. The body may end, go on with the next round, leave or return.
  induction fuel with
  | zero => exact fun k => .stopped k
  | succ fuel ih =>
    intro k
    refine Follows.label (Follows.ask fun holds k => ?_)
    cases holds with
    | true =>
      simp only [if_true, hloop]
      refine Follows.label ((hb (fuel + 1) k).andThen fun y rest k hy => ?_)
      have hy := hy.loop
      cases y with
      | normal =>
        obtain rfl := hy
        exact Follows.goto (hheader ▸ ih k)
      | next =>
        obtain ⟨-, rfl⟩ := hy
        exact hheader ▸ ih k
      | leave =>
        obtain rfl := hy
        exact hout ▸ Follows.label (.done rfl)
      | ret =>
        obtain rfl := hy
        exact .done rfl
    | false =>
      simp only [Bool.false_eq_true, if_false, hout]
      exact Follows.label (.done rfl)

/-- The chunks of a `repeat` loop do what the loop does. The label of the condition is there if the
body goes on with the next round. -/
lemma follows_repeatUntil {x : TExpr} {is : List Instr} {v : Operand} {loop out next : Label}
    {bs : List Chunk} {body : Nat → Nat → Run}
    (hin : Inside code (.label loop :: (bs ++ ((if a then [.label next] else []) ++
      [.cond x is v out loop, .label out]))) after)
    (hb : ∀ fuel k, Follows code o (some ⟨out, next⟩) a
      ((if a then [.label next] else []) ++ .cond x is v out loop :: .label out :: after)
      ⟨bs ++ ((if a then [.label next] else []) ++ .cond x is v out loop :: .label out :: after),
        k⟩ (body fuel k)) :
    ∀ fuel k, Follows code o flow b after
      ⟨.label loop :: (bs ++ ((if a then [.label next] else []) ++
        .cond x is v out loop :: .label out :: after)), k⟩ (Run.repeatUntil o x body fuel k) := by
  have hloop := hin.seek [] loop (bs ++
    ((if a then [.label next] else []) ++ .cond x is v out loop :: .label out :: after)) (by simp)
  have hout := hin.seek (.label loop :: (bs ++ ((if a then [.label next] else []) ++
    [.cond x is v out loop]))) out after (by simp)
  have hnext : a → seek code next = .label next :: .cond x is v out loop :: .label out :: after :=
    fun ha => hin.seek (.label loop :: bs) next _ (by simp [ha])
  intro fuel
  induction fuel with
  | zero => exact fun k => .stopped k
  | succ fuel ih =>
    intro k
    have cond : ∀ k, Follows code o flow b after ⟨.cond x is v out loop :: .label out :: after, k⟩
        (Run.ask o x k fun holds k =>
          if holds then Run.done .normal k else Run.repeatUntil o x body fuel k) := by
      refine fun k => Follows.ask fun holds k => ?_
      cases holds with
      | true =>
        simp only [if_true, hout]
        exact Follows.label (.done rfl)
      | false =>
        simp only [Bool.false_eq_true, if_false, hloop]
        exact ih k
    refine Follows.label ((hb (fuel + 1) k).andThen fun y rest k hy => ?_)
    have hy := hy.loop
    cases y with
    | normal =>
      obtain rfl := hy
      cases a with
      | true => exact (cond k).label
      | false => exact cond k
    | next =>
      obtain ⟨ha, rfl⟩ := hy
      exact hnext ha ▸ (cond k).label
    | leave =>
      obtain rfl := hy
      exact hout ▸ Follows.label (.done rfl)
    | ret =>
      obtain rfl := hy
      exact .done rfl

variable {env : Env}

mutual

/-- **The chunks of a statement do what the statement does.**

**Proof sketch.** By induction on the statement, and for a loop on the number of rounds. Jumps find
their labels, since labels have numbers of their own. A jump out of the statement arrives where the
statement around it says. -/
theorem follows_statement {flow : Option Flow} {s : TStmt} {n n' : Nat} {cs after : List Chunk}
    (hs : Shapes env flow s n n' cs) (hin : Inside code cs after) (fuel k : Nat) :
    Follows code o flow (continues s) after ⟨cs ++ after, k⟩ (s.exec o fuel k) := by
  cases s with
  | assign pos gs vs ps ds =>
    obtain ⟨is, -, -, rfl⟩ := hs
    exact ⟨after, rfl, .single rfl⟩
  -- A condition leads to one of two labels, which are found since labels have numbers of their own.
  | ifThen pos x bpos body =>
    obtain ⟨is, c, bs, -, hbs, rfl⟩ := hs
    have hyes := hin.seek ([.cond x is c ⟨n + 1, "then"⟩ ⟨n + 2, "next"⟩])
      ⟨n + 1, "then"⟩ (bs ++ (.label ⟨n + 2, "next"⟩ :: after)) (by simp)
    have hno := hin.seek (.cond x is c ⟨n + 1, "then"⟩ ⟨n + 2, "next"⟩ ::
      .label ⟨n + 1, "then"⟩ :: bs) ⟨n + 2, "next"⟩ after (by simp)
    have hbody : Inside code bs (.label ⟨n + 2, "next"⟩ :: after) :=
      hin.part ([.cond x is c ⟨n + 1, "then"⟩ ⟨n + 2, "next"⟩,
        .label ⟨n + 1, "then"⟩]) (by simp)
    simp only [TStmt.exec, List.cons_append]
    refine Follows.ask fun holds k => ?_
    cases holds with
    | true =>
      simp only [if_true, hyes]
      exact ((follows_statements hbs hbody fuel k).inside id fun k => .single rfl).label
    | false =>
      simp only [Bool.false_eq_true, if_false, hno]
      exact Follows.label (.done rfl)
  | ifElse pos x bpos body opos other =>
    obtain ⟨is, c, bs, m, os, -, hbs, hos, rfl⟩ := hs
    have hyes := hin.seek ([.cond x is c ⟨n + 1, "then"⟩ ⟨n + 3, "else"⟩])
      ⟨n + 1, "then"⟩ (bs ++ (.goto ⟨n + 2, "next"⟩ :: .label ⟨n + 3, "else"⟩ ::
        (os ++ (.label ⟨n + 2, "next"⟩ :: after)))) (by simp)
    have hno := hin.seek (.cond x is c ⟨n + 1, "then"⟩ ⟨n + 3, "else"⟩ ::
      .label ⟨n + 1, "then"⟩ :: (bs ++ [.goto ⟨n + 2, "next"⟩])) ⟨n + 3, "else"⟩
      (os ++ (.label ⟨n + 2, "next"⟩ :: after)) (by simp)
    have hnext := hin.seek (.cond x is c ⟨n + 1, "then"⟩ ⟨n + 3, "else"⟩ ::
      .label ⟨n + 1, "then"⟩ :: (bs ++ .goto ⟨n + 2, "next"⟩ :: .label ⟨n + 3, "else"⟩ :: os))
      ⟨n + 2, "next"⟩ after (by simp)
    have hbody : Inside code bs (.goto ⟨n + 2, "next"⟩ :: .label ⟨n + 3, "else"⟩ ::
        (os ++ (.label ⟨n + 2, "next"⟩ :: after))) :=
      hin.part ([.cond x is c ⟨n + 1, "then"⟩ ⟨n + 3, "else"⟩,
        .label ⟨n + 1, "then"⟩]) (by simp)
    have hother : Inside code os (.label ⟨n + 2, "next"⟩ :: after) :=
      hin.part (.cond x is c ⟨n + 1, "then"⟩ ⟨n + 3, "else"⟩ :: .label ⟨n + 1, "then"⟩ ::
        (bs ++ [.goto ⟨n + 2, "next"⟩, .label ⟨n + 3, "else"⟩])) (by simp)
    simp only [TStmt.exec, List.cons_append, List.append_assoc]
    refine Follows.ask fun holds k => ?_
    cases holds with
    | true =>
      simp only [if_true, hyes]
      refine ((follows_statements hbs hbody fuel k).inside (fun h => by simp [continues, h])
        fun k => ?_).label
      have hgoto : next? code o ⟨.goto ⟨n + 2, "next"⟩ :: .label ⟨n + 3, "else"⟩ ::
          (os ++ (.label ⟨n + 2, "next"⟩ :: after)), k⟩ =
          some ([], ⟨.label ⟨n + 2, "next"⟩ :: after, k⟩) := by
        rw [← hnext]
        rfl
      exact (Reaches.single hgoto).trans (.single rfl)
    | false =>
      simp only [Bool.false_eq_true, if_false, hno]
      exact ((follows_statements hos hother fuel k).inside (fun h => by simp [continues, h])
        fun k => .single rfl).label
  | whileLoop pos x bpos body =>
    obtain ⟨is, c, bs, -, hbs, rfl⟩ := hs
    have hbody : Inside code bs (.goto ⟨n + 1, "header"⟩ :: .label ⟨n + 3, "out"⟩ :: after) :=
      hin.part ([.label ⟨n + 1, "header"⟩, .cond x is c ⟨n + 2, "loop"⟩ ⟨n + 3, "out"⟩,
        .label ⟨n + 2, "loop"⟩]) (by simp)
    simpa [TStmt.exec, continues] using follows_whileLoop (b := false) hin
      (fun fuel k => follows_statements hbs hbody fuel k) fuel k
  | repeatUntil pos bpos body x =>
    obtain ⟨is, c, bs, -, hbs, rfl⟩ := hs
    have hbody : Inside code bs ((if anyContinues body then [.label ⟨n + 3, "cond"⟩] else []) ++
        .cond x is c ⟨n + 2, "out"⟩ ⟨n + 1, "loop"⟩ :: .label ⟨n + 2, "out"⟩ :: after) :=
      hin.part ([.label ⟨n + 1, "loop"⟩]) (by simp)
    simpa [TStmt.exec, continues] using follows_repeatUntil (b := false) hin
      (fun fuel k => follows_statements hbs hbody fuel k) fuel k
  | block pos bpos body => exact follows_statements hs hin fuel k
  | ret pos =>
    obtain ⟨-, rfl⟩ := hs
    exact Follows.goto (.done rfl)
  | brk pos =>
    obtain ⟨f, rfl, -, rfl⟩ := hs
    exact Follows.goto (.done ⟨f, rfl, rfl⟩)
  | cont pos =>
    obtain ⟨f, rfl, -, rfl⟩ := hs
    exact Follows.goto (.done ⟨rfl, f, rfl, rfl⟩)

/-- The chunks of statements in order do what the statements do. -/
theorem follows_statements {flow : Option Flow} {ss : List TStmt} {n n' : Nat}
    {cs after : List Chunk} (hs : ShapesAll env flow ss n n' cs) (hin : Inside code cs after)
    (fuel k : Nat) :
    Follows code o flow (anyContinues ss) after ⟨cs ++ after, k⟩ (TStmt.execAll o ss fuel k) := by
  cases ss with
  | nil =>
    obtain ⟨-, rfl⟩ := hs
    exact .done rfl
  | cons s ss =>
    obtain ⟨m, cs₁, cs₂, h₁, h₂, rfl⟩ := hs
    have hin₁ : Inside code cs₁ (cs₂ ++ after) := hin.part [] (by simp)
    have hin₂ : Inside code cs₂ after := hin.part cs₁ (by simp)
    have hfirst := follows_statement h₁ hin₁ fuel k
    rw [List.append_assoc]
    refine hfirst.andThen fun x rest k hx => ?_
    cases x with
    | normal =>
      obtain rfl := hx
      exact (follows_statements h₂ hin₂ fuel k).inside (fun h => by simp [anyContinues, h])
        fun k => .refl _
    | leave | ret => exact .done hx
    | next => exact .done ⟨by simp [anyContinues, hx.1], hx.2⟩

end

end Follows

/-! ## Whole functions -/

/-- The code makes these steps first, from its start. -/
def Performs (code : List Chunk) (o : Nat → Bool) (es : List Event) : Prop :=
  ∃ fs c, Reaches code o ⟨code, 0⟩ fs c ∧ es <+: fs

/-- The code reaches the epilogue, from its start, with exactly these steps. -/
def Finishes (code : List Chunk) (o : Nat → Bool) (es : List Event) : Prop :=
  ∃ k, Reaches code o ⟨code, 0⟩ es ⟨seek code .epilogue, k⟩

/-- The code of a function in chunks: the opening, the chunks of its statements, and the ending. -/
def wholeCode (opening : List Instr) (cs : List Chunk) : List Chunk :=
  .label .entry :: .quiet (.params :: opening) ::
    (cs ++ [.label .epilogue, .quiet [.results]])

namespace Implements

variable {env : Env} {f : MemberFunction} {ss : List TStmt} {fn : Function} {opening : List Instr}
  {cs : List Chunk} {o : Nat → Bool} {es : List Event}

/-- The chunks of the whole code are the body of the function. -/
lemma flatten_wholeCode (h : Implements env f ss fn opening cs) :
    flatten (wholeCode opening cs) = fn.body := by
  simp [h.body_eq, wholeCode, Function.frame, Chunk.code]

/-- The chunks of the statements are inside of the whole code. -/
lemma inside (h : Implements env f ss fn opening cs) :
    Inside (wholeCode opening cs) cs [.label .epilogue, .quiet [.results]] := by
  obtain ⟨n, hcs⟩ := h.shapes
  have hfresh := hcs.fresh
  refine ⟨?_, [.label .entry, .quiet (.params :: opening)], rfl⟩
  have hlabels : labelsOf (wholeCode opening cs) = .entry :: (labelsOf cs ++ [.epilogue]) := by
    show labelsOf ([.label .entry, .quiet (.params :: opening)] ++
      (cs ++ [.label .epilogue, .quiet [.results]])) = _
    rw [labelsOf_append, labelsOf_append]
    rfl
  rw [hlabels, List.map_cons, List.map_append, List.nodup_cons, List.nodup_append']
  have hbound : ∀ i ∈ (labelsOf cs).map Label.id, 2 < i := by
    intro i hi
    obtain ⟨l, hl, rfl⟩ := List.mem_map.1 hi
    exact (hfresh.bounds l hl).1
  refine ⟨fun hmem => ?_, hfresh.nodup, by simp, fun i hi hi' => ?_⟩
  · obtain hmem | hmem := List.mem_append.1 hmem
    · exact absurd (hbound _ hmem) (by decide)
    · exact absurd hmem (by decide)
  · obtain rfl : i = 2 := List.mem_singleton.1 hi'
    exact absurd (hbound _ hi) (by decide)

/-- The epilogue is found in front of the results. -/
lemma seek_epilogue (h : Implements env f ss fn opening cs) :
    seek (wholeCode opening cs) .epilogue = [.label .epilogue, .quiet [.results]] :=
  h.inside.seek _ _ _ rfl

/-- After the epilogue, nothing happens. -/
lemma events_eq_nil (h : Implements env f ss fn opening cs) {k : Nat} {c : Config}
    (hr : Reaches (wholeCode opening cs) o ⟨seek (wholeCode opening cs) .epilogue, k⟩ es c) :
    es = [] := by
  rw [h.seek_epilogue] at hr
  cases hr with
  | refl => rfl
  | next h₁ hr =>
    obtain ⟨rfl, rfl⟩ := Prod.mk.inj (Option.some.inj h₁)
    cases hr with
    | refl => rfl
    | next h₂ hr =>
      obtain ⟨rfl, rfl⟩ := Prod.mk.inj (Option.some.inj h₂)
      cases hr with
      | refl => rfl
      | next h₃ => cases h₃

/-- The code of a body follows the body, for every number of rounds. -/
lemma follows (h : Implements env f ss fn opening cs) (o : Nat → Bool) (fuel : Nat) :
    Follows (wholeCode opening cs) o none (anyContinues ss) [.label .epilogue, .quiet [.results]]
      ⟨wholeCode opening cs, 0⟩ (TStmt.execAll o ss fuel 0) := by
  obtain ⟨n, hcs⟩ := h.shapes
  have hopening : Reaches (wholeCode opening cs) o ⟨wholeCode opening cs, 0⟩ []
      ⟨cs ++ [.label .epilogue, .quiet [.results]], 0⟩ :=
    Reaches.trans (c := ⟨wholeCode opening cs, 0⟩) (.single rfl) (.single rfl)
  exact (follows_statements hcs h.inside fuel 0).silent hopening

/-- A body that comes to an end takes its code to the epilogue. -/
lemma reaches_epilogue (h : Implements env f ss fn opening cs) {fuel : Nat} {x : Exit}
    (hx : (TStmt.execAll o ss fuel 0).exit? = some x) :
    (x = .normal ∨ x = .ret) ∧ ∃ k, Reaches (wholeCode opening cs) o ⟨wholeCode opening cs, 0⟩
      (TStmt.execAll o ss fuel 0).events ⟨seek (wholeCode opening cs) .epilogue, k⟩ := by
  have hf := h.follows o fuel
  unfold Follows at hf
  rw [hx] at hf
  obtain ⟨rest, harr, hr⟩ := hf
  cases x with
  | normal =>
    obtain rfl := harr
    exact ⟨.inl rfl, _, h.seek_epilogue ▸ hr⟩
  | leave =>
    obtain ⟨f, hf, -⟩ := harr
    cases hf
  | next =>
    obtain ⟨-, f, hf, -⟩ := harr
    cases hf
  | ret =>
    obtain rfl := harr
    exact ⟨.inr rfl, _, hr⟩

/-- A body that goes on makes ever more steps, and so does its code. -/
lemma reaches_of_exit_eq_none (h : Implements env f ss fn opening cs) {fuel : Nat}
    (hx : (TStmt.execAll o ss fuel 0).exit? = none) :
    fuel ≤ (TStmt.execAll o ss fuel 0).events.length ∧
      ∃ c, Reaches (wholeCode opening cs) o ⟨wholeCode opening cs, 0⟩
        (TStmt.execAll o ss fuel 0).events c := by
  have hf := h.follows o fuel
  unfold Follows at hf
  rw [hx] at hf
  exact ⟨TStmt.le_length_execAll hx, hf⟩

/-- **The same steps**: the code of a body makes the steps of the body, be they finitely or
infinitely many.

**Proof sketch.** What the body does with some rounds, its code does too. Of two executions of the
code one continues the other, so it is left to show that the body gets as far as the code. If the
body comes to an end, its code is at the epilogue, where it makes no further step. If it does not,
it makes as many steps as there are rounds. -/
theorem performs_iff (h : Implements env f ss fn opening cs) :
    Performs (wholeCode opening cs) o es ↔ TStmt.Performs o ss es := by
  constructor
  · rintro ⟨fs, c, hr, hes⟩
    by_cases hend : ∃ fuel x, (TStmt.execAll o ss fuel 0).exit? = some x
    · obtain ⟨fuel, x, hx⟩ := hend
      obtain ⟨-, k, hr'⟩ := h.reaches_epilogue hx
      refine ⟨fuel, hes.trans ?_⟩
      obtain ⟨gs, rfl, hgs⟩ | ⟨gs, heq, -⟩ := hr'.total hr
      · obtain rfl := h.events_eq_nil hgs
        exact (List.append_nil _).symm ▸ List.prefix_rfl
      · exact ⟨gs, heq.symm⟩
    · have hx : (TStmt.execAll o ss (fs.length + 1) 0).exit? = none := by
        cases hx : (TStmt.execAll o ss (fs.length + 1) 0).exit? with
        | none => rfl
        | some x => exact absurd ⟨_, x, hx⟩ hend
      obtain ⟨hlen, c', hr'⟩ := h.reaches_of_exit_eq_none hx
      refine ⟨fs.length + 1, hes.trans ?_⟩
      obtain ⟨gs, heq, -⟩ | ⟨gs, heq, -⟩ := hr'.total hr
      · have := congrArg List.length heq
        rw [List.length_append] at this
        omega
      · exact ⟨gs, heq.symm⟩
  · rintro ⟨fuel, hes⟩
    cases hx : (TStmt.execAll o ss fuel 0).exit? with
    | none =>
      obtain ⟨-, c, hr⟩ := h.reaches_of_exit_eq_none hx
      exact ⟨_, c, hr, hes⟩
    | some x =>
      obtain ⟨-, k, hr⟩ := h.reaches_epilogue hx
      exact ⟨_, _, hr, hes⟩

/-- **The same end**: the code of a body reaches the epilogue exactly if the body comes to its end
or to a return, with the same steps. -/
theorem finishes_iff (h : Implements env f ss fn opening cs) :
    Finishes (wholeCode opening cs) o es ↔ TStmt.Finishes o ss es := by
  constructor
  · rintro ⟨k, hr⟩
    by_cases hend : ∃ fuel x, (TStmt.execAll o ss fuel 0).exit? = some x
    · obtain ⟨fuel, x, hx⟩ := hend
      obtain ⟨hexit, k', hr'⟩ := h.reaches_epilogue hx
      refine ⟨fuel, x, hexit, hx, ?_⟩
      obtain ⟨gs, rfl, hgs⟩ | ⟨gs, heq, hgs⟩ := hr'.total hr
      · rw [h.events_eq_nil hgs, List.append_nil]
      · rw [heq, h.events_eq_nil hgs, List.append_nil]
    · have hx : (TStmt.execAll o ss (es.length + 1) 0).exit? = none := by
        cases hx : (TStmt.execAll o ss (es.length + 1) 0).exit? with
        | none => rfl
        | some x => exact absurd ⟨_, x, hx⟩ hend
      obtain ⟨hlen, c', hr'⟩ := h.reaches_of_exit_eq_none hx
      obtain ⟨gs, heq, -⟩ | ⟨gs, heq, hgs⟩ := hr'.total hr
      · have := congrArg List.length heq
        rw [List.length_append] at this
        omega
      · rw [heq, h.events_eq_nil hgs, List.append_nil] at hlen
        omega
  · rintro ⟨fuel, x, -, hx, rfl⟩
    obtain ⟨-, k, hr⟩ := h.reaches_epilogue hx
    exact ⟨k, hr⟩

end Implements

end Lane.Lowering

/-! ## Control flow of programs

The code of an accepted program goes through the assignments and conditions of each function as its
statements say, and comes to the epilogue exactly if they come to an end. -/

namespace Lane

open Code Lowering

namespace Accepted

variable {file name : String} {text : List Rune} {e : Elaborated} {width : Int} {ds : Diagnostics}
  {p : LoweredProgram}

/-- A function with a body has code in the program. -/
lemma exists_code (h : Accepted file text e) (hp : (e.lower name width ds).2 = .ok p)
    (hok : p.isOk) {f : MemberFunction} (hf : e.program.Declares f) (hclean : e.isClean f) :
    ∃ fn ∈ p.module.functions, IsCodeOf e p.layouts p.width f fn := by
  obtain ⟨-, -, -, hall⟩ := h.lower_isOk hp hok
  have hmem : f ∈ (memberFuncs e).filter e.isClean :=
    List.mem_filter.2 ⟨mem_memberFuncs.2 hf, hclean⟩
  obtain ⟨i, hi, rfl⟩ := List.getElem_of_mem hmem
  have hi' := hall.length_eq ▸ hi
  exact ⟨_, List.getElem_mem hi', hall.get hi hi'⟩

/-- **Control flow is lowered correctly**: the code of every body in an accepted program consists of
what was emitted for its parameters and results, and then of what was emitted for its assignments
and conditions, each of them once, with labels and jumps between them. However the conditions come
out, the code makes the steps of the body, and reaches the epilogue exactly if the body comes to its
end or to a return. -/
theorem follows_body (h : Accepted file text e) (hp : (e.lower name width ds).2 = .ok p)
    (hok : p.isOk) {f : MemberFunction} (hf : e.program.Declares f) {b : FuncBody}
    (hb : e.body? f = some b) :
    ∃ fn ∈ p.module.functions, ∃ n opening cs, fn.decl = memberDecl e f n ∧
      Implements (envOf e p.layouts p.width (memberDecl e f n)) f b.body fn opening cs ∧
      flatten (wholeCode opening cs) = fn.body ∧ ∀ o es,
        (Performs (wholeCode opening cs) o es ↔ TStmt.Performs o b.body es) ∧
        (Finishes (wholeCode opening cs) o es ↔ TStmt.Finishes o b.body es) := by
  obtain ⟨htyped, rfl⟩ := typed_of_body? h.typed hf hb
  have hclean : e.isClean b.fn := by simp [Elaborated.isClean, hb, htyped.is_clean]
  obtain ⟨fn, hfn, hcode⟩ := h.exists_code hp hok hf hclean
  obtain ⟨n, opening, cs, himpl, hdecl⟩ := (hcode.spec h.typed (h.lower_isOk hp hok).1 hf
    hclean).2 b htyped.not_generated hb
  exact ⟨fn, hfn, n, opening, cs, hdecl, himpl, himpl.flatten_wholeCode, fun o es =>
    ⟨himpl.performs_iff, himpl.finishes_iff⟩⟩

/-- Loops inside one another, with jumps out of them. -/
def nestedLoops : String :=
  "class V { routine f(n: int) -> (r: int) { while r < n { if r == 3 { break; }
    repeat { r = r + 1; if r == 5 { continue; } } until r > 7; } return; } }"

/-- The code of loops inside one another. -/
theorem follows_body_loops : ∃ e p f b, compile? nestedLoops = some (e, p) ∧
    e.body? f = some b ∧ b.body.length = 2 ∧
    ∃ fn ∈ p.module.functions, ∃ n opening cs, fn.decl = memberDecl e f n ∧
      Implements (envOf e p.layouts p.width (memberDecl e f n)) f b.body fn opening cs ∧
      flatten (wholeCode opening cs) = fn.body ∧ ∀ o es,
        (Performs (wholeCode opening cs) o es ↔ TStmt.Performs o b.body es) ∧
        (Finishes (wholeCode opening cs) o es ↔ TStmt.Finishes o b.body es) := by
  have hrun : (compile? nestedLoops).any (fun (e, p) =>
      p.isOk && (memberFuncs e).any fun f => (e.body? f).any fun b => b.body.length == 2) := by
    rw [compile?, nestedLoops, Rune.ascii_ofList]
    decide +kernel
  obtain ⟨⟨e, p⟩, hc, hrun⟩ := (Option.any_eq_true ..).1 hrun
  obtain ⟨hok, hf⟩ := Bool.and_eq_true_iff.1 hrun
  obtain ⟨f, hf, hb⟩ := List.any_eq_true.1 hf
  obtain ⟨b, hb, hlen⟩ := (Option.any_eq_true ..).1 hb
  obtain ⟨hacc, hp⟩ := of_compile? hc
  exact ⟨e, p, f, b, hc, hb, beq_iff_eq.1 hlen, hacc.follows_body hp hok (mem_memberFuncs.1 hf) hb⟩

end Accepted

end Lane
