import Lane.Analysis.Elaborated
import Mathlib.Tactic.Lemma

set_option relaxedAutoImplicit false
set_option autoImplicit false

/-!
# Execution of structured statements

What statements do as they stand in the source, where assignments and conditions are single steps
and an oracle says how each condition comes out. Loops may go on for ever, so a run is given a
number of rounds, and tells whether they were enough.

## Main definitions

* `Lane.Event`: the steps of an execution.
* `Lane.Exit`: how statements are left.
* `Lane.Run`: what an execution with a bounded number of rounds does.
* `Lane.TStmt.exec`, `Lane.TStmt.execAll`: the execution of statements.
* `Lane.TStmt.Performs`, `Lane.TStmt.Finishes`: what statements do, given enough rounds.

## Main results

* `Lane.TStmt.le_length_execAll`: a run that needs more rounds than it has made as many steps.
-/

namespace Lane

/-- The steps of an execution: an assignment is carried out, or a condition is evaluated. -/
inductive Event where
  | assign (s : TStmt)
  | cond (x : TExpr) (holds : Bool)

/-- How statements are left. -/
inductive Exit where
  /-- What follows is next. -/
  | normal
  /-- The loop around the statements is left. -/
  | leave
  /-- The loop around the statements goes on with its next round. -/
  | next
  /-- The function is left. -/
  | ret
  deriving DecidableEq, Repr

/-- **Runs**: the steps in order, the number of conditions evaluated before and by them, and how the
statements are left unless the rounds were not enough. -/
structure Run where
  events : List Event
  asked : Nat
  exit? : Option Exit

namespace Run

/-- Nothing is done. -/
def done (x : Exit) (k : Nat) : Run := ⟨[], k, some x⟩

/-- There are no rounds left. -/
def stopped (k : Nat) : Run := ⟨[], k, none⟩

/-- One run after another. -/
def andThen (r : Run) (f : Exit → Nat → Run) : Run :=
  match r.exit? with
  | none => r
  | some x => ⟨r.events ++ (f x r.asked).events, (f x r.asked).asked, (f x r.asked).exit?⟩

/-- A condition is evaluated: the oracle says how number `k` comes out. -/
def ask (o : Nat → Bool) (x : TExpr) (k : Nat) (f : Bool → Nat → Run) : Run :=
  ⟨.cond x (o k) :: (f (o k) (k + 1)).events, (f (o k) (k + 1)).asked, (f (o k) (k + 1)).exit?⟩

/-- A `while` loop with some rounds. -/
def whileLoop (o : Nat → Bool) (x : TExpr) (body : Nat → Nat → Run) : Nat → Nat → Run
  | 0, k => stopped k
  | fuel + 1, k =>
    ask o x k fun holds k =>
      if holds then
        (body (fuel + 1) k).andThen fun
          | .normal, k | .next, k => whileLoop o x body fuel k
          | .leave, k => done .normal k
          | .ret, k => done .ret k
      else done .normal k

/-- A `repeat` loop with some rounds. It ends when its condition holds. -/
def repeatUntil (o : Nat → Bool) (x : TExpr) (body : Nat → Nat → Run) : Nat → Nat → Run
  | 0, k => stopped k
  | fuel + 1, k =>
    (body (fuel + 1) k).andThen fun
      | .normal, k | .next, k =>
        ask o x k fun holds k =>
          if holds then done .normal k else repeatUntil o x body fuel k
      | .leave, k => done .normal k
      | .ret, k => done .ret k

end Run

namespace TStmt

mutual

/-- The execution of a statement with a number of rounds for its loops, `k` conditions having been
evaluated before. -/
def exec (o : Nat → Bool) : TStmt → Nat → Nat → Run
  | .assign pos gs vs ps ds, _, k => ⟨[.assign (.assign pos gs vs ps ds)], k, some .normal⟩
  | .ifThen _ x _ body, fuel, k =>
    Run.ask o x k fun holds k => if holds then execAll o body fuel k else Run.done .normal k
  | .ifElse _ x _ body _ other, fuel, k =>
    Run.ask o x k fun holds k => if holds then execAll o body fuel k else execAll o other fuel k
  | .whileLoop _ x _ body, fuel, k => Run.whileLoop o x (execAll o body) fuel k
  | .repeatUntil _ _ body x, fuel, k => Run.repeatUntil o x (execAll o body) fuel k
  | .block _ _ body, fuel, k => execAll o body fuel k
  | .ret _, _, k => Run.done .ret k
  | .brk _, _, k => Run.done .leave k
  | .cont _, _, k => Run.done .next k

/-- The execution of statements in order: those after a jump are passed over. -/
def execAll (o : Nat → Bool) : List TStmt → Nat → Nat → Run
  | [], _, k => Run.done .normal k
  | s :: ss, fuel, k =>
    (exec o s fuel k).andThen fun
      | .normal, k => execAll o ss fuel k
      | x, k => Run.done x k

end

/-- The statements make these steps first, given enough rounds. -/
def Performs (o : Nat → Bool) (ss : List TStmt) (es : List Event) : Prop :=
  ∃ fuel, es <+: (execAll o ss fuel 0).events

/-- The statements come to their end, or to a return, with exactly these steps. -/
def Finishes (o : Nat → Bool) (ss : List TStmt) (es : List Event) : Prop :=
  ∃ fuel x, (x = .normal ∨ x = .ret) ∧ (execAll o ss fuel 0).exit? = some x ∧
    (execAll o ss fuel 0).events = es

end TStmt

/-! ## Rounds -/

namespace Run

/-- Runs that stop only after as many steps as there were rounds. -/
def Lasts (fuel : Nat) (r : Run) : Prop := r.exit? = none → fuel ≤ r.events.length

/-- A run that is done lasts. -/
lemma lasts_done (fuel : Nat) (x : Exit) (k : Nat) : (done x k).Lasts fuel := nofun

/-- A run lasts if what comes after each exit does. -/
lemma Lasts.andThen {fuel : Nat} {r : Run} {f : Exit → Nat → Run} (h : r.Lasts fuel)
    (hf : ∀ x k, (f x k).Lasts fuel) : (r.andThen f).Lasts fuel := by
  unfold Run.andThen
  split
  · exact h
  · rename_i x _
    intro hnone
    have := hf x r.asked hnone
    simp only [List.length_append]
    omega

/-- The evaluation of a condition is a step. -/
lemma Lasts.ask {fuel : Nat} {o : Nat → Bool} {x : TExpr} {k : Nat} {f : Bool → Nat → Run}
    (hf : ∀ b k, (f b k).Lasts fuel) : (Run.ask o x k f).Lasts (fuel + 1) :=
  fun h => Nat.succ_le_succ (hf _ _ h)

/-- A run that lasts for some rounds lasts for fewer. -/
lemma Lasts.mono {fuel m : Nat} {r : Run} (h : r.Lasts fuel) (hm : m ≤ fuel) : r.Lasts m :=
  fun hn => Nat.le_trans hm (h hn)

/-- A `while` loop lasts if its body does. -/
lemma lasts_whileLoop {o : Nat → Bool} {x : TExpr} {body : Nat → Nat → Run}
    (hb : ∀ fuel k, (body fuel k).Lasts fuel) : ∀ fuel k, (whileLoop o x body fuel k).Lasts fuel
  | 0, _ => fun _ => Nat.zero_le _
  | fuel + 1, k => by
    refine Lasts.ask fun holds k => ?_
    split
    · refine ((hb (fuel + 1) k).mono (Nat.le_succ fuel)).andThen fun y k => ?_
      cases y with
      | normal | next => exact lasts_whileLoop hb fuel k
      | leave | ret => exact lasts_done _ _ _
    · exact lasts_done _ _ _

/-- A `repeat` loop lasts if its body does. -/
lemma lasts_repeatUntil {o : Nat → Bool} {x : TExpr} {body : Nat → Nat → Run}
    (hb : ∀ fuel k, (body fuel k).Lasts fuel) : ∀ fuel k, (repeatUntil o x body fuel k).Lasts fuel
  | 0, _ => fun _ => Nat.zero_le _
  | fuel + 1, k => by
    refine (hb (fuel + 1) k).andThen fun y k => ?_
    cases y with
    | normal | next =>
      refine Lasts.ask fun holds k => ?_
      split
      · exact lasts_done _ _ _
      · exact lasts_repeatUntil hb fuel k
    | leave | ret => exact lasts_done _ _ _

end Run

namespace TStmt

mutual

/-- The run of a statement lasts for its rounds. -/
lemma lasts_exec (o : Nat → Bool) : ∀ (s : TStmt) (fuel k : Nat), (exec o s fuel k).Lasts fuel
  | .assign .., _, _ => nofun
  | .ifThen _ x _ body, fuel, k => by
    refine (Run.Lasts.ask fun holds k => ?_).mono (Nat.le_succ fuel)
    split
    · exact lasts_execAll o body fuel k
    · exact Run.lasts_done _ _ _
  | .ifElse _ x _ body _ other, fuel, k => by
    refine (Run.Lasts.ask fun holds k => ?_).mono (Nat.le_succ fuel)
    split
    · exact lasts_execAll o body fuel k
    · exact lasts_execAll o other fuel k
  | .whileLoop _ x _ body, fuel, k => Run.lasts_whileLoop (lasts_execAll o body) fuel k
  | .repeatUntil _ _ body x, fuel, k => Run.lasts_repeatUntil (lasts_execAll o body) fuel k
  | .block _ _ body, fuel, k => lasts_execAll o body fuel k
  | .ret _, _, _ | .brk _, _, _ | .cont _, _, _ => nofun

/-- The run of statements lasts for its rounds. -/
lemma lasts_execAll (o : Nat → Bool) :
    ∀ (ss : List TStmt) (fuel k : Nat), (execAll o ss fuel k).Lasts fuel
  | [], _, _ => nofun
  | s :: ss, fuel, k => by
    refine (lasts_exec o s fuel k).andThen fun x k => ?_
    cases x with
    | normal => exact lasts_execAll o ss fuel k
    | leave | next | ret => exact Run.lasts_done _ _ _

end

/-- **Progress**: a run whose rounds are not enough has made at least as many steps. -/
theorem le_length_execAll {o : Nat → Bool} {ss : List TStmt} {fuel k : Nat}
    (h : (execAll o ss fuel k).exit? = none) : fuel ≤ (execAll o ss fuel k).events.length :=
  lasts_execAll o ss fuel k h

end TStmt

end Lane
