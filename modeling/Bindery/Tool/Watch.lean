import Bindery.Tool.Call

/-!
# `Bindery.Tool.Watch` — waiting for a program

A program that runs is looked at again and again until it has ended, its cancellation is asked for, or
its time is up. Each look checks these three in that order. In the last two cases the program is killed
and its end is awaited before the wait is over. Time is counted in ticks of a clock, however fine it is.

**Contents.** `Limits`; `Look`, what one look sees; `Limits.verdict?`, what it decides; `Watched` and
`Limits.watch?`, the wait over a sequence of looks; `Verdict.outcome`, what it means for a call.
-/

namespace Bindery.Tool

/-- What bounds the time of a program. -/
structure Limits where
  /-- ticks of a clock -/
  timeout : Option Nat := none
  /-- cancellation may be asked for -/
  cancellable : Bool := false
deriving DecidableEq, Repr

/-- What one look at a program sees. -/
structure Look where
  exit : Option Exit
  /-- cancellation is asked for -/
  cancelled : Bool
  /-- ticks of the clock since the program was started -/
  elapsed : Nat
deriving DecidableEq, Repr

/-- How a wait ends. -/
inductive Verdict where
  | exited (exit : Exit)
  | cancelled
  | timedOut (limit : Nat)
deriving DecidableEq, Repr

/-- What is done to a program that is not to go on. -/
inductive Deed where
  | kill
  | reap
deriving DecidableEq, Repr

namespace Limits

/-- Nothing bounds the time, so the end of the program is simply awaited. -/
def isOpen (limits : Limits) : Bool :=
  limits.timeout.isNone && !limits.cancellable

/-- What a look decides. -/
def verdict? (limits : Limits) (look : Look) : Option Verdict :=
  match look.exit with
  | some exit => some (.exited exit)
  | none =>
    if limits.cancellable && look.cancelled then some .cancelled
    else match limits.timeout with
      | some limit => if limit ≤ look.elapsed then some (.timedOut limit) else none
      | none => none

end Limits

/-- A wait that is over. -/
structure Watched where
  /-- how many looks decided nothing -/
  looks : Nat
  verdict : Verdict
  /-- what was done to the program -/
  deeds : List Deed
deriving DecidableEq, Repr

/-- A program that has not ended by itself is killed, and its end awaited. -/
def Verdict.deeds : Verdict → List Deed
  | exited _ => []
  | cancelled | timedOut _ => [.kill, .reap]

/-- The wait over a sequence of looks; nothing if none of them decides. -/
def Limits.watchFrom? (limits : Limits) : (looks : Nat) → List Look → Option Watched
  | _, [] => none
  | looks, look :: later =>
    match limits.verdict? look with
    | some verdict => some ⟨looks, verdict, verdict.deeds⟩
    | none => watchFrom? limits (looks + 1) later

/-- The wait from the first look on. -/
def Limits.watch? (limits : Limits) (timeline : List Look) : Option Watched :=
  limits.watchFrom? 0 timeline

/-- What the end of a wait means for a call; the clock ticks `perSecond` times in a second. -/
def Verdict.outcome (perSecond : Nat) (call : Call) : Verdict → Except Fault Exit
  | exited exit => .ok exit
  | cancelled => .error (.cancelled call.tool call.program)
  | timedOut limit => .error (.timedOut call.tool call.program (limit / perSecond))

end Bindery.Tool
