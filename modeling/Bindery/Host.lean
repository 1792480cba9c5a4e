import Bindery.Build.Site
import Bindery.Host.Shell
import Bindery.Tool.Watch

/-!
# `Bindery.Host` — a small host for tools

Tools run on a host of their own. It has a handful of programs and runs scripts; it starts a program in
the directory of its call, with nothing for it to read, and keeps to the limits of the call.

A program is run to its end first, which tells what each look at it would see. If the looks decide that
it is killed, it is run again up to the moment of the look that decided so.

**Contents.** `Host.perSecond` and `Host.interval`, its clock; `Host.Life`, a program that has run;
`Host.live`; `Life.looks`; `Host.leftBy`; `Host.run`; `Host.workshop`.
-/

namespace Bindery.Host

/-- The clock of the host ticks every millisecond. -/
def perSecond : Nat := 1000

/-- The ticks between two looks at a program. -/
def interval : Nat := 50

/-- A program that has run. -/
structure Life where
  /-- nothing if it was cut off -/
  ending : Option Ending
  machine : Machine

/-- How deep programs start one another. -/
def mostNested : Nat := 16

/-- Runs a call until it ends or is cut off; why it is not started otherwise. -/
def live (call : Tool.Call) (files : Files) (deadline : Option Nat) : Except Files.Fault Life := do
  let there ← goTo call.directory files
  let (result, machine) :=
    launch mostNested (wordOf call.program.raw.bytes) (call.args.map fun arg => wordOf arg.bytes) ByteArray.empty
      { files := there, deadline }
  let machine := { machine with files := { machine.files with home := files.home } }
  match result with
  | none => return ⟨none, machine⟩
  | some (.ok (ending, _)) => return ⟨some ending, machine⟩
  | some (.error fault) => .error fault

/-- The end of a program, as the caller sees it. -/
def Ending.exit : Ending → Exit
  | status n => .code n
  | killed _ => .signal

namespace Life

/-- The end of a program that was not cut off. -/
def exit (life : Life) : Exit :=
  (life.ending.map Ending.exit).getD .signal

/-- What looks at the program see, up to the one that sees its end. -/
def looks (life : Life) (cancelled : Bool) : List Tool.Look :=
  (List.range (life.machine.clock / interval + 2)).map fun n =>
    let elapsed := n * interval
    { exit := if life.machine.clock ≤ elapsed then some life.exit else none
      cancelled
      elapsed }

end Life

/-- What a program leaves when the wait for it is over. One that has been killed leaves what it had done until the
look that decided so. -/
def leftBy (call : Tool.Call) (files : Files) (life : Life) (watched : Tool.Watched) : Files :=
  if .kill ∈ watched.deeds then
    match live call files (some (watched.looks * interval)) with
    | .ok cut => cut.machine.files
    | .error _ => life.machine.files
  else life.machine.files

/-- Runs a call within limits; `cancelled` tells whether cancellation has been asked for. -/
def run (limits : Tool.Limits) (cancelled : Bool) (call : Tool.Call) (files : Files) :
    Except Tool.Fault Exit × Files :=
  match live call files none with
  | .error fault => (.error (.notStarted call.tool call.program fault), files)
  | .ok life =>
    if limits.isOpen then (.ok life.exit, life.machine.files)
    else match limits.watch? (life.looks cancelled) with
      | none => (.ok life.exit, life.machine.files)
      | some watched => (watched.verdict.outcome perSecond call, leftBy call files life watched)

/-- A workshop on the host, which gives each tool as much time as the configuration does. -/
def workshop (buildDate : String) (book : Book) : Build.Workshop where
  buildDate
  runner := run { timeout := book.tools.timeout.map (perSecond * ·) } false

end Bindery.Host
