import Bindery.Files.Access
import Bindery.Files.Archive

/-!
# `Bindery.Host.Machine` — what programs act on

A running program changes files and takes time. It may be cut off at a moment that is fixed beforehand:
nothing that it would do later is done, and what it has done stays.

Programs take and print bytes. So that their words can be compared with texts, a word is a text here in which each
character, up to U+00FF, stands for a byte.

**Contents.** `Host.wordOf`, `Host.bytesOf` and `Host.pathOf`, for words; `Host.Machine`; `Host.Activity` with
`spend`, `attempt?` and `change`; `Host.Ending`.
-/

namespace Bindery.Host

/-- The word for bytes. -/
def wordOf (bytes : List UInt8) : String :=
  String.ofList (bytes.map fun byte => Char.ofNat byte.toNat)

/-- The bytes of a word. -/
def bytesOf (word : String) : List UInt8 :=
  word.toList.map Char.toUInt8

/-- The path that a word is. -/
def pathOf (word : String) : Path :=
  ⟨⟨bytesOf word⟩⟩

/-- The files, the time and the moment of the cut. -/
structure Machine where
  files : Files
  /-- milliseconds since the start -/
  clock : Nat := 0
  deadline : Option Nat := none

/-- Something that is done on the machine; it gives nothing when it is cut off. -/
abbrev Activity := OptionT (StateM Machine)

/-- Lets time pass. -/
def spend (milliseconds : Nat) : Activity Unit := do
  let machine ← get
  let clock := machine.clock + milliseconds
  if machine.deadline.any (· < clock) then failure
  set { machine with clock }

/-- Looks something up in the files. -/
def attempt? {α : Type} (query : Files → Except Files.Fault α) : Activity (Option α) := do
  return (query (← get).files).toOption

/-- Changes the files, and says whether that was possible. -/
def change (step : Files → Except Files.Fault Files) : Activity Bool := do
  let machine ← get
  match step machine.files with
  | .ok files =>
    set { machine with files }
    return true
  | .error _ => return false

/-- How a program ends: with a status, which is success when it is 0, or killed. -/
inductive Ending where
  | status (n : Nat)
  | killed (signal : Nat)
deriving DecidableEq, Repr

/-- The status that a script sees. -/
def Ending.seen : Ending → Nat
  | status n => n
  | killed signal => 128 + signal

end Bindery.Host
