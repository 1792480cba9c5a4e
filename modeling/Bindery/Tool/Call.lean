import Bindery.Book.Basic
import Bindery.Files.Fault

/-!
# `Bindery.Tool.Call` — calling other programs

A build hands parts of its work to other programs: it names the program, its arguments and the directory
that it runs in, and looks at nothing but how the program ends.

A program whose path has a directory in it is looked for below the root of the project; a bare name is
left to the search path of the system.

**Contents.** `Exit`; `Tool.Call` with `Call.ofCommand` and `Call.add`; `Tool.Fault` with its `message` and `causes`;
`Call.check`; `Platform` and `Converters.for?`.
-/

namespace Bindery

/-- How a program ends. -/
inductive Exit where
  | code (n : Int)
  | signal
deriving DecidableEq, Repr

/-- The wording of an end. -/
def Exit.text : Exit → String
  | code n => "exit code " ++ toString n
  | signal => "a signal"

/-- The end of a program that did what it was asked to do. -/
def Exit.isSuccess (exit : Exit) : Bool :=
  exit = .code 0

namespace Tool

/-- A program that is called. -/
structure Call where
  /-- what the program is called for -/
  tool : String
  program : Path
  args : List Raw
  /-- where the program runs -/
  directory : Path
deriving DecidableEq, Repr

/-- Why a call fails. -/
inductive Fault where
  | failed (tool : String) (program : Path) (exit : Exit)
  | notStarted (tool : String) (program : Path) (fault : Files.Fault)
  | timedOut (tool : String) (program : Path) (seconds : Nat)
  | cancelled (tool : String) (program : Path)
  | notConfigured (tool : String)
deriving DecidableEq, Repr

/-- The wording of a fault. -/
def Fault.message : Fault → String
  | failed tool program exit => tool ++ " (" ++ program.text ++ ") exited with " ++ exit.text
  | notStarted tool program fault =>
    "failed to launch " ++ tool ++ " (" ++ program.text ++ "): " ++ fault.message
  | timedOut tool program seconds =>
    tool ++ " (" ++ program.text ++ ") timed out after " ++ toString seconds ++ "s"
  | cancelled tool program => tool ++ " (" ++ program.text ++ ") was cancelled"
  | notConfigured tool => tool ++ " has no configured command"

/-- The causes behind a fault. -/
def Fault.causes : Fault → List String
  | notStarted _ _ fault => [fault.message]
  | _ => []

/-- Where a program is looked for. -/
def locate (root program : Path) : Path :=
  if !program.isAbsolute && 1 < program.components.length then root.join program else program

namespace Call

/-- The call of a command, in the root of a project. -/
def ofCommand (tool : String) (command : List String) (root : Path) : Except Fault Call :=
  match command with
  | [] => .error (.notConfigured tool)
  | program :: args => .ok ⟨tool, locate root ⟨program⟩, args.map Raw.ofText, root⟩

/-- Adds arguments at the end. -/
def add (call : Call) (args : List Raw) : Call :=
  { call with args := call.args ++ args }

/-- An end other than success is a fault. -/
def check (call : Call) (exit : Exit) : Except Fault Unit :=
  if exit.isSuccess then .ok () else .error (.failed call.tool call.program exit)

end Call

end Tool

/-! ## Platforms -/

/-- The kind of system that a build runs on. -/
inductive Platform where
  | linux
  | macos
  | windows
  | other (name : String)
deriving DecidableEq, Repr

namespace Platform

/-- The platform with a name. -/
def ofName (text : String) : Platform :=
  if text = "linux" then linux
  else if text = "macos" then macos
  else if text = "windows" then windows
  else other text

/-- The name of a platform. -/
def name : Platform → String
  | linux => "linux"
  | macos => "macos"
  | windows => "windows"
  | other text => text

/-- There is no converter for the platform. -/
def unsupportedMessage (text : String) : String :=
  "no device converter available for platform '" ++ text ++ "'"

end Platform

/-- The converter for a platform; the platform's name if there is none. -/
def Converters.for? (converters : Converters) : Platform → Except String Path
  | .linux => .ok converters.linux
  | .macos => .ok converters.macos
  | .windows => .ok converters.windows
  | .other text => .error text

end Bindery
