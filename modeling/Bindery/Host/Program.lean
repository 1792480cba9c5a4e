import Bindery.Host.Utility

/-!
# `Bindery.Host.Program` — which program a name means

A bare name means a program of the host. A path means the file there, which must be marked as
executable and start with a line that names its interpreter; the interpreter then gets the path as its
first argument.

**Contents.** `Host.Program`; `interpreter?`, the first line of a script; `resolve`.
-/

namespace Bindery.Host

/-- A program of the host. -/
inductive Program where
  | utility (utility : Utility)
  /-- runs scripts -/
  | shell
  /-- runs the program that its first argument names -/
  | finder
deriving DecidableEq, Repr

namespace Program

/-- The program with a name. -/
def ofName? (name : String) : Option Program :=
  if name = "sh" then some shell
  else if name = "env" then some finder
  else (Utility.ofName? name).map utility

/-- The program at a place where the host keeps its own. -/
def ofPath? (path : Path) : Option Program :=
  match path.components with
  | [.root, .name bin, .name name] => if bin = "bin" then ofName? (wordOf name.bytes) else none
  | [.root, .name usr, .name bin, .name name] =>
    if usr = "usr" ∧ bin = "bin" then ofName? (wordOf name.bytes) else none
  | _ => none

end Program

/-- A space or a tab. -/
def isGap (c : Char) : Bool :=
  c = ' ' || c = '\t'

/-- A text without spaces and tabs around it. -/
def trimmed (cs : List Char) : List Char :=
  ((cs.dropWhile isGap).reverse.dropWhile isGap).reverse

/-- The interpreter that the first line of a script names, with the one argument that may follow. -/
def interpreter? (content : Files.Content) : Option (String × List String) :=
  let line := content.toBytes.toList.takeWhile (· ≠ 10)
  match line with
  | 35 :: 33 :: rest =>
    let cs := trimmed (wordOf rest).toList
    let arg := trimmed (cs.dropWhile (!isGap ·))
    if cs.isEmpty then none
    else some (String.ofList (cs.takeWhile (!isGap ·)), if arg.isEmpty then [] else [String.ofList arg])
  | _ => none

/-- How often an interpreter may itself be a script. -/
def mostInterpreters : Nat := 4

/-- The program that a path means, with its arguments. -/
def resolvePath (files : Files) : (levels : Nat) → String → List String →
    Except Files.Fault (Program × List String)
  | 0, _, _ => .error .tooManyLinks
  | levels + 1, path, args =>
    match Program.ofPath? (pathOf path) with
    | some program => .ok (program, args)
    | none => do
      match ← files.spot true (pathOf path) with
      | .present _ (.file content true) =>
        match interpreter? content with
        | some (program, given) => resolvePath files levels program (given ++ path :: args)
        | none => .error .notExecutable
      | .present _ _ => .error .permissionDenied
      | .absent _ => .error .notFound

/-- The program that a name or path means, with its arguments. -/
def resolve (files : Files) (name : String) (args : List String) :
    Except Files.Fault (Program × List String) :=
  if name.toList.contains '/' then resolvePath files (mostInterpreters + 1) name args
  else match Program.ofName? name with
    | some program => .ok (program, args)
    | none => .error .notFound

end Bindery.Host
