import Bindery.Files.Fault
import Bindery.Path
import Bindery.Template.Syntax

/-!
# `Bindery.Template.Fault` — why a template does not resolve

A fault names the template it arose in: the innermost one, when templates import each other.

**Contents.** `Template.Cause` with its `kind` and `message`; `Template.Fault`, a cause at a path.
-/

namespace Bindery.Template

/-- What went wrong. -/
inductive Cause where
  /-- the path leads out of the source directory -/
  | outsideSource
  /-- the path has no name in it -/
  | emptyPath
  /-- the file at `full` could not be read -/
  | unreadable (full : Path) (fault : Files.Fault)
  | badSyntax (error : SyntaxError)
  | undefined (name : String)
  /-- a field was read from something that has none -/
  | notMapping (field : String) (typeName : String)
  | notIterable (typeName : String)
  | notPrintable (typeName : String)
  /-- an import was given something that is not a path -/
  | notPath (typeName : String)
  /-- the last template of the chain is in progress already -/
  | cycle (chain : List Path)
  | tooDeep (limit : Nat)
deriving DecidableEq, Repr

/-- The classes of causes. -/
inductive Kind where
  | notFound
  | syntaxError
  | evaluation
  | importCycle
  | depthExceeded
deriving DecidableEq, Repr

/-- The wording of a class. -/
def Kind.text : Kind → String
  | notFound => "not found"
  | syntaxError => "syntax error"
  | evaluation => "evaluation error"
  | importCycle => "import cycle"
  | depthExceeded => "import depth exceeded"

namespace Cause

/-- The class of a cause. -/
def kind : Cause → Kind
  | outsideSource | emptyPath => .notFound
  | unreadable _ fault => if fault = .notFound then .notFound else .evaluation
  | badSyntax _ => .syntaxError
  | undefined _ | notMapping .. | notIterable _ | notPrintable _ | notPath _ => .evaluation
  | cycle _ => .importCycle
  | tooDeep _ => .depthExceeded

/-- The wording of a cause. -/
def message : Cause → String
  | outsideSource => "template paths must stay inside the book source directory"
  | emptyPath => "empty template path"
  | unreadable full fault => full.text ++ ": " ++ fault.message
  | badSyntax error => error.message
  | undefined name => "undefined variable '" ++ name ++ "'"
  | notMapping field typeName => "cannot read field '" ++ field ++ "' of a " ++ typeName
  | notIterable typeName => "cannot iterate over a " ++ typeName
  | notPrintable typeName => "cannot render a " ++ typeName ++ " as text"
  | notPath typeName => "import expects a path string, got a " ++ typeName
  | cycle chain => "import chain loops: " ++ " -> ".intercalate (chain.map Path.text)
  | tooDeep limit => "more than " ++ toString limit ++ " nested imports"

end Cause

/-- A cause with the template it arose in. -/
structure Fault where
  path : Path
  cause : Cause
deriving DecidableEq, Repr

/-- The fault as it is reported. -/
def Fault.message (fault : Fault) : String :=
  "template " ++ fault.cause.kind.text ++ " in " ++ fault.path.text ++ ": " ++ fault.cause.message

end Bindery.Template
