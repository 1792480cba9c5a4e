import Bindery.Build.Stage
import Bindery.Template.Fault
import Bindery.Tool.Call

/-!
# `Bindery.Build.Fault` — why a stage fails

**Contents.** `Build.Action`, what was being done to a file; `Build.Fault`, the causes, with their
`kind`, `message` and `causes`; `Build.Failure`, a cause at its stage.
-/

namespace Bindery.Build

/-- What was being done to a file. -/
inductive Action where
  | reading
  /-- finding out what an entry of a directory is -/
  | inspecting
  | creating
  | removing
  | copying
  | writing
  /-- going through a directory -/
  | walking
deriving DecidableEq, Repr

/-- The word for an action. -/
def Action.text : Action → String
  | reading => "reading"
  | inspecting => "inspecting"
  | creating => "creating"
  | removing => "removing"
  | copying => "copying"
  | writing => "writing"
  | walking => "walking"

/-- Why a stage fails. -/
inductive Fault where
  | template (fault : Template.Fault)
  | missingSource (path : Path)
  | files (action : Action) (path : Path) (fault : Files.Fault)
  | unsupportedPlatform (name : String)
  | tool (fault : Tool.Fault)
  | cancelled
  /-- the build is for one format, and the stages are those of another -/
  | formatMismatch (stages build : Format)
deriving DecidableEq, Repr

namespace Fault

/-- The class of a fault. -/
def kind : Fault → String
  | template _ => "TemplateError"
  | missingSource _ => "MissingSource"
  | files .. => "IoError"
  | unsupportedPlatform _ => "UnsupportedPlatformError"
  | tool _ => "ExternalToolError"
  | cancelled => "Cancelled"
  | formatMismatch .. => "FormatMismatch"

/-- What went wrong with a file, in words. -/
def detail (action : Action) (path : Path) (fault : Files.Fault) : String :=
  match action with
  | .walking => "IO error for operation on " ++ path.text ++ ": " ++ fault.message
  | _ => fault.message

/-- The wording of a fault. -/
def message : Fault → String
  | template fault => fault.message
  | missingSource path => "required source missing: " ++ path.text
  | files action path fault => action.text ++ " " ++ path.text ++ ": " ++ detail action path fault
  | unsupportedPlatform name => Platform.unsupportedMessage name
  | tool fault => fault.message
  | cancelled => "build cancelled"
  | formatMismatch stages build =>
    "build context is for " ++ build.name ++ ", but the stages are for " ++ stages.name

/-- The causes behind a fault. A directory that cannot be gone through has a cause of its own, which
names the directory. -/
def causes : Fault → List String
  | files .walking path fault => [detail .walking path fault, fault.message]
  | files _ _ fault => [fault.message]
  | tool fault => fault.causes
  | _ => []

end Fault

/-- A fault at the stage that it ended. -/
structure Failure where
  stage : Stage
  cause : Fault
deriving DecidableEq, Repr

/-- The wording of a failure. -/
def Failure.message (failure : Failure) : String :=
  failure.stage.name ++ " failed: " ++ failure.cause.message

/-- The chain of causes: each wording is explained by the next one. -/
def Failure.causes (failure : Failure) : List String :=
  failure.message :: failure.cause.message :: failure.cause.causes

end Bindery.Build
