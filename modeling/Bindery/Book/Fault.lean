import Bindery.Files.Fault
import Bindery.Path

/-!
# `Bindery.Book.Fault` — why a configuration cannot be used

**Contents.** `Book.Fault` with its `message` and its `causes`.
-/

namespace Bindery.Book

/-- Why a configuration cannot be used. -/
inductive Fault where
  | notFound (path : Path)
  | malformed (path : Path)
  /-- the title is blank -/
  | missingTitle
  | unreadable (path : Path) (fault : Files.Fault)
deriving DecidableEq, Repr

/-- The wording of a fault. -/
def Fault.message : Fault → String
  | notFound path => "configuration file not found: " ++ path.text
  | malformed path => "malformed configuration in " ++ path.text
  | missingTitle => "missing required field: title"
  | unreadable path fault => "failed to read " ++ path.text ++ ": " ++ fault.message

/-- The chain of causes: each wording is explained by the next one. -/
def Fault.causes (fault : Fault) : List String :=
  fault.message :: match fault with
    | unreadable _ cause => [cause.message]
    | _ => []

end Bindery.Book
