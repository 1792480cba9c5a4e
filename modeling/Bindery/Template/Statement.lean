import Bindery.Template.Formula
import Bindery.Text.Blank

/-!
# `Bindery.Template.Statement` — what a tag says

The code of an output tag is one expression. The code of a statement tag opens a block, divides it or
closes it; both must be used up to their last character.

A statement that starts with `if`, `unless`, `elsif` or `for` is committed to that form: what follows
is then an invalid statement if it does not fit, and not an unknown one.

**Contents.** `Statement`; `Statement.read`, which reads one off the front of a text;
`Expr.ofCode` and `Statement.ofCode`, which read the whole code of a tag.
-/

namespace Bindery.Template

open Bindery.Text

/-- What a statement tag asks for. -/
inductive Statement where
  /-- opens a conditional block -/
  | test (condition : Expr)
  /-- gives the open conditional block another test -/
  | retest (condition : Expr)
  | otherwise
  | close
  /-- opens a loop over `items` -/
  | loop (name : String) (items : Expr)
deriving DecidableEq, Repr

namespace Statement

/-- How the front of a text reads as a statement. -/
inductive Reading where
  | read (statement : Statement) (rest : List Char)
  /-- the form is known, but the text does not fit it -/
  | misfit
  /-- no form starts like this -/
  | unknown
deriving DecidableEq, Repr

/-- A form that takes one expression after its keyword. -/
def withExpr (make : Expr → Statement) (rest : List Char) : Reading :=
  match Expr.read rest with
  | some (e, rest) => .read (make e) rest
  | none => .misfit

/-- `name in expr`, after `for`. -/
def forHeader : Reader (String × Expr) := fun s => do
  let (name, rest) ← variableName (skipSpace s)
  let rest ← keyword "in" (skipSpace rest)
  let (items, rest) ← Expr.read rest
  return ((name, items), rest)

/-- The character `c` with white space around it. -/
def spacedChar (c : Char) (s : List Char) : Option (List Char) :=
  match skipSpace s with
  | d :: rest => if d = c then some (skipSpace rest) else none
  | [] => none

/-- `path.each do |name|`. -/
def eachHeader : Reader (String × Expr) := fun s => do
  let ((head, fields), rest) ← path s
  let rest ← keyword "do" (skipSpace rest)
  let rest ← spacedChar '|' rest
  let (name, rest) ← variableName rest
  let rest ← spacedChar '|' rest
  if fields.getLast? = some "each" then
    return ((name, .var head fields.dropLast), rest)
  else none

/-- A statement without white space in front of it. -/
def readBare (s : List Char) : Reading :=
  match name s with
  | some ("if", rest) => withExpr .test rest
  | some ("unless", rest) => withExpr (fun e => .test (.not e)) rest
  | some ("elsif", rest) => withExpr .retest rest
  | some ("else", rest) => .read .otherwise rest
  | some ("end", rest) => .read .close rest
  | some ("for", rest) =>
    match forHeader rest with
    | some ((name, items), rest) => .read (.loop name items) rest
    | none => .misfit
  | _ =>
    match eachHeader s with
    | some ((name, items), rest) => .read (.loop name items) rest
    | none => .unknown

/-- A statement off the front of a text. -/
def read (s : List Char) : Reading :=
  readBare (skipSpace s)

/-- The statement that is the whole code of a tag on line `line`. -/
def ofCode (line : Nat) (code : List Char) : Except SyntaxError Statement :=
  if trim code = [] then .error ⟨line, .emptyTag⟩
  else match read code with
    | .read statement rest =>
      if trim rest = [] then .ok statement
      else .error ⟨line, .unexpectedInput (String.ofList (trim rest))⟩
    | .misfit => .error ⟨line, .invalidStatement (String.ofList (trim code))⟩
    | .unknown => .error ⟨line, .unsupportedStatement⟩

end Statement

/-- The expression that is the whole code of a tag on line `line`. -/
def Expr.ofCode (line : Nat) (code : List Char) : Except SyntaxError Expr :=
  if trim code = [] then .error ⟨line, .expectedExpression⟩
  else match Expr.read code with
    | some (e, rest) =>
      if trim rest = [] then .ok e
      else .error ⟨line, .unexpectedInput (String.ofList (trim rest))⟩
    | none => .error ⟨line, .invalidExpression (String.ofList (trim code))⟩

end Bindery.Template
