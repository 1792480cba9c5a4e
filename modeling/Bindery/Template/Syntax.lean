/-!
# `Bindery.Template.Syntax` — template trees

A template is literal text with tags in it. Output tags hold an expression whose value is inserted;
statement tags open, divide and close conditional blocks and loops.

**Contents.** `Expr`, the expressions; `Node`, the tree of a template; `SyntaxCause` and
`SyntaxError`, what can be wrong with a template's source and on which line.
-/

namespace Bindery.Template

/-- An expression inside a tag. -/
inductive Expr where
  /-- a string; integers and symbols are strings too -/
  | str (text : String)
  | bool (value : Bool)
  | nil
  /-- a variable and the fields read from it, one after another -/
  | var (head : String) (fields : List String)
  /-- the resolved text of the template at a path -/
  | imported (path : Expr)
  | not (inner : Expr)
  | eq (lhs rhs : Expr)
  | ne (lhs rhs : Expr)
  | and (lhs rhs : Expr)
  | or (lhs rhs : Expr)
deriving DecidableEq, Repr, Inhabited

/-- One part of a template. -/
inductive Node where
  | text (text : String)
  | output (value : Expr)
  /-- the body of the first test that holds, or `otherwise` -/
  | branch (clauses : List (Expr × List Node)) (otherwise : List Node)
  /-- the body once for each item, with the item bound to `name` -/
  | loop (name : String) (items : Expr) (body : List Node)
deriving Repr, Inhabited

/-- What is wrong with a template's source. -/
inductive SyntaxCause where
  | unterminatedTag
  | expectedExpression
  | unexpectedInput (rest : String)
  | invalidExpression (code : String)
  | emptyTag
  | invalidStatement (code : String)
  | unsupportedStatement
  | strayElsif
  | strayElse
  | strayEnd
  | unclosedIf
  | unclosedLoop
deriving DecidableEq, Repr

/-- The wording of a cause. -/
def SyntaxCause.message : SyntaxCause → String
  | unterminatedTag => "unterminated tag, expected '%>'"
  | expectedExpression => "expected an expression"
  | unexpectedInput rest => "unexpected input '" ++ rest ++ "'"
  | invalidExpression code => "invalid expression '" ++ code ++ "'"
  | emptyTag => "empty tag"
  | invalidStatement code => "invalid expression in '" ++ code ++ "'"
  | unsupportedStatement =>
    "unsupported statement; expected if, elsif, else, unless, for, each or end"
  | strayElsif => "'elsif' without matching 'if'"
  | strayElse => "'else' without matching 'if'"
  | strayEnd => "'end' without an open block"
  | unclosedIf => "unterminated 'if' block, expected 'end'"
  | unclosedLoop => "unterminated loop, expected 'end'"

/-- A fault in a template's source, with the line of the tag that is at fault, counted from one. -/
structure SyntaxError where
  line : Nat
  cause : SyntaxCause
deriving DecidableEq, Repr

/-- The fault as it is reported. -/
def SyntaxError.message (e : SyntaxError) : String :=
  "line " ++ toString e.line ++ ": " ++ e.cause.message

end Bindery.Template
