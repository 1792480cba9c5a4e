import Bindery.Template.Syntax
import Bindery.Template.Word

/-!
# `Bindery.Template.Formula` — reading expressions

The grammar, loosest binding first:

```text
or      = and (('||' | 'or') and)*            to the left
and     = not (('&&' | 'and') not)*           to the left
not     = ('!' | 'not') not | comparison
comparison = primary (('==' | '!=') primary)?
primary = string | ':' name | integer | '(' or ')' | 'true' | 'false' | 'nil'
        | 'import' primary | '@'* name ('.' name)*
```

White space may surround every primary, operator and closing parenthesis. A comparison does not
chain. An operator without an operand after it is left unread.

**Contents.** One reader for each level, which never tries a second alternative because the first
characters tell which one it is; `Expr.read`, which bounds the nesting by the length of the text.
-/

namespace Bindery.Template

/-- An operator: its symbol or its keyword. -/
def operator (symbol : List Char) (word : String) (s : List Char) : Option (List Char) :=
  if symbol.isPrefixOf s then some (s.drop symbol.length) else keyword word s

/-- `!`, unless it is the start of `!=`, or `not`. -/
def negation (s : List Char) : Option (List Char) :=
  match s with
  | '!' :: rest => if rest.head? = some '=' then none else some rest
  | _ => keyword "not" s

/-- Reads operands joined by an operator and folds them to the left onto `first`. -/
def chainRest (op : List Char → Option (List Char)) (join : Expr → Expr → Expr)
    (operand : Reader Expr) (fuel : Nat) (first : Expr) (s : List Char) : Expr × List Char :=
  match fuel with
  | 0 => (first, s)
  | fuel + 1 =>
    match op (skipSpace s) with
    | none => (first, s)
    | some rest =>
      match operand (skipSpace rest) with
      | none => (first, s)
      | some (next, rest) => chainRest op join operand fuel (join first next) rest

/-- Operands joined by an operator, folded to the left. -/
def chain (op : List Char → Option (List Char)) (join : Expr → Expr → Expr)
    (operand : Reader Expr) : Reader Expr := fun s =>
  match operand s with
  | none => none
  | some (first, rest) => some (chainRest op join operand rest.length first rest)

/-- Conjunctions joined by `||` or `or`. -/
def disjunction (operand : Reader Expr) : Reader Expr :=
  chain (operator ['|', '|'] "or") .or (chain (operator ['&', '&'] "and") .and operand)

/-- One primary, or two with `==` or `!=` between them. -/
def comparison (operand : Reader Expr) : Reader Expr := fun s =>
  match operand s with
  | none => none
  | some (lhs, rest) =>
    match skipSpace rest with
    | '=' :: '=' :: after =>
      match operand (skipSpace after) with
      | some (rhs, rest) => some (.eq lhs rhs, rest)
      | none => some (lhs, rest)
    | '!' :: '=' :: after =>
      match operand (skipSpace after) with
      | some (rhs, rest) => some (.ne lhs rhs, rest)
      | none => some (lhs, rest)
    | _ => some (lhs, rest)

/-- A word that is an expression: a constant, an import, or a variable with its fields. -/
def wordExpr (argument : Reader Expr) : Reader Expr := fun s =>
  match name s with
  | some ("true", rest) => some (.bool true, rest)
  | some ("false", rest) => some (.bool false, rest)
  | some ("nil", rest) => some (.nil, rest)
  | some ("import", rest) => (argument rest).map fun (e, rest) => (.imported e, rest)
  | _ => (path s).map fun ((head, fields), rest) => (.var head fields, rest)

/-- A primary without the white space around it. -/
def barePrimary (nested argument : Reader Expr) : Reader Expr
  | '"' :: rest => (quoted ('"' :: rest)).map fun (text, rest) => (.str text, rest)
  | '\'' :: rest => (quoted ('\'' :: rest)).map fun (text, rest) => (.str text, rest)
  | ':' :: rest => (name rest).map fun (text, rest) => (.str text, rest)
  | '(' :: rest =>
    match nested rest with
    | some (inner, rest) =>
      match skipSpace rest with
      | ')' :: rest => some (inner, rest)
      | _ => none
    | none => none
  | s =>
    if s.head? = some '-' ∨ (s.head?.any Char.isDigit) then
      (integer s).map fun (text, rest) => (.str text, rest)
    else wordExpr argument s

/-- A primary with the white space around it. -/
def spacedPrimary (nested argument : Reader Expr) : Reader Expr := fun s =>
  (barePrimary nested argument (skipSpace s)).map fun (e, rest) => (e, skipSpace rest)

mutual

/-- A negation or a comparison, nested at most `fuel` deep. -/
def notExpr (fuel : Nat) : Reader Expr := fun s =>
  match fuel with
  | 0 => none
  | fuel + 1 =>
    match negation (skipSpace s) with
    | some rest => (notExpr fuel (skipSpace rest)).map fun (e, rest) => (.not e, rest)
    | none => comparison (primary fuel) s

/-- A primary, nested at most `fuel` deep. -/
def primary (fuel : Nat) : Reader Expr := fun s =>
  match fuel with
  | 0 => none
  | fuel + 1 => spacedPrimary (disjunction (notExpr fuel)) (primary fuel) s

end

/-- An expression off the front of a text. Two levels for each character are enough, since every
level of nesting takes a character. -/
def Expr.read : Reader Expr := fun s =>
  disjunction (notExpr (2 * s.length + 2)) s

end Bindery.Template
