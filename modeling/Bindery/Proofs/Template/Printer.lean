import Bindery.Template.Statement

/-!
# `Proofs.Template.Printer` — the canonical source of a tree

A tree is written back as a source in one fixed way: each `<%` of a text as `<%%`, each tag with one
space inside its delimiters, and every compound expression in parentheses. Strings are single-quoted,
with quotes and backslashes escaped.

**Contents.**
* `isName` / `isVariable` — the words that can be fields, and those that can be variables as well;
* `Expr.print` and `Statement.print` — the code of a tag;
* `Node.print` with `printClauses` and `printAll` — the source of a tree, and `Node.source` as a string;
* `Expr.Normal` and `Node.Normal` — the trees that a source can stand for.
-/

namespace Bindery.Template

/-! ## Words -/

/-- A name: a start character and then any number of name characters. -/
def isName (word : String) : Bool :=
  match word.toList with
  | [] => false
  | c :: rest => isNameStart c && rest.all isNameChar

/-- The name of a variable is a name that is not reserved. -/
def isVariable (word : String) : Bool :=
  isName word && decide (word ∉ reserved)

/-- The characters of a word. -/
def spell (word : String) : List Char :=
  word.toList

/-! ## Expressions -/

/-- The characters of a string between single quotes. -/
def escapeQuotes : List Char → List Char
  | [] => []
  | c :: rest => if c = '\'' ∨ c = '\\' then '\\' :: c :: escapeQuotes rest else c :: escapeQuotes rest

/-- A single-quoted string. -/
def quote (text : List Char) : List Char :=
  '\'' :: escapeQuotes text ++ ['\'']

/-- A compound expression: two operands with an operator between them, in parentheses. -/
def grouped (lhs symbol rhs : List Char) : List Char :=
  '(' :: lhs ++ ' ' :: symbol ++ ' ' :: rhs ++ [')']

/-- The fields after a variable. -/
def printFields : List String → List Char
  | [] => []
  | field :: rest => '.' :: spell field ++ printFields rest

/-- The code of an expression. -/
def Expr.print : Expr → List Char
  | .str text => quote text.toList
  | .bool b => spell (if b then "true" else "false")
  | .nil => spell "nil"
  | .var head fields => spell head ++ printFields fields
  | .imported path => spell "import" ++ '(' :: path.print ++ [')']
  | .not inner => '(' :: '!' :: inner.print ++ [')']
  | .eq lhs rhs => grouped lhs.print ['=', '='] rhs.print
  | .ne lhs rhs => grouped lhs.print ['!', '='] rhs.print
  | .and lhs rhs => grouped lhs.print ['&', '&'] rhs.print
  | .or lhs rhs => grouped lhs.print ['|', '|'] rhs.print

/-! ## Statements -/

/-- The code of a statement. -/
def Statement.print : Statement → List Char
  | .test condition => spell "if" ++ ' ' :: condition.print
  | .retest condition => spell "elsif" ++ ' ' :: condition.print
  | .otherwise => spell "else"
  | .close => spell "end"
  | .loop name items =>
    spell "for" ++ ' ' :: (spell name ++ ' ' :: (spell "in" ++ ' ' :: items.print))

/-! ## Trees -/

/-- The source of a text: each `<%` is written `<%%`. -/
def escapeTags : List Char → List Char
  | '<' :: '%' :: rest => '<' :: '%' :: '%' :: escapeTags rest
  | c :: rest => c :: escapeTags rest
  | [] => []

/-- The tag that outputs an expression. -/
def outputTag (e : Expr) : List Char :=
  ['<', '%', '=', ' '] ++ e.print ++ [' ', '%', '>']

/-- The tag that holds a statement. -/
def statementTag (statement : Statement) : List Char :=
  ['<', '%', ' '] ++ statement.print ++ [' ', '%', '>']

mutual

/-- The source of a node. -/
def Node.print : Node → List Char
  | .text text => escapeTags text.toList
  | .output e => outputTag e
  | .branch clauses otherwise =>
    printClauses Statement.test clauses
      ++ (if otherwise.isEmpty then [] else statementTag .otherwise ++ printAll otherwise)
      ++ statementTag .close
  | .loop name items body =>
    statementTag (.loop name items) ++ printAll body ++ statementTag .close

/-- The source of the clauses of a conditional; `opening` is the statement that opens the first one. -/
def printClauses (opening : Expr → Statement) : List (Expr × List Node) → List Char
  | [] => []
  | (test, body) :: rest =>
    statementTag (opening test) ++ printAll body ++ printClauses Statement.retest rest

/-- The source of a list of nodes. -/
def printAll : List Node → List Char
  | [] => []
  | node :: rest => node.print ++ printAll rest

end

/-- The canonical source of a template. -/
def Node.source (nodes : List Node) : String :=
  String.ofList (printAll nodes)

/-! ## Normal form -/

/-- Every variable has a name that is not reserved, and every field has a name. -/
def Expr.Normal : Expr → Prop
  | .str _ | .bool _ | .nil => True
  | .var head fields => isVariable head = true ∧ ∀ field ∈ fields, isName field = true
  | .imported inner | .not inner => inner.Normal
  | .eq lhs rhs | .ne lhs rhs | .and lhs rhs | .or lhs rhs => lhs.Normal ∧ rhs.Normal

/-- A text node. -/
def Node.isText : Node → Bool
  | .text _ => true
  | _ => false

mutual

/-- Texts are not empty, conditionals have a clause, loops bind a variable, and no list inside has two
texts side by side. -/
def Node.Normal : Node → Prop
  | .text text => text ≠ ""
  | .output e => e.Normal
  | .branch clauses otherwise => clauses ≠ [] ∧ NormalClauses clauses ∧ AllNormal otherwise
  | .loop name items body => isVariable name = true ∧ items.Normal ∧ AllNormal body

/-- Every clause is in normal form. -/
def NormalClauses : List (Expr × List Node) → Prop
  | [] => True
  | (test, body) :: rest => test.Normal ∧ AllNormal body ∧ NormalClauses rest

/-- Every node is in normal form, and no two texts are side by side. -/
def AllNormal : List Node → Prop
  | [] => True
  | node :: rest =>
    node.Normal ∧ (node.isText = true → rest.head?.all (!·.isText) = true) ∧ AllNormal rest

end

end Bindery.Template
