import Bindery.Template.Fault
import Bindery.Template.Value

/-!
# `Bindery.Template.Render` — the text of a tree

Evaluation is strict and goes from left to right. `and` and `or` give the value of the operand that
decides, and do not evaluate the second operand when the first one decides. A loop binds its variable
to each item in turn, and the variable with `_index` at its end to the item's position, counted from
one. What an import gives is a parameter here.

**Contents.** `Scope`, what an expression can refer to; `Value.select`, which follows fields;
`Expr.eval`; `Value.print?`; the renderer of a list of nodes, `renderAll`.
-/

namespace Bindery.Template

/-- What the expressions of one template can refer to. -/
structure Scope where
  /-- the template that faults are blamed on -/
  label : Path
  globals : Binding
  /-- the variables of the enclosing loops, innermost first -/
  locals : List (String × Value)
  /-- the resolved text of the template at a path -/
  resolve : Path → Except Fault String

namespace Scope

/-- A fault of the scope's own template. -/
def fault (scope : Scope) (cause : Cause) : Fault :=
  ⟨scope.label, cause⟩

/-- The value of a variable: of the innermost loop that binds it, otherwise the global one. -/
def find? (scope : Scope) (name : String) : Option Value :=
  (Dict.find? name scope.locals).or (Dict.find? name scope.globals)

/-- The scope of a loop's body for the item at `index`, counted from zero. -/
def enter (scope : Scope) (name : String) (item : Value) (index : Nat) : Scope :=
  { scope with
    locals := (name, item) :: (name ++ "_index", .str (toString (index + 1))) :: scope.locals }

end Scope

/-- Follows fields into a value. A missing field and every field of nil are nil. -/
def Value.select : Value → List String → Except Cause Value
  | v, [] => .ok v
  | .map fields, name :: rest =>
    match Dict.find? name fields with
    | some v => v.select rest
    | none => .ok .nil
  | .nil, _ :: _ => .ok .nil
  | v, name :: _ => .error (.notMapping name v.typeName)

/-- What an output tag prints for a value. -/
def Value.print? : Value → Option String
  | .nil => some ""
  | .bool true => some "true"
  | .bool false => some "false"
  | .str text => some text
  | .list _ | .map _ => none

/-- The value of an expression. -/
def Expr.eval (scope : Scope) : Expr → Except Fault Value
  | .str text => .ok (.str text)
  | .bool b => .ok (.bool b)
  | .nil => .ok .nil
  | .var head fields =>
    match scope.find? head with
    | some v => (v.select fields).mapError scope.fault
    | none => .error (scope.fault (.undefined head))
  | .imported path => do
    match ← path.eval scope with
    | .str text => return .str (← scope.resolve ⟨text⟩)
    | v => .error (scope.fault (.notPath v.typeName))
  | .not inner => do return .bool !(← inner.eval scope).truthy
  | .eq lhs rhs => do
    let a ← lhs.eval scope
    let b ← rhs.eval scope
    return .bool (a = b)
  | .ne lhs rhs => do
    let a ← lhs.eval scope
    let b ← rhs.eval scope
    return .bool (a ≠ b)
  | .and lhs rhs => do
    let a ← lhs.eval scope
    if a.truthy then rhs.eval scope else return a
  | .or lhs rhs => do
    let a ← lhs.eval scope
    if a.truthy then return a else rhs.eval scope

/-- The items that a loop runs over: those of a list, and none for nil. -/
def Value.items? : Value → Option (List Value)
  | .list items => some items
  | .nil => some []
  | _ => none

/-- The texts of a loop's body for each item, one after another. -/
def renderEach (body : Value → Nat → Except Fault String) : Nat → List Value → Except Fault String
  | _, [] => .ok ""
  | index, item :: rest => do
    let text ← body item index
    return text ++ (← renderEach body (index + 1) rest)

mutual

/-- The text of a node. -/
def render (scope : Scope) : Node → Except Fault String
  | .text text => .ok text
  | .output e => do
    let v ← e.eval scope
    match v.print? with
    | some text => return text
    | none => .error (scope.fault (.notPrintable v.typeName))
  | .branch clauses otherwise => do
    match ← renderFirst scope clauses with
    | some text => return text
    | none => renderAll scope otherwise
  | .loop name items body => do
    let v ← items.eval scope
    match v.items? with
    | some items =>
      renderEach (fun item index => renderAll (scope.enter name item index) body) 0 items
    | none => .error (scope.fault (.notIterable v.typeName))

/-- The text of the first clause whose test holds. -/
def renderFirst (scope : Scope) : List (Expr × List Node) → Except Fault (Option String)
  | [] => .ok none
  | (test, body) :: rest => do
    let v ← test.eval scope
    if v.truthy then return some (← renderAll scope body)
    else renderFirst scope rest

/-- The text of a list of nodes. -/
def renderAll (scope : Scope) : List Node → Except Fault String
  | [] => .ok ""
  | node :: rest => do
    let text ← render scope node
    return text ++ (← renderAll scope rest)

end

end Bindery.Template
