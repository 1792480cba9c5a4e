import Bindery.Yaml.Number
import Bindery.Yaml.Tree

/-!
# `Bindery.Yaml.Value` — the values of YAML

A plain scalar is read by its looks: as null, a boolean, a number or else a string. Any other scalar is
a string. One of the tags `!!null`, `!!bool`, `!!int` and `!!float` demands that kind; a tag of one's
own, which starts with a single exclamation mark, stays with the value, and other tags say nothing.

No two keys of a mapping are the same. Numbers are the same when they are equal, and mappings when they
have the same entries in any order.

**Contents.** `Yaml.Value`; `Value.same`; `Value.ofPlain?`, `Value.ofScalar?` and `Value.ofTree?`;
`Value.ofText?`.
-/

namespace Bindery.Yaml

open Bindery.Number

/-- A value. -/
inductive Value where
  | null
  | bool (value : Bool)
  | int (value : Int)
  | float (value : Double)
  | text (value : String)
  | list (items : List Value)
  /-- entries in the order they are written in -/
  | dict (entries : List (Value × Value))
  | tagged (tag : String) (value : Value)
deriving Repr, Inhabited

namespace Value

mutual

/-- The same value. -/
def same : Value → Value → Bool
  | .null, .null => true
  | .bool a, .bool b => a == b
  | .int a, .int b => a == b
  | .float a, .float b => a.same b
  | .text a, .text b => a == b
  | .list xs, .list ys => sameItems xs ys
  | .dict xs, .dict ys => xs.length == ys.length && sameEntries xs ys
  | .tagged t a, .tagged u b => t == u && same a b
  | _, _ => false

/-- The same items in the same order. -/
def sameItems : List Value → List Value → Bool
  | [], [] => true
  | x :: xs, y :: ys => same x y && sameItems xs ys
  | _, _ => false

/-- Each entry is among the others. -/
def sameEntries : List (Value × Value) → List (Value × Value) → Bool
  | [], _ => true
  | (k, v) :: entries, others =>
    others.any (fun other => same k other.1 && same v other.2) && sameEntries entries others

end

/-- No two keys are the same. -/
def distinctKeys : List (Value × Value) → Bool
  | [] => true
  | (k, _) :: entries => !entries.any (fun other => same k other.1) && distinctKeys entries

/-! ## Scalars -/

/-- A word for null. -/
def isNull (text : String) : Bool :=
  ["null", "Null", "NULL", "~"].contains text

/-- A word for a boolean. -/
def bool? (text : String) : Option Bool :=
  if ["true", "True", "TRUE"].contains text then some true
  else if ["false", "False", "FALSE"].contains text then some false
  else none

/-- A float or, failing that, a string. -/
def floatOrText (text : String) : Value :=
  if hasLeadingZero (text.toList.dropWhile fun c => c == '+' || c == '-') then .text text
  else match float? text.toList with
    | some x => .float x
    | none => .text text

/-- The value that a plain scalar looks like; nothing if it is an integer that is refused. -/
def ofPlain? (text : String) : Option Value :=
  if text.isEmpty || isNull text then some .null
  else match bool? text, integer? text.toList with
    | some b, _ => some (.bool b)
    | none, some n =>
      match Size.of n with
      | .fits => some (.int n)
      | .refused => none
      | .huge => some (floatOrText text)
    | none, none => some (floatOrText text)

/-- An integer of a size that is a value. -/
def fitting? (text : String) : Option Int :=
  match integer? text.toList with
  | some n => if Size.of n = .fits then some n else none
  | none => none

/-- What follows the exclamation mark of a tag of one's own. -/
def ownTag? (tag : Option String) : Option String :=
  match tag.map String.toList with
  | some ('!' :: name) => some (String.ofList name)
  | _ => none

/-- A value under its tag, if that is one's own. Such a tag has a name, and `own` tells whether it is
accepted at all. -/
def under? (own : Bool) (tag : Option String) (value : Value) : Option Value :=
  match ownTag? tag with
  | some name => if name.isEmpty || !own then none else some (.tagged name value)
  | none => some value

/-- The value of a scalar. -/
def ofScalar? (own : Bool) (tag : Option String) (text : String) (plain : Bool) : Option Value :=
  match tag with
  | some "tag:yaml.org,2002:bool" => (bool? text).map .bool
  | some "tag:yaml.org,2002:int" => (fitting? text).map .int
  | some "tag:yaml.org,2002:float" => (float? text.toList).map .float
  | some "tag:yaml.org,2002:null" => if isNull text then some .null else none
  | _ =>
    if plain ∧ (tag.isNone ∨ (ownTag? tag).isSome) then (ofPlain? text).bind (under? own tag)
    else under? own tag (.text text)

/-! ## Trees -/

mutual

/-- The value of a tree; `own` tells whether tags of one's own are accepted. -/
def ofTree? (own : Bool) : Tree → Option Value
  | .scalar tag written plain => ofScalar? own tag written plain
  | .list tag items => (ofItems? own items).bind fun items => under? own tag (.list items)
  | .dict tag entries =>
    (ofEntries? own entries).bind fun entries =>
      if distinctKeys entries then under? own tag (.dict entries) else none
  | .cut => none

/-- The values of a list's items. -/
def ofItems? (own : Bool) : List Tree → Option (List Value)
  | [] => some []
  | item :: items => do return (← ofTree? own item) :: (← ofItems? own items)

/-- The values of a mapping's entries. -/
def ofEntries? (own : Bool) : List (Tree × Tree) → Option (List (Value × Value))
  | [] => some []
  | (key, value) :: entries => do
    return (← ofTree? own key, ← ofTree? own value) :: (← ofEntries? own entries)

end

/-- The value of the only document in a text. -/
def ofText? (text : String) : Option Value :=
  (Tree.ofText? text).bind (ofTree? true)

end Value

end Bindery.Yaml
