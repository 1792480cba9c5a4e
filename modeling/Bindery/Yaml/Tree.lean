import Bindery.Dict
import Bindery.Yaml.Node

/-!
# `Bindery.Yaml.Tree` — documents without aliases

An alias stands for a copy of the node with its anchor. Anchors are numbered in the order in which they
are set: an anchor gets the count of the names that are known so far as its number, also when its own
name is among them, and an alias refers to the number that its name has at that place. Where two nodes
have one number the later one counts.

Copies are bounded in two ways. A node more than 128 collections deep is cut off, which also ends a
node that contains itself. And no more than a hundred copies for each part of the document are made.

**Contents.** `Node.number?`, from names to numbers; `Node.parts`, the size of a document;
`Node.anchored`, the nodes with a number; `Tree`; `Node.expand?`; `Tree.ofText?`.
-/

namespace Bindery.Yaml

namespace Node

/-! ## Numbering -/

/-- The number of a new anchor, and the numbers known after it. -/
def numberAnchor (known : Dict String Nat) : Option String → Option Nat × Dict String Nat
  | none => (none, known)
  | some name => (some known.length, Dict.insert name known.length known)

mutual

/-- Replaces names of anchors by numbers; nothing if an alias refers to an unknown name. -/
def number? (known : Dict String Nat) : Node String → Option (Node Nat × Dict String Nat)
  | .alias name => (Dict.find? name known).map fun n => (.alias n, known)
  | .scalar anchor tag text plain =>
    let (anchor, known) := numberAnchor known anchor
    some (.scalar anchor tag text plain, known)
  | .list anchor tag items => do
    let (anchor, known) := numberAnchor known anchor
    let (items, known) ← numberItems? known items
    return (.list anchor tag items, known)
  | .dict anchor tag entries => do
    let (anchor, known) := numberAnchor known anchor
    let (entries, known) ← numberEntries? known entries
    return (.dict anchor tag entries, known)

/-- `number?` along a list. -/
def numberItems? (known : Dict String Nat) :
    List (Node String) → Option (List (Node Nat) × Dict String Nat)
  | [] => some ([], known)
  | item :: items => do
    let (item, known) ← number? known item
    let (items, known) ← numberItems? known items
    return (item :: items, known)

/-- `number?` along the entries of a mapping. -/
def numberEntries? (known : Dict String Nat) :
    List (Node String × Node String) → Option (List (Node Nat × Node Nat) × Dict String Nat)
  | [] => some ([], known)
  | (key, value) :: entries => do
    let (key, known) ← number? known key
    let (value, known) ← number? known value
    let (entries, known) ← numberEntries? known entries
    return ((key, value) :: entries, known)

end

variable {α : Type}

mutual

/-- The size of a document: scalars and aliases count once, collections twice. -/
def parts : Node α → Nat
  | .alias _ | .scalar .. => 1
  | .list _ _ items => 2 + partsOfItems items
  | .dict _ _ entries => 2 + partsOfEntries entries

/-- The size of a list's items. -/
def partsOfItems : List (Node α) → Nat
  | [] => 0
  | item :: items => parts item + partsOfItems items

/-- The size of a mapping's entries. -/
def partsOfEntries : List (Node α × Node α) → Nat
  | [] => 0
  | (key, value) :: entries => parts key + parts value + partsOfEntries entries

end

mutual

/-- The nodes with an anchor, in the order in which they start. -/
def anchored : Node α → List (α × Node α)
  | .alias _ => []
  | .scalar anchor tag text plain =>
    (anchor.map fun a => (a, .scalar anchor tag text plain)).toList
  | .list anchor tag items =>
    (anchor.map fun a => (a, .list anchor tag items)).toList ++ anchoredItems items
  | .dict anchor tag entries =>
    (anchor.map fun a => (a, .dict anchor tag entries)).toList ++ anchoredEntries entries

/-- The nodes with an anchor among a list's items. -/
def anchoredItems : List (Node α) → List (α × Node α)
  | [] => []
  | item :: items => anchored item ++ anchoredItems items

/-- The nodes with an anchor among a mapping's entries. -/
def anchoredEntries : List (Node α × Node α) → List (α × Node α)
  | [] => []
  | (key, value) :: entries => anchored key ++ anchored value ++ anchoredEntries entries

end

end Node

/-! ## Trees -/

/-- A document without anchors and aliases. -/
inductive Tree where
  | scalar (tag : Option String) (text : String) (plain : Bool)
  | list (tag : Option String) (items : List Tree)
  | dict (tag : Option String) (entries : List (Tree × Tree))
  /-- what lies too deep to be read -/
  | cut
deriving Repr, Inhabited

namespace Node

/-- The node that an alias refers to, as one copy, or the node itself. -/
def target? (table : List (Nat × Node Nat)) (copies : Nat) : Node Nat → Option (Node Nat × Nat)
  | .alias n =>
    match copies with
    | 0 => none
    | copies + 1 => (table.reverse.lookup n).map (·, copies)
  | node => some (node, copies)

/-- Expands nodes one after another; `copies` is how many copies may still be made. -/
def expandItems? (expand : Nat → Node Nat → Option (Tree × Nat)) :
    (copies : Nat) → List (Node Nat) → Option (List Tree × Nat)
  | copies, [] => some ([], copies)
  | copies, item :: items => do
    let (item, copies) ← expand copies item
    let (items, copies) ← expandItems? expand copies items
    return (item :: items, copies)

/-- Expands the entries of a mapping one after another. -/
def expandEntries? (expand : Nat → Node Nat → Option (Tree × Nat)) :
    (copies : Nat) → List (Node Nat × Node Nat) → Option (List (Tree × Tree) × Nat)
  | copies, [] => some ([], copies)
  | copies, (key, value) :: entries => do
    let (key, copies) ← expand copies key
    let (value, copies) ← expand copies value
    let (entries, copies) ← expandEntries? expand copies entries
    return ((key, value) :: entries, copies)

/-- Replaces aliases by copies, at most `depth` collections deep. -/
def expand? (table : List (Nat × Node Nat)) :
    (depth copies : Nat) → Node Nat → Option (Tree × Nat)
  | depth, copies, node => do
    let (node, copies) ← node.target? table copies
    match depth, node with
    | _, .alias _ => none
    | _, .scalar _ tag text plain => return (.scalar tag text plain, copies)
    | 0, _ => return (.cut, copies)
    | depth + 1, .list _ tag items =>
      let (items, copies) ← expandItems? (expand? table depth) copies items
      return (.list tag items, copies)
    | depth + 1, .dict _ tag entries =>
      let (entries, copies) ← expandEntries? (expand? table depth) copies entries
      return (.dict tag entries, copies)

end Node

/-- How deep collections may be nested. -/
def deepest : Nat := 128

/-- How many copies may be made for each part of a document. -/
def copiesPerPart : Nat := 100

/-- A document with its aliases replaced by copies. -/
def Tree.ofNode? (node : Node String) : Option Tree := do
  let (node, _) ← node.number? []
  let (tree, _) ← node.expand? node.anchored deepest (copiesPerPart * node.parts)
  return tree

/-- The only document in a text. -/
def Tree.ofText? (text : String) : Option Tree :=
  (Node.ofText? text).bind Tree.ofNode?

end Bindery.Yaml
