import Bindery.Yaml.Layout

/-!
# `Bindery.Yaml.Node` — documents as trees of nodes

A document is one node: a scalar, a list, a mapping, or an alias that refers to a node with an anchor.
A tag may stand in front of any node but an alias, and is kept with its handle spelled out.

    node     ::= alias | properties? content | properties
    content  ::= scalar | '[' … ']' | '{' … '}' | blockSequence (- node?)* blockEnd
               | blockMapping (key node? (value node?)?)* blockEnd

A stream holds at most one document here; a second one is an error, and without any the stream stands
for an empty scalar.

**Contents.** `Node`, over a type of anchors; `Handles`, the shorthands that directives introduce;
`readNode?` with one reader per kind of collection; `Node.ofText?`.
-/

namespace Bindery.Yaml

/-- A node of a document. -/
inductive Node (α : Type) where
  | alias (anchor : α)
  | scalar (anchor : Option α) (tag : Option String) (text : String) (plain : Bool)
  | list (anchor : Option α) (tag : Option String) (items : List (Node α))
  | dict (anchor : Option α) (tag : Option String) (entries : List (Node α × Node α))
deriving Repr

/-- A scalar without text, as it stands where a node is left out. -/
def Node.blank {α : Type} : Node α :=
  .scalar none none "" true

/-- What tag handles stand for. -/
abbrev Handles := List (String × String)

/-- The handles that need no directive. -/
def Handles.standard : Handles :=
  [("!", "!"), ("!!", "tag:yaml.org,2002:")]

/-- A tag with its handle spelled out; nothing if the handle is unknown. -/
def Handles.spell? (handles : Handles) (handle suffix : String) : Option String :=
  if handle = "" then some suffix else (handles.lookup handle).map (· ++ suffix)

/-- What stands in front of a node: an anchor and a tag, in either order. -/
structure Properties where
  anchor : Option String
  tag : Option String

/-- Reads the properties of a node. -/
def readProperties? (handles : Handles) : List Token → Option (Properties × List Token)
  | .anchor name :: .tag handle suffix :: rest | .tag handle suffix :: .anchor name :: rest => do
    return (⟨some name, some (← handles.spell? handle suffix)⟩, rest)
  | .anchor name :: rest => some (⟨some name, none⟩, rest)
  | .tag handle suffix :: rest => do return (⟨none, some (← handles.spell? handle suffix)⟩, rest)
  | rest => some (⟨none, none⟩, rest)

/-- A scalar with its properties; the tag `!` on it says nothing. -/
def Node.ofScalar (properties : Properties) (text : String) (plain : Bool) : Node String :=
  .scalar properties.anchor (if properties.tag = some "!" then none else properties.tag) text plain

/-- The next token ends an item of a block collection that has been left out. -/
def endsBlockItem : List Token → Bool
  | .blockEntry :: _ | .key :: _ | .value :: _ | .blockEnd :: _ => true
  | _ => false

/-- The next token ends a key or value of a block mapping that has been left out. -/
def endsBlockPart : List Token → Bool
  | .key :: _ | .value :: _ | .blockEnd :: _ => true
  | _ => false

/-- The next token ends a key between brackets that has been left out. -/
def endsFlowKey (closing : Token) : List Token → Bool
  | .value :: _ | .flowEntry :: _ => true
  | token :: _ => token = closing
  | [] => false

/-- The next token ends a value between brackets that has been left out. -/
def endsFlowValue (closing : Token) : List Token → Bool
  | .flowEntry :: _ => true
  | token :: _ => token = closing
  | [] => false

mutual

/-- Reads a node. `block` is set where a block collection may stand, `bare` where the items of a list
may stand at the column of the mapping around it. -/
def readNode? (handles : Handles) :
    (steps : Nat) → (block bare : Bool) → List Token → Option (Node String × List Token)
  | 0, _, _, _ => none
  | _ + 1, _, _, .alias name :: rest => some (.alias name, rest)
  | steps + 1, block, bare, tokens => do
    let (properties, tokens) ← readProperties? handles tokens
    let ⟨anchor, tag⟩ := properties
    match tokens, block, bare with
    | .blockEntry :: _, _, true =>
      let (items, rest) ← readBareItems? handles steps tokens
      return (.list anchor tag items, rest)
    | .scalar text plain :: rest, _, _ => return (.ofScalar properties text plain, rest)
    | .flowSequence :: rest, _, _ =>
      let (items, rest) ← readFlowItems? handles steps true rest
      return (.list anchor tag items, rest)
    | .flowMapping :: rest, _, _ =>
      let (entries, rest) ← readFlowEntries? handles steps true rest
      return (.dict anchor tag entries, rest)
    | .blockSequence :: rest, true, _ =>
      let (items, rest) ← readBlockItems? handles steps rest
      return (.list anchor tag items, rest)
    | .blockMapping :: rest, true, _ =>
      let (entries, rest) ← readBlockEntries? handles steps rest
      return (.dict anchor tag entries, rest)
    | _, _, _ =>
      if anchor.isNone ∧ tag.isNone then none else return (.scalar anchor tag "" true, tokens)

/-- Reads the items of a block sequence and its end. -/
def readBlockItems? (handles : Handles) :
    (steps : Nat) → List Token → Option (List (Node String) × List Token)
  | 0, _ => none
  | _ + 1, .blockEnd :: rest => some ([], rest)
  | steps + 1, .blockEntry :: rest => do
    let left := match rest with
      | .blockEntry :: _ | .blockEnd :: _ => true
      | _ => false
    let (item, rest) ← if left then some (.blank, rest) else readNode? handles steps true false rest
    let (items, rest) ← readBlockItems? handles steps rest
    return (item :: items, rest)
  | _ + 1, _ => none

/-- Reads the items of a block sequence that has no tokens around it. -/
def readBareItems? (handles : Handles) :
    (steps : Nat) → List Token → Option (List (Node String) × List Token)
  | 0, _ => none
  | steps + 1, .blockEntry :: rest => do
    let (item, rest) ←
      if endsBlockItem rest then some (.blank, rest) else readNode? handles steps true false rest
    let (items, rest) ← readBareItems? handles steps rest
    return (item :: items, rest)
  | _ + 1, rest => some ([], rest)

/-- Reads the entries of a block mapping and its end. -/
def readBlockEntries? (handles : Handles) :
    (steps : Nat) → List Token → Option (List (Node String × Node String) × List Token)
  | 0, _ => none
  | _ + 1, .blockEnd :: rest => some ([], rest)
  | steps + 1, .key :: rest => do
    let (key, rest) ←
      if endsBlockPart rest then some (.blank, rest) else readNode? handles steps true true rest
    let (value, rest) ←
      match rest with
      | .value :: rest =>
        if endsBlockPart rest then some (.blank, rest) else readNode? handles steps true true rest
      | _ => some (.blank, rest)
    let (entries, rest) ← readBlockEntries? handles steps rest
    return ((key, value) :: entries, rest)
  | _ + 1, _ => none

/-- Reads the items between square brackets and the closing one. An item may be a single entry of a
mapping without braces. -/
def readFlowItems? (handles : Handles) :
    (steps : Nat) → (first : Bool) → List Token → Option (List (Node String) × List Token)
  | 0, _, _ => none
  | _ + 1, _, .flowSequenceEnd :: rest => some ([], rest)
  | steps + 1, first, tokens => do
    let tokens ←
      match first, tokens with
      | true, _ => some tokens
      | false, .flowEntry :: rest => some rest
      | false, _ => none
    match tokens with
    | .flowSequenceEnd :: rest => return ([], rest)
    | .key :: rest =>
      let (key, rest) ←
        if endsFlowKey .flowSequenceEnd rest then some (.blank, rest.tail)
        else readNode? handles steps false false rest
      let (value, rest) ←
        match rest with
        | .value :: rest =>
          if endsFlowValue .flowSequenceEnd rest then some (.blank, rest)
          else readNode? handles steps false false rest
        | _ => some (.blank, rest)
      let (items, rest) ← readFlowItems? handles steps false rest
      return (.dict none none [(key, value)] :: items, rest)
    | _ =>
      let (item, rest) ← readNode? handles steps false false tokens
      let (items, rest) ← readFlowItems? handles steps false rest
      return (item :: items, rest)

/-- Reads the entries between braces and the closing one. -/
def readFlowEntries? (handles : Handles) :
    (steps : Nat) → (first : Bool) → List Token →
      Option (List (Node String × Node String) × List Token)
  | 0, _, _ => none
  | _ + 1, _, .flowMappingEnd :: rest => some ([], rest)
  | steps + 1, first, tokens => do
    let tokens ←
      match first, tokens with
      | true, _ => some tokens
      | false, .flowEntry :: rest => some rest
      | false, _ => none
    match tokens with
    | .flowMappingEnd :: rest => return ([], rest)
    | .key :: rest =>
      let (key, rest) ←
        if endsFlowKey .flowMappingEnd rest then some (.blank, rest)
        else readNode? handles steps false false rest
      let (value, rest) ←
        match rest with
        | .value :: rest =>
          if endsFlowValue .flowMappingEnd rest then some (.blank, rest)
          else readNode? handles steps false false rest
        | _ => some (.blank, rest)
      let (entries, rest) ← readFlowEntries? handles steps false rest
      return ((key, value) :: entries, rest)
    | _ =>
      let (key, rest) ← readNode? handles steps false false tokens
      let (entries, rest) ← readFlowEntries? handles steps false rest
      return ((key, .blank) :: entries, rest)

end

/-! ## Documents -/

/-- The directives at the head of a document: the version, which has to be 1.1 or 1.2, and handles,
each at most once. -/
def readDirectives? : (versioned : Bool) → Handles → List Token → Option (Handles × List Token)
  | versioned, handles, .version major minor :: rest =>
    if versioned ∨ major ≠ 1 ∨ (minor ≠ 1 ∧ minor ≠ 2) then none
    else readDirectives? true handles rest
  | versioned, handles, .shorthand handle expansion :: rest =>
    if (handles.lookup handle).isSome then none
    else readDirectives? versioned (handles ++ [(handle, expansion)]) rest
  | _, handles, rest => some (handles ++ .standard, rest)

/-- Only ends of documents are left. -/
def onlyEnds : List Token → Bool
  | [.streamEnd] => true
  | .documentEnd :: rest => onlyEnds rest
  | _ => false

/-- The next token ends a document that holds nothing. -/
def endsDocument : List Token → Bool
  | .version .. :: _ | .shorthand .. :: _ | .documentStart :: _ | .documentEnd :: _
  | .streamEnd :: _ => true
  | _ => false

/-- The node of the only document of a stream. -/
def Node.ofTokens? (tokens : List Token) : Option (Node String) := do
  let steps := 2 * tokens.length + 4
  let (node, rest) ←
    match tokens with
    | [.streamEnd] => some (Node.blank, tokens)
    | .version .. :: _ | .shorthand .. :: _ | .documentStart :: _ => do
      let (handles, rest) ← readDirectives? false [] tokens
      match rest with
      | .documentStart :: rest =>
        if endsDocument rest then some (.blank, rest) else readNode? handles steps true false rest
      | _ => none
    | _ => readNode? .standard steps true false tokens
  if onlyEnds rest then return node else none

/-- The node of the only document in a text. -/
def Node.ofText? (text : String) : Option (Node String) :=
  (tokens? text).bind Node.ofTokens?

end Bindery.Yaml
