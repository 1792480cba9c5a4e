import Bindery.Yaml.Cursor

/-!
# `Bindery.Yaml.BlockText` — literal and folded scalars

A scalar that `|` or `>` introduces is made of the indented lines below. The head line may say how far
they are indented and what becomes of the line feeds at the end; without a number, the first line that
is not blank sets the indentation. In a folded scalar a single end of a line between two lines that do
not start with a space counts as a space.

**Contents.** `Tail`, what becomes of the end; `readHead?`; `readEmptyLines?`; `readBlockText?`.
-/

namespace Bindery.Yaml

/-- What becomes of the line feeds at the end of a block scalar. -/
inductive Tail where
  /-- all are dropped -/
  | strip
  /-- the first one stays -/
  | clip
  /-- all stay -/
  | keep
deriving DecidableEq, Repr

/-- What a sign in the head says about the end. -/
def Tail.ofSign? (c : Char) : Option Tail :=
  if c = '+' then some .keep else if c = '-' then some .strip else none

/-- The sign in the head of a block scalar, if there is one. -/
def readSign (c : Cursor) : Option Tail × Cursor :=
  match (c.peek? 0).bind Tail.ofSign? with
  | some tail => (some tail, c.skip 1)
  | none => (none, c)

/-- The digit in the head of a block scalar, if there is one; it must not be zero. -/
def readDigit? (c : Cursor) : Option (Nat × Cursor) :=
  match c.peek? 0 with
  | some ch =>
    if ch = '0' then none
    else if ch.isDigit then some (ch.toNat - '0'.toNat, c.skip 1)
    else some (0, c)
  | none => some (0, c)

/-- The head line: the end's fate, the indentation (zero if it is not given), and the place below. -/
def readHead? (c : Cursor) : Option (Tail × Nat × Cursor) := do
  let (before, c) := readSign (c.skip 1)
  let (digit, c) ← readDigit? c
  let (sign, c) := if before.isNone ∧ digit ≠ 0 then readSign c else (before, c)
  let c := c.skipComment
  if c.atLineEnd then return (sign.getD .clip, digit, c.lineEnd.2) else none

/-- Reads empty lines and the indentation of the next line. `indent` is zero while it is not known;
`widest` is the widest indentation so far. -/
def emptyLinesFrom? (indent : Nat) :
    (steps : Nat) → (widest : Nat) → Cursor → Option (List Char × Nat × Cursor)
  | 0, widest, c => some ([], widest, c)
  | steps + 1, widest, c =>
    let spaces := c.rest.takeWhile (· == ' ')
    let c := c.skip (if indent = 0 then spaces.length else min spaces.length (indent - c.column))
    let widest := max widest c.column
    if (indent = 0 ∨ c.column < indent) ∧ c.sees '\t' then none
    else if c.seesAny isBreak then do
      let (kept, c) := c.lineEnd
      let (more, widest, c) ← emptyLinesFrom? indent steps widest c
      return (kept ++ more, widest, c)
    else some ([], widest, c)

/-- Reads empty lines, and settles the indentation if it is not known: more than that of the collection
around the scalar. -/
def readEmptyLines? (indent : Nat) (around : Int) (c : Cursor) : Option (List Char × Nat × Cursor) := do
  let (lines, widest, c) ← emptyLinesFrom? indent (c.rest.length + 1) 0 c
  let settled := if indent = 0 then max (max widest (around + 1).toNat) 1 else indent
  return (lines, settled, c)

/-- What stands between two lines of a block scalar: the end of the first and the empty lines after
it. -/
def between (folded : Bool) (ending : List Char) (empty : List Char) (spaced : Bool) : List Char :=
  if folded ∧ ending = ['\n'] ∧ !spaced then (if empty.isEmpty then [' '] else empty)
  else ending ++ empty

/-- Reads the lines of a block scalar. `ending` and `empty` are the end of the line before and the empty
lines after it, `spaced` tells whether that line starts with a space. -/
def blockLines? (folded : Bool) (tail : Tail) (indent : Nat) :
    (steps : Nat) → (ending empty : List Char) → (spaced : Bool) → Cursor →
      Option (List Char × Cursor)
  | 0, _, _, _, _ => none
  | steps + 1, ending, empty, spaced, c =>
    if c.column = indent ∧ !c.rest.isEmpty then do
      let spacedHere := c.seesAny isSpace
      let gap := between folded ending empty (spaced || spacedHere)
      let (line, c) := c.span fun ch => !isBreak ch
      let (endingHere, c) := c.lineEnd
      let (emptyHere, _, c) ← readEmptyLines? indent 0 c
      let (more, c) ← blockLines? folded tail indent steps endingHere emptyHere spacedHere c
      return (gap ++ line ++ more, c)
    else
      match tail with
      | .strip => some ([], c)
      | .clip => some (ending, c)
      | .keep => some (ending ++ empty, c)

/-- A block scalar in a collection at column `around`, from its indicator on. -/
def readBlockText? (around : Int) (c : Cursor) : Option (String × Cursor) := do
  let folded := c.sees '>'
  let (tail, digit, c) ← readHead? c
  let indent := if digit = 0 then 0 else (max around 0).toNat + digit
  let (empty, indent, c) ← readEmptyLines? indent around c
  let (text, c) ← blockLines? folded tail indent (c.rest.length + 1) [] empty false c
  return (String.ofList text, c)

end Bindery.Yaml
