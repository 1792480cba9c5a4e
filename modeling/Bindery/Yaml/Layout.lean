import Bindery.Yaml.BlockText
import Bindery.Yaml.Plain
import Bindery.Yaml.Quoted

/-!
# `Bindery.Yaml.Layout` — from text to tokens

Columns decide where a block collection opens and closes: a column further right than the innermost one
opens a collection, and each open column further right than the current place closes one.

Whether a scalar, an alias or a bracketed collection is the key of a mapping entry is known only when a
colon follows. So its place is kept as a candidate, one for each level of brackets, and the colon puts
the `key` token there. A candidate lasts to the end of its line and for at most 1024 characters. One
that stands at the column of its block mapping has to become a key.

**Contents.** `Candidate`; `Layout`, the state of the reading; the steps on it (`settle?`, `closeTo`,
`openAt`, `offer?`, `withdraw?`); one reader per kind of token; `tokens?`, all tokens of a text.
-/

namespace Bindery.Yaml

/-- A place that becomes a key if a colon follows. -/
structure Candidate where
  /-- it has to become a key -/
  required : Bool
  /-- how many tokens stand before it -/
  number : Nat
  place : Cursor
deriving Repr

/-- How far a text has been read. -/
structure Layout where
  cursor : Cursor
  tokens : Array Token
  /-- the column of the innermost block collection, -1 outside of all -/
  indent : Int
  /-- the columns of the others, from the inside out -/
  outer : List Int
  /-- the candidate outside of all brackets -/
  base : Option Candidate
  /-- the candidates inside of brackets, the innermost level first -/
  levels : List (Option Candidate)
  /-- a candidate may stand here -/
  keyAllowed : Bool

namespace Layout

/-- The start of a text. -/
def start (text : List Char) : Layout :=
  ⟨.start text, #[], -1, [], none, [], true⟩

/-- Some bracket is open. -/
def inFlow (s : Layout) : Bool :=
  !s.levels.isEmpty

/-- The candidate at the current level of brackets. -/
def candidate? (s : Layout) : Option Candidate :=
  match s.levels with
  | [] => s.base
  | level :: _ => level

/-- Replaces the candidate at the current level. -/
def setCandidate (s : Layout) (candidate : Option Candidate) : Layout :=
  match s.levels with
  | [] => { s with base := candidate }
  | _ :: levels => { s with levels := candidate :: levels }

/-- Adds a token at the end. -/
def push (s : Layout) (token : Token) : Layout :=
  { s with tokens := s.tokens.push token }

/-- Moves on. -/
def moveTo (s : Layout) (cursor : Cursor) : Layout :=
  { s with cursor }

/-- Says whether a candidate may stand at the next place. -/
def allow (s : Layout) (keyAllowed : Bool) : Layout :=
  { s with keyAllowed }

/-! ## Candidates and columns -/

/-- A candidate that is too far behind is dropped; that is an error if it had to become a key. -/
def age? (here : Cursor) : Option Candidate → Option (Option Candidate)
  | none => some none
  | some candidate =>
    if candidate.place.line < here.line ∨ candidate.place.index + 1024 < here.index then
      if candidate.required then none else some none
    else some (some candidate)

/-- Drops the candidates that are too far behind. -/
def settle? (s : Layout) : Option Layout := do
  let base ← age? s.cursor s.base
  let levels ← s.levels.mapM (age? s.cursor)
  return { s with base, levels }

/-- Drops the candidate at the current level; that is an error if it had to become a key. -/
def withdraw? (s : Layout) : Option Layout :=
  match s.candidate? with
  | some candidate => if candidate.required then none else some (s.setCandidate none)
  | none => some s

/-- Makes the current place a candidate, if one may stand here. -/
def offer? (s : Layout) : Option Layout :=
  if !s.keyAllowed then some s
  else
    let required := !s.inFlow && s.indent == s.cursor.column
    (s.withdraw?).map (·.setCandidate (some ⟨required, s.tokens.size, s.cursor⟩))

/-- Closes the block collections further right than a column. -/
def closeTo (column : Int) (s : Layout) : Layout :=
  if s.inFlow then s
  else
    let closed := (s.indent :: s.outer).takeWhile (column < ·)
    match (s.indent :: s.outer).dropWhile (column < ·) with
    | [] => s
    | indent :: outer =>
      { s with indent, outer, tokens := s.tokens ++ Array.replicate closed.length Token.blockEnd }

/-- Opens a block collection at a column further right than the innermost one, with its token in front
of token `number`. -/
def openAt (column number : Nat) (opening : Token) (s : Layout) : Layout :=
  if s.inFlow ∨ ↑column ≤ s.indent then s
  else
    { s with
      indent := column, outer := s.indent :: s.outer,
      tokens := s.tokens.insertIdxIfInBounds number opening }

/-- Opens a block collection at the current place, where a candidate must be allowed. -/
def openHere? (opening : Token) (s : Layout) : Option Layout :=
  if s.inFlow then some s
  else if s.keyAllowed then some (s.openAt s.cursor.column s.tokens.size opening)
  else none

/-- Closes everything before a directive, a document marker or the end. -/
def finish? (s : Layout) : Option Layout :=
  ((s.closeTo (-1)).withdraw?).map (·.allow false)

/-! ## Tokens -/

/-- Goes past gaps and comments. At the start of a block line a tab is no gap. -/
def skipGaps : (steps : Nat) → Layout → Layout
  | 0, s => s
  | steps + 1, s =>
    let start := s.cursor
    let c := if start.index = 0 ∧ start.sees (Char.ofNat 0xFEFF) then start.skip 1 else start
    let c := c.skipWhile fun ch => ch == ' ' || (ch == '\t' && (s.inFlow || !s.keyAllowed))
    let c := if c.sees '#' then c.skipWhile fun ch => !isBreak ch else c
    if c.seesAny isBreak then
      skipGaps steps ((s.moveTo c.lineEnd.2).allow (s.keyAllowed || !s.inFlow))
    else s.moveTo c

/-- The end of the text. -/
def readEnd? (s : Layout) : Option Layout :=
  (s.finish?).map (·.push .streamEnd)

/-- A directive. -/
def readDirective? (s : Layout) : Option Layout := do
  let s ← s.finish?
  let (token, c) ← Yaml.readDirective? s.cursor
  return (s.push token).moveTo c

/-- A document marker. -/
def readMarker? (s : Layout) : Option Layout := do
  let token := if s.cursor.sees '-' then Token.documentStart else Token.documentEnd
  let s ← s.finish?
  return (s.push token).moveTo (s.cursor.skip 3)

/-- An opening bracket. -/
def readOpening? (token : Token) (s : Layout) : Option Layout := do
  let s ← s.offer?
  return ({ s with levels := none :: s.levels }.push token |>.allow true).moveTo (s.cursor.skip 1)

/-- A closing bracket. -/
def readClosing? (token : Token) (s : Layout) : Option Layout := do
  let s ← s.withdraw?
  return ({ s with levels := s.levels.tail }.push token |>.allow false).moveTo (s.cursor.skip 1)

/-- A comma between brackets. -/
def readComma? (s : Layout) : Option Layout := do
  let s ← s.withdraw?
  return ((s.push .flowEntry).allow true).moveTo (s.cursor.skip 1)

/-- The dash in front of an item. -/
def readDash? (s : Layout) : Option Layout := do
  let s ← s.openHere? .blockSequence
  let s ← s.withdraw?
  return ((s.push .blockEntry).allow true).moveTo (s.cursor.skip 1)

/-- The question mark in front of a key. -/
def readQuestion? (s : Layout) : Option Layout := do
  let s ← s.openHere? .blockMapping
  let s ← s.withdraw?
  return ((s.push .key).allow !s.inFlow).moveTo (s.cursor.skip 1)

/-- The colon in front of a value, which turns a candidate into a key. -/
def readColon? (s : Layout) : Option Layout := do
  let s ←
    match s.candidate? with
    | some candidate =>
      let s := { s with tokens := s.tokens.insertIdxIfInBounds candidate.number .key }
      let s := s.openAt candidate.place.column candidate.number .blockMapping
      some ((s.setCandidate none).allow false)
    | none => (s.openHere? .blockMapping).map (·.allow !s.inFlow)
  return (s.push .value).moveTo (s.cursor.skip 1)

/-- An anchor or an alias. -/
def readNamed? (token : String → Token) (s : Layout) : Option Layout := do
  let s ← s.offer?
  let (name, c) ← readName? s.cursor
  return ((s.push (token name)).allow false).moveTo c

/-- A tag. -/
def readTag? (s : Layout) : Option Layout := do
  let s ← s.offer?
  let (token, c) ← Yaml.readTag? s.inFlow s.cursor
  return ((s.push token).allow false).moveTo c

/-- A literal or folded scalar. -/
def readBlockText? (s : Layout) : Option Layout := do
  let s ← s.withdraw?
  let (text, c) ← Yaml.readBlockText? s.indent s.cursor
  return ((s.push (.scalar text false)).allow true).moveTo c

/-- A scalar in quotes. -/
def readQuoted? (s : Layout) : Option Layout := do
  let s ← s.offer?
  let (text, c) ← Yaml.readQuoted? s.cursor
  return ((s.push (.scalar text false)).allow false).moveTo c

/-- A plain scalar. -/
def readPlain? (s : Layout) : Option Layout := do
  let s ← s.offer?
  let (text, broken, c) ← Yaml.readPlain? s.inFlow s.indent s.cursor
  return ((s.push (.scalar text true)).allow broken).moveTo c

/-- A character that means something at the start of a token. -/
def isIndicator (c : Char) : Bool :=
  "-?:,[]\x7b\x7d#&*!|>'\"%@`".toList.contains c

/-- A plain scalar starts here. -/
def atPlain (s : Layout) : Bool :=
  match s.cursor.peek? 0 with
  | none => false
  | some ch =>
    !(isGap ch || isIndicator ch)
      || (ch = '-' && !(s.cursor.skip 1).seesAny isSpace)
      || (!s.inFlow && (ch = '?' || ch = ':') && !s.cursor.seesGap 1)

/-- The token at the current place; `ch` is the character there. -/
def readAt? (s : Layout) (ch : Char) : Option Layout :=
  let alone := s.cursor.seesGap 1
  if s.cursor.column = 0 ∧ ch = '%' then s.readDirective?
  else if s.cursor.atMarker then s.readMarker?
  else if ch = '[' then s.readOpening? .flowSequence
  else if ch = '\x7b' then s.readOpening? .flowMapping
  else if ch = ']' then s.readClosing? .flowSequenceEnd
  else if ch = '\x7d' then s.readClosing? .flowMappingEnd
  else if ch = ',' then s.readComma?
  else if ch = '-' ∧ alone then s.readDash?
  else if ch = '?' ∧ (s.inFlow ∨ alone) then s.readQuestion?
  else if ch = ':' ∧ (s.inFlow ∨ alone) then s.readColon?
  else if ch = '*' then s.readNamed? .alias
  else if ch = '&' then s.readNamed? .anchor
  else if ch = '!' then s.readTag?
  else if (ch = '|' ∨ ch = '>') ∧ !s.inFlow then s.readBlockText?
  else if ch = '\'' ∨ ch = '"' then s.readQuoted?
  else if s.atPlain then s.readPlain?
  else none

/-- Reads on to the end of the text. -/
def readAll? : (steps : Nat) → Layout → Option Layout
  | 0, _ => none
  | steps + 1, s => do
    let s ← (s.skipGaps (s.cursor.rest.length + 1)).settle?
    let s := s.closeTo s.cursor.column
    match s.cursor.peek? 0 with
    | none => s.readEnd?
    | some ch =>
      let s ← s.readAt? ch
      readAll? steps s

end Layout

/-- The tokens of a text, if it is made of tokens. -/
def tokens? (text : String) : Option (List Token) :=
  if text.toList.all isAllowed then
    ((Layout.start text.toList).readAll? (text.toList.length + 1)).map (·.tokens.toList)
  else none

end Bindery.Yaml
