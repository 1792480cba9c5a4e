/-!
# `Bindery.Yaml.Cursor` — a place in a YAML text

YAML gives meaning to columns and lines, so whatever reads it carries a place: the characters that are
left, and how many characters, lines and columns lie before them.

Five characters end a line: line feed, carriage return (a line feed right after it belongs to it), next
line, line separator and paragraph separator. In the value of a scalar the first three become a line
feed and the separators stay themselves.

**Contents.** `isBreak`, `isGap`, `isWord` and `isAllowed`, classes of characters; `Cursor`, with
look-ahead (`peek?`, `sees`, `seesGap`, `atMarker`) and moves (`skip`, `span`, `lineEnd`).
-/

namespace Bindery.Yaml

/-- A line ends here. -/
def isBreak (c : Char) : Bool :=
  c == '\n' || c == '\r' || c.toNat == 0x85 || c.toNat == 0x2028 || c.toNat == 0x2029

/-- A space or a tab. -/
def isSpace (c : Char) : Bool :=
  c == ' ' || c == '\t'

/-- What separates words: a space, a tab or the end of a line. -/
def isGap (c : Char) : Bool :=
  isSpace c || isBreak c

/-- What names of anchors, directives and tag handles are made of. -/
def isWord (c : Char) : Bool :=
  c.isAlphanum || c == '_' || c == '-'

/-- What may occur in a YAML text: no control characters but tab and the ends of lines. -/
def isAllowed (c : Char) : Bool :=
  c == '\t' || c == '\n' || c == '\r' || (0x20 ≤ c.toNat && c.toNat ≤ 0x7E) || c.toNat == 0x85
    || (0xA0 ≤ c.toNat && c.toNat ≤ 0xD7FF) || (0xE000 ≤ c.toNat && c.toNat ≤ 0xFFFD)
    || 0x10000 ≤ c.toNat

/-- A place in a text. -/
structure Cursor where
  rest : List Char
  /-- characters before this place -/
  index : Nat
  /-- lines before this place -/
  line : Nat
  /-- characters before this place on its line -/
  column : Nat
deriving DecidableEq, Repr

namespace Cursor

/-- The start of a text. -/
def start (text : List Char) : Cursor :=
  ⟨text, 0, 0, 0⟩

/-- The character `n` places further on. -/
def peek? (c : Cursor) (n : Nat) : Option Char :=
  (c.rest.drop n).head?

/-- The next character is `ch`. -/
def sees (c : Cursor) (ch : Char) : Bool :=
  c.peek? 0 == some ch

/-- There is a gap, or the end of the text, `n` places further on. -/
def seesGap (c : Cursor) (n : Nat) : Bool :=
  match c.peek? n with
  | some ch => isGap ch
  | none => true

/-- The next character is in a class. -/
def seesAny (c : Cursor) (p : Char → Bool) : Bool :=
  match c.peek? 0 with
  | some ch => p ch
  | none => false

/-- A line ends here, or the text does. -/
def atLineEnd (c : Cursor) : Bool :=
  c.rest.isEmpty || c.seesAny isBreak

/-- Three dashes or three dots on their own at the start of a line: a document starts or ends here. -/
def atMarker (c : Cursor) : Bool :=
  c.column = 0 && (c.rest.take 3 = ['-', '-', '-'] || c.rest.take 3 = ['.', '.', '.']) && c.seesGap 3

/-- Goes past `n` characters of this line. -/
def skip (c : Cursor) (n : Nat) : Cursor :=
  ⟨c.rest.drop n, c.index + n, c.line, c.column + n⟩

/-- The longest run of characters in a class that does not hold ends of lines, and the place after it. -/
def span (c : Cursor) (p : Char → Bool) : List Char × Cursor :=
  let run := c.rest.takeWhile p
  (run, c.skip run.length)

/-- The place after a run of characters. -/
def skipWhile (c : Cursor) (p : Char → Bool) : Cursor :=
  (c.span p).2

/-- Goes past the end of a line, if there is one here, and gives what it counts as in a scalar. -/
def lineEnd (c : Cursor) : List Char × Cursor :=
  match c.rest with
  | '\r' :: '\n' :: rest => (['\n'], ⟨rest, c.index + 2, c.line + 1, 0⟩)
  | ch :: rest =>
    if isBreak ch then
      let kept := if 0x2028 ≤ ch.toNat then ch else '\n'
      ([kept], ⟨rest, c.index + 1, c.line + 1, 0⟩)
    else ([], c)
  | [] => ([], c)

/-- Goes past spaces and tabs, and past a comment after them. -/
def skipComment (c : Cursor) : Cursor :=
  let c := c.skipWhile isSpace
  if c.sees '#' then c.skipWhile fun ch => !isBreak ch else c

end Cursor

/-- What stands between two words of a scalar that may span lines. -/
structure Gap where
  /-- a line ends in it -/
  broken : Bool
  /-- the spaces and tabs, if no line ends -/
  spaces : List Char
  /-- the first end of a line -/
  first : List Char
  /-- the others -/
  later : List Char
deriving DecidableEq, Repr

namespace Gap

/-- No gap. -/
def none : Gap :=
  ⟨false, [], [], []⟩

/-- The gap after an end of a line that counts for nothing. -/
def escaped : Gap :=
  ⟨true, [], [], []⟩

/-- What a gap counts as: a single line feed becomes a space, of several the first is dropped. -/
def text (gap : Gap) : List Char :=
  if !gap.broken then gap.spaces
  else if gap.first = ['\n'] then (if gap.later.isEmpty then [' '] else gap.later)
  else gap.first ++ gap.later

/-- Reads on through a gap. `margin` is the column that lines must reach before a tab may stand in
them. -/
def readFrom (margin : Int) : (steps : Nat) → Gap → Cursor → Option (Gap × Cursor)
  | 0, gap, c => some (gap, c)
  | steps + 1, gap, c =>
    match c.rest with
    | [] => some (gap, c)
    | ch :: _ =>
      if isSpace ch then
        if gap.broken ∧ ch = '\t' ∧ (c.column : Int) < margin then Option.none
        else if gap.broken then readFrom margin steps gap (c.skip 1)
        else readFrom margin steps { gap with spaces := gap.spaces ++ [ch] } (c.skip 1)
      else if isBreak ch then
        let (kept, c) := c.lineEnd
        if gap.broken then readFrom margin steps { gap with later := gap.later ++ kept } c
        else readFrom margin steps ⟨true, [], kept, []⟩ c
      else some (gap, c)

/-- Reads a gap that goes on from `gap`. -/
def read (margin : Int) (gap : Gap) (c : Cursor) : Option (Gap × Cursor) :=
  readFrom margin c.rest.length gap c

end Gap

end Bindery.Yaml
