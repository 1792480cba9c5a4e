import Bindery.Yaml.Name

/-!
# `Bindery.Yaml.Quoted` — scalars in quotes

Between single quotes a quote is written twice and all else stands for itself. Between double quotes a
backslash starts an escape; before the end of a line it joins the lines. Either kind may span lines,
which are folded, and neither may run over a document marker.

**Contents.** `escape?`, the escapes; `quotedWord?`, the part up to a gap or the quote; `readQuoted?`.
-/

namespace Bindery.Yaml

/-- A character by its number, if there is one. -/
def charOf? (n : Nat) : Option Char :=
  if h : n.isValidChar then some (Char.ofNatAux n h) else none

/-- What stands for itself or another character after a backslash. -/
def simpleEscape? (c : Char) : Option Nat :=
  [('0', 0x00), ('a', 0x07), ('b', 0x08), ('t', 0x09), ('\t', 0x09), ('n', 0x0A), ('v', 0x0B),
    ('f', 0x0C), ('r', 0x0D), ('e', 0x1B), (' ', 0x20), ('"', 0x22), ('/', 0x2F), ('\\', 0x5C),
    ('N', 0x85), ('_', 0xA0), ('L', 0x2028), ('P', 0x2029)].lookup c

/-- How many hexadecimal digits follow a letter after a backslash. -/
def escapeWidth? (c : Char) : Option Nat :=
  [('x', 2), ('u', 4), ('U', 8)].lookup c

/-- The character that an escape stands for, and how long the escape is after its backslash. -/
def escape? : List Char → Option (Char × Nat)
  | [] => none
  | letter :: rest =>
    match simpleEscape? letter with
    | some n => (charOf? n).map (·, 1)
    | none => do
      let width ← escapeWidth? letter
      let n ← hexNumber? width 0 rest
      return (← charOf? n, width + 1)

/-- The part of a quoted scalar up to a gap, the closing quote or a joined line; the flag is set for
the last of these. -/
def quotedWord? (quote : Char) : (steps : Nat) → Cursor → Option (List Char × Bool × Cursor)
  | 0, c => some ([], false, c)
  | steps + 1, c =>
    match c.rest with
    | [] => some ([], false, c)
    | ch :: rest =>
      let goOn (ch : Char) (width : Nat) : Option (List Char × Bool × Cursor) := do
        let (more, joined, c) ← quotedWord? quote steps (c.skip width)
        return (ch :: more, joined, c)
      if isGap ch then some ([], false, c)
      else if quote = '\'' ∧ ch = '\'' ∧ rest.head? = some '\'' then goOn '\'' 2
      else if ch = quote then some ([], false, c)
      else if quote = '"' ∧ ch = '\\' then
        if (c.skip 1).seesAny isBreak then some ([], true, (c.skip 1).lineEnd.2)
        else do
          let (decoded, width) ← escape? rest
          goOn decoded (width + 1)
      else goOn ch 1

/-- Reads a quoted scalar up to its closing quote. -/
def quotedFrom? (quote : Char) : (steps : Nat) → Cursor → Option (List Char × Cursor)
  | 0, _ => none
  | steps + 1, c =>
    if c.atMarker || c.rest.isEmpty then none
    else do
      let (word, joined, c) ← quotedWord? quote c.rest.length c
      if c.sees quote then return (word, c.skip 1)
      let (gap, c) ← (if joined then Gap.escaped else Gap.none).read 0 c
      let (more, c) ← quotedFrom? quote steps c
      return (word ++ gap.text ++ more, c)

/-- A scalar in quotes, from its opening quote on. -/
def readQuoted? (c : Cursor) : Option (String × Cursor) := do
  let quote ← c.peek? 0
  let (text, c) ← quotedFrom? quote c.rest.length (c.skip 1)
  return (String.ofList text, c)

end Bindery.Yaml
