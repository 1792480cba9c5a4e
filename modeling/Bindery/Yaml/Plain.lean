import Bindery.Yaml.Cursor

/-!
# `Bindery.Yaml.Plain` — plain scalars

A plain scalar has no quotes. It ends before a colon with a gap after it, before a comment, before a
document marker and, between brackets, before a comma or a bracket. Outside of brackets it also ends
before a line that is not indented further than the collection around it.

**Contents.** `plainWord?`, the part up to a gap; `readPlain?`.
-/

namespace Bindery.Yaml

/-- A comma or a bracket. -/
def isFlowMark (c : Char) : Bool :=
  c == ',' || c == '[' || c == ']' || c == '\x7b' || c == '\x7d'

/-- The characters of a plain scalar up to a gap or to its end. Between brackets a colon may not stand
right before a bracket, a comma or a question mark. -/
def plainWord? (flow : Bool) : (steps : Nat) → Cursor → Option (List Char × Cursor)
  | 0, c => some ([], c)
  | steps + 1, c =>
    match c.rest with
    | [] => some ([], c)
    | ch :: _ =>
      if isGap ch then some ([], c)
      else if flow ∧ ch = ':' ∧ (c.skip 1).seesAny (fun next => isFlowMark next || next == '?') then none
      else if (ch = ':' ∧ c.seesGap 1) ∨ (flow ∧ isFlowMark ch) then some ([], c)
      else do
        let (more, c) ← plainWord? flow steps (c.skip 1)
        return (ch :: more, c)

/-- Reads on in a plain scalar after `gap`, which counts only if a word follows. Besides the text it
tells whether a line has ended since the last word. -/
def plainFrom? (flow : Bool) (margin : Int) :
    (steps : Nat) → (gap : Gap) → Cursor → Option (List Char × Bool × Cursor)
  | 0, gap, c => some ([], gap.broken, c)
  | steps + 1, gap, c =>
    if c.atMarker || c.sees '#' then some ([], gap.broken, c)
    else do
      let (word, c) ← plainWord? flow c.rest.length c
      let text := if word.isEmpty then [] else gap.text ++ word
      let broken := if word.isEmpty then gap.broken else false
      if !c.seesAny isGap then return (text, broken, c)
      let (next, c) ← Gap.none.read margin c
      if !flow ∧ (c.column : Int) < margin then return (text, next.broken, c)
      let (more, broken, c) ← plainFrom? flow margin steps next c
      return (text ++ more, broken, c)

/-- A plain scalar in a collection at column `indent`: its text, whether a line has ended after it, and
the place after it. -/
def readPlain? (flow : Bool) (indent : Int) (c : Cursor) : Option (String × Bool × Cursor) :=
  (plainFrom? flow (indent + 1) (c.rest.length + 1) Gap.none c).map fun (text, broken, c) =>
    (String.ofList text, broken, c)

end Bindery.Yaml
