import Bindery.Yaml.Cursor
import Bindery.Yaml.Token

/-!
# `Bindery.Yaml.Name` — anchors, tags and directives

The tokens that are made of names: `&anchor` and `*alias`, `!tag` in its spellings, and the directives
`%YAML` and `%TAG` at the head of a document.

**Contents.** `readName?` for anchors and aliases; `readUri?`, `readTag?`; `readDirective?`.
-/

namespace Bindery.Yaml

/-- The name after `&` or `*`. -/
def readName? (c : Cursor) : Option (String × Cursor) :=
  let (name, c) := (c.skip 1).span isWord
  if name.isEmpty then none
  else if c.seesGap 0 || c.seesAny ("?:,]\x7d%@`".toList.contains ·) then some (String.ofList name, c)
  else none

/-! ## Tags -/

/-- The value of a hexadecimal digit. -/
def hexValue? (c : Char) : Option Nat :=
  if c.isDigit then some (c.toNat - '0'.toNat)
  else if 'a' ≤ c ∧ c ≤ 'f' then some (c.toNat - 'a'.toNat + 10)
  else if 'A' ≤ c ∧ c ≤ 'F' then some (c.toNat - 'A'.toNat + 10)
  else none

/-- The value of `n` hexadecimal digits. -/
def hexNumber? : (n : Nat) → (value : Nat) → List Char → Option Nat
  | 0, value, _ => some value
  | n + 1, value, c :: rest => (hexValue? c).bind fun digit => hexNumber? n (16 * value + digit) rest
  | _ + 1, _, [] => none

/-- The byte that a percent sign and two digits stand for. -/
def escapedByte? : List Char → Option Nat
  | '%' :: rest => hexNumber? 2 0 rest
  | _ => none

/-- The bytes after the first one of an escaped character. -/
def laterBytes? : (n : Nat) → List Char → Option (List UInt8)
  | 0, _ => some []
  | n + 1, rest => do
    let byte ← escapedByte? rest
    if byte / 64 ≠ 2 then none
    let bytes ← laterBytes? n (rest.drop 3)
    return byte.toUInt8 :: bytes

/-- The character that escaped bytes stand for, and how many bytes they are. -/
def escapedChar? (text : List Char) : Option (Char × Nat) := do
  let byte ← escapedByte? text
  let width ←
    if byte < 0x80 then some 1
    else if byte / 32 = 6 then some 2
    else if byte / 16 = 14 then some 3
    else if byte / 8 = 30 then some 4
    else none
  let bytes ← laterBytes? (width - 1) (text.drop 3)
  let decoded := (String.fromUTF8? ⟨(byte.toUInt8 :: bytes).toArray⟩).bind (·.toList.head?)
  return (decoded.getD (Char.ofNat 0xFFFD), width)

/-- What a tag is made of, apart from names. -/
def isUriMark (c : Char) : Bool :=
  ";/?:@&=+$.!~*'()".toList.contains c

/-- The characters of a tag; commas and brackets count when it stands between angle brackets or in a
directive. -/
def readUri? (wide : Bool) : (steps : Nat) → Cursor → Option (List Char × Cursor)
  | 0, c => some ([], c)
  | steps + 1, c =>
    match c.rest with
    | [] => some ([], c)
    | ch :: _ =>
      if ch = '%' then do
        let (decoded, width) ← escapedChar? c.rest
        let (more, c) ← readUri? wide steps (c.skip (3 * width))
        return (decoded :: more, c)
      else if isWord ch || isUriMark ch || (wide && (ch = ',' || ch = '[' || ch = ']')) then do
        let (more, c) ← readUri? wide steps (c.skip 1)
        return (ch :: more, c)
      else some ([], c)

/-- A tag's characters, of which there must be one. -/
def readUriSome? (wide : Bool) (c : Cursor) : Option (List Char × Cursor) := do
  let (uri, c) ← readUri? wide c.rest.length c
  if uri.isEmpty then none else return (uri, c)

/-- `!`, a name and perhaps another `!`. -/
def readHandle? (c : Cursor) : Option (List Char × Cursor) :=
  if !c.sees '!' then none
  else
    let (name, c) := (c.skip 1).span isWord
    if c.sees '!' then some ('!' :: name ++ ['!'], c.skip 1) else some ('!' :: name, c)

/-- A tag that is written out, with the handle empty, or with a handle that a directive explains. -/
def readSpelling? (c : Cursor) : Option (String × String × Cursor) :=
  if c.peek? 1 = some '<' then do
    let (uri, c) ← readUriSome? true (c.skip 2)
    if c.sees '>' then return ("", String.ofList uri, c.skip 1) else none
  else do
    let (handle, c) ← readHandle? c
    if handle.length > 1 ∧ handle.getLast? = some '!' then
      let (uri, c) ← readUriSome? false c
      return (String.ofList handle, String.ofList uri, c)
    else
      let (uri, c) ← readUri? false c.rest.length c
      match handle.tail ++ uri with
      | [] => return ("", "!", c)
      | suffix => return ("!", String.ofList suffix, c)

/-- A tag, which ends at a gap, or at a comma between brackets. -/
def readTag? (flow : Bool) (c : Cursor) : Option (Token × Cursor) := do
  let (handle, suffix, c) ← readSpelling? c
  if c.seesGap 0 || (flow && c.sees ',') then return (.tag handle suffix, c) else none

/-! ## Directives -/

/-- One part of a version: at most nine digits. -/
def readVersionPart? (c : Cursor) : Option (Nat × Cursor) :=
  let (digits, c) := c.span Char.isDigit
  if digits.isEmpty || 9 < digits.length then none
  else some (digits.foldl (fun n d => 10 * n + (d.toNat - '0'.toNat)) 0, c)

/-- What follows `%YAML`. -/
def readVersion? (c : Cursor) : Option (Token × Cursor) := do
  let (major, c) ← readVersionPart? (c.skipWhile isSpace)
  if !c.sees '.' then none
  let (minor, c) ← readVersionPart? (c.skip 1)
  return (.version major minor, c)

/-- What follows `%TAG`. -/
def readShorthand? (c : Cursor) : Option (Token × Cursor) := do
  let (handle, c) ← readHandle? (c.skipWhile isSpace)
  if handle.length > 1 ∧ handle.getLast? ≠ some '!' then none
  if !c.seesAny isSpace then none
  let (uri, c) ← readUriSome? true (c.skipWhile isSpace)
  if !c.seesGap 0 then none
  return (.shorthand (String.ofList handle) (String.ofList uri), c)

/-- A directive with the rest of its line. -/
def readDirective? (c : Cursor) : Option (Token × Cursor) := do
  let (name, c) := (c.skip 1).span isWord
  if name.isEmpty || !c.seesGap 0 then none
  let (token, c) ←
    if name = "YAML".toList then readVersion? c
    else if name = "TAG".toList then readShorthand? c
    else none
  let c := c.skipComment
  if c.atLineEnd then return (token, c.lineEnd.2) else none

end Bindery.Yaml
