import Bindery.Text.Letter
import Bindery.Text.Numeral

/-!
# `Bindery.Template.Word` — names, keywords and literals

The smallest things that an expression is made of. A word reaches as far as it can: no name, keyword
or integer is followed directly by a character that could continue a name.

**Contents.** `Reader`, a function that takes a value off the front of a text; `skipSpace`; names and
`reserved` words; `integer`; the two kinds of quoted string.
-/

namespace Bindery.Template

open Bindery.Text

/-- Takes a value off the front of a text, or refuses it. -/
abbrev Reader (α : Type) := List Char → Option (α × List Char)

/-- The white space that may stand between the words of a tag. -/
def isSpace (c : Char) : Bool :=
  c == ' ' || c == '\t' || c == '\r' || c == '\n'

/-- The text from its first character that is not white space. -/
def skipSpace (s : List Char) : List Char :=
  s.dropWhile isSpace

/-- A character that a name may start with. -/
def isNameStart (c : Char) : Bool :=
  isLetter c || c == '_'

/-- A character that a name may hold after its first. -/
def isNameChar (c : Char) : Bool :=
  isLetter c || isNumeral c || c == '_' || c == '?'

/-- No character that could continue a name comes next. -/
def wordEnds (s : List Char) : Bool :=
  match s with
  | [] => true
  | c :: _ => !isNameChar c

/-- A name, as long as it can be. -/
def name : Reader String
  | [] => none
  | c :: rest =>
    if isNameStart c then
      some (String.ofList (c :: rest.takeWhile isNameChar), rest.dropWhile isNameChar)
    else none

/-- The words that no variable can be called. -/
def reserved : List String :=
  ["if", "elsif", "else", "unless", "end", "for", "in", "do", "and", "or", "not", "true", "false",
    "nil", "import"]

/-- The name of a variable; any `@` in front of it is dropped. -/
def variableName (s : List Char) : Option (String × List Char) :=
  match name (s.dropWhile (· == '@')) with
  | some (word, rest) => if word ∈ reserved then none else some (word, rest)
  | none => none

/-- The word `word`, not as the start of a longer one. -/
def keyword (word : String) (s : List Char) : Option (List Char) :=
  match name s with
  | some (found, rest) => if found = word then some rest else none
  | none => none

/-- The fields after a variable, each a dot and a name. -/
def fields (fuel : Nat) (s : List Char) : List String × List Char :=
  match fuel, s with
  | fuel + 1, '.' :: rest =>
    match name rest with
    | some (field, rest) =>
      let more := fields fuel rest
      (field :: more.1, more.2)
    | none => ([], s)
  | _, _ => ([], s)

/-- A variable and its fields. -/
def path : Reader (String × List String) := fun s =>
  match variableName s with
  | some (head, rest) =>
    let more := fields rest.length rest
    some ((head, more.1), more.2)
  | none => none

/-! ## Literals -/

/-- The value of a run of decimal digits. -/
def digitsValue (digits : List Char) : Nat :=
  digits.foldl (fun n d => 10 * n + (d.toNat - '0'.toNat)) 0

/-- The least integer that a template can hold. -/
def leastInteger : Int := -9223372036854775808

/-- The greatest integer that a template can hold. -/
def greatestInteger : Int := 9223372036854775807

/-- An integer in the range of 64-bit words, as its decimal text. -/
def integer : Reader String := fun s =>
  let negative := s.head? == some '-'
  let unsigned := if negative then s.tail else s
  let digits := unsigned.takeWhile Char.isDigit
  let rest := unsigned.dropWhile Char.isDigit
  let value : Int := if negative then -(digitsValue digits : Int) else digitsValue digits
  if digits = [] ∨ wordEnds rest = false then none
  else if leastInteger ≤ value ∧ value ≤ greatestInteger then some (toString value, rest)
  else none

/-- Puts a character in front of what a reader took. -/
def keep (c : Char) (taken : Option (List Char × List Char)) : Option (List Char × List Char) :=
  taken.map fun (chars, rest) => (c :: chars, rest)

/-- What a backslash and a character stand for between double quotes. -/
def unescape : Char → Option Char
  | 'n' => some '\n'
  | 't' => some '\t'
  | '"' => some '"'
  | '\\' => some '\\'
  | _ => none

/-- After an opening double quote: the characters of the string, and the rest. -/
def doubleQuoted : List Char → Option (List Char × List Char)
  | [] => none
  | c :: rest =>
    if c = '"' then some ([], rest)
    else if c = '\\' then
      match rest with
      | [] => none
      | e :: rest =>
        match unescape e with
        | some d => keep d (doubleQuoted rest)
        | none => none
    else keep c (doubleQuoted rest)

/-- After an opening single quote: the characters of the string, and the rest. A backslash escapes a
quote or a backslash and otherwise stands for itself. -/
def singleQuoted : List Char → Option (List Char × List Char)
  | [] => none
  | c :: rest =>
    if c = '\'' then some ([], rest)
    else if c = '\\' then
      match rest with
      | '\'' :: rest => keep '\'' (singleQuoted rest)
      | '\\' :: rest => keep '\\' (singleQuoted rest)
      | rest => keep '\\' (singleQuoted rest)
    else keep c (singleQuoted rest)

/-- A quoted string. -/
def quoted : Reader String
  | '"' :: rest => (doubleQuoted rest).map fun (chars, rest) => (String.ofList chars, rest)
  | '\'' :: rest => (singleQuoted rest).map fun (chars, rest) => (String.ofList chars, rest)
  | _ => none

end Bindery.Template
