/-!
# `Bindery.Text.Raw` — texts as the system keeps them

The names of files and the arguments of programs are bytes. They are the UTF-8 of a text as a rule, but nothing
makes them so. Wherever such bytes are shown as a text, U+FFFD stands for what is not UTF-8: once for as many bytes
as a character could have begun with, and once for any other byte.

**Contents.** `Raw`, bytes in the order of bytes; `Raw.ofText`, the bytes of a text; `Raw.text`, the text that is
shown for bytes.
-/

namespace Bindery

/-- A text as the system keeps it. -/
@[ext]
structure Raw where
  bytes : List UInt8
deriving DecidableEq, Repr, Inhabited

namespace Raw

/-- The bytes of a text. -/
def ofText (text : String) : Raw :=
  ⟨text.toUTF8.data.toList⟩

instance : Coe String Raw := ⟨ofText⟩

instance : CoeOut (List String) (List Raw) := ⟨List.map ofText⟩

instance : Append Raw := ⟨fun front back => ⟨front.bytes ++ back.bytes⟩⟩

@[simp] theorem bytes_append (front back : Raw) : (front ++ back).bytes = front.bytes ++ back.bytes := rfl

theorem append_assoc (front middle back : Raw) : front ++ middle ++ back = front ++ (middle ++ back) :=
  Raw.ext (List.append_assoc ..)

instance : LT Raw := ⟨fun left right => left.bytes < right.bytes⟩

instance : LE Raw := ⟨fun left right => left.bytes ≤ right.bytes⟩

instance : DecidableLT Raw := fun left right => inferInstanceAs (Decidable (left.bytes < right.bytes))

instance : Std.IsLinearOrder Raw where
  le_refl raw := List.le_refl raw.bytes
  le_trans _ _ _ hle hle' := List.le_trans hle hle'
  le_antisymm _ _ hle hge := congrArg Raw.mk (List.le_antisymm hle hge)
  le_total left right := List.le_total left.bytes right.bytes

instance : Std.LawfulOrderLT Raw where
  lt_iff left right := (Std.LawfulOrderLT.lt_iff left.bytes right.bytes : _)

/-- How many bytes there are. -/
def size (raw : Raw) : Nat :=
  raw.bytes.length

@[simp] theorem size_append (front back : Raw) : (front ++ back).size = front.size + back.size :=
  List.length_append

/-! ## Shown as a text -/

/-- What is shown for bytes that are not UTF-8. -/
def replacement : Char := '\uFFFD'

/-- A character of which the first bytes have been read. -/
structure Lead where
  /-- what these bytes give -/
  value : Nat
  /-- how many bytes there are after the next one -/
  more : Nat
  /-- the least byte that can come next -/
  low : UInt8 := 0x80
  /-- the greatest byte that can come next -/
  high : UInt8 := 0xBF

/-- The character that a byte begins, of two bytes or more. Bytes that only spell what fewer bytes can, a surrogate,
or a number past the last character begin none. -/
def Lead.of? (byte : UInt8) : Option Lead :=
  if byte < 0xC2 then none
  else if byte < 0xE0 then some { value := byte.toNat - 0xC0, more := 0 }
  else if byte < 0xF0 then
    some
      { value := byte.toNat - 0xE0
        more := 1
        low := if byte = 0xE0 then 0xA0 else 0x80
        high := if byte = 0xED then 0x9F else 0xBF }
  else if byte < 0xF5 then
    some
      { value := byte.toNat - 0xF0
        more := 2
        low := if byte = 0xF0 then 0x90 else 0x80
        high := if byte = 0xF4 then 0x8F else 0xBF }
  else none

/-- Reads a byte between characters: what is shown by then, and the character that it begins. -/
def start (byte : UInt8) : List Char × Option Lead :=
  if byte < 0x80 then ([Char.ofNat byte.toNat], none)
  else match Lead.of? byte with
    | some lead => ([], some lead)
    | none => ([replacement], none)

/-- Reads a byte. One that does not go on with the character that has begun is read as if between characters. -/
def next : Option Lead → UInt8 → List Char × Option Lead
  | none, byte => start byte
  | some lead, byte =>
    if lead.low ≤ byte ∧ byte ≤ lead.high then
      let value := lead.value * 64 + (byte.toNat - 0x80)
      match lead.more with
      | 0 => ([Char.ofNat value], none)
      | more + 1 => ([], some { value, more })
    else (replacement :: (start byte).1, (start byte).2)

/-- What is shown for bytes that come after the beginning of a character. -/
def chars : Option Lead → List UInt8 → List Char
  | none, [] => []
  | some _, [] => [replacement]
  | lead, byte :: rest => (next lead byte).1 ++ chars (next lead byte).2 rest

/-- The text that is shown. -/
def text (raw : Raw) : String :=
  String.ofList (chars none raw.bytes)

end Raw

end Bindery
