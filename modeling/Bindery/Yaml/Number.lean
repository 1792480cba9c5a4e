import Bindery.Number.Double

/-!
# `Bindery.Yaml.Number` — numbers in plain scalars

An integer is decimal without a leading zero, or `0x`, `0o` or `0b` with digits of that base; a sign
may stand in front. A float is a decimal number with a point or an exponent or both, or one of the words
for infinity and for what is not a number. What has leading zeros and no other character than digits is
no number of either kind.

Integers from `-2^63` up to `2^64 - 1` are values. Other integers of up to 128 bits are refused; still
larger ones are read as floats.

**Contents.** `digitsIn?`, digits of a base; `integer?`; `float?`; `isWithin`, `Size` and `Size.of`, which
integers are values.
-/

namespace Bindery.Yaml

open Bindery.Number

/-- The value of a digit, letters counting from ten on. -/
def digitValue? (c : Char) : Option Nat :=
  if c.isDigit then some (c.toNat - '0'.toNat)
  else if 'a' ≤ c ∧ c ≤ 'z' then some (c.toNat - 'a'.toNat + 10)
  else if 'A' ≤ c ∧ c ≤ 'Z' then some (c.toNat - 'A'.toNat + 10)
  else none

/-- The number that digits of a base stand for, after those for `value`. -/
def digitsFrom? (base : Nat) (value : Nat) : List Char → Option Nat
  | [] => some value
  | c :: rest => do
    let digit ← digitValue? c
    if digit < base then digitsFrom? base (base * value + digit) rest else none

/-- The number that digits of a base stand for; there must be one. -/
def digitsIn? (base : Nat) (text : List Char) : Option Nat :=
  if text.isEmpty then none else digitsFrom? base 0 text

/-- Several digits, the first of which is zero. -/
def hasLeadingZero (text : List Char) : Bool :=
  1 < text.length && text.head? == some '0' && text.all Char.isDigit

/-- An integer without its sign. -/
def magnitude? : List Char → Option Nat
  | '0' :: 'x' :: digits => digitsIn? 16 digits
  | '0' :: 'o' :: digits => digitsIn? 8 digits
  | '0' :: 'b' :: digits => digitsIn? 2 digits
  | digits => if hasLeadingZero digits then none else digitsIn? 10 digits

/-- The integer that a text stands for. -/
def integer? : List Char → Option Int
  | '-' :: rest => (magnitude? rest).map fun n => -(n : Int)
  | '+' :: rest => (magnitude? rest).map fun n => (n : Int)
  | text => (magnitude? text).map fun n => (n : Int)

/-! ## Floats -/

/-- What follows the letter `e`. -/
def exponent? : List Char → Option Int
  | '-' :: digits => (digitsIn? 10 digits).map fun n => -(n : Int)
  | '+' :: digits => (digitsIn? 10 digits).map fun n => (n : Int)
  | digits => (digitsIn? 10 digits).map fun n => (n : Int)

/-- A decimal number without its sign: digits, perhaps a point among or beside them, perhaps an
exponent. -/
def decimal? (text : List Char) : Option Decimal := do
  let whole := text.takeWhile Char.isDigit
  let rest := text.dropWhile Char.isDigit
  let fraction := if rest.head? = some '.' then rest.tail.takeWhile Char.isDigit else []
  let rest := if rest.head? = some '.' then rest.tail.dropWhile Char.isDigit else rest
  let digits ← digitsIn? 10 (whole ++ fraction)
  let exponent ←
    match rest with
    | [] => some 0
    | e :: rest => if e = 'e' ∨ e = 'E' then exponent? rest else none
  return ⟨digits, exponent - fraction.length⟩

/-- A float without its sign. -/
def positiveFloat? (negative : Bool) (text : List Char) : Option Double :=
  if [".inf", ".Inf", ".INF"].contains (String.ofList text) then some (.infinite negative)
  else (decimal? text).bind (Double.ofDecimal? negative)

/-- The float that a text stands for. -/
def float? (text : List Char) : Option Double :=
  if [".nan", ".NaN", ".NAN"].contains (String.ofList text) then some .nan
  else match text with
    | '-' :: rest => positiveFloat? true rest
    | '+' :: rest => positiveFloat? false rest
    | _ => positiveFloat? false text

/-! ## Sizes -/

/-- What the size of an integer makes of it. -/
inductive Size where
  /-- it is a value -/
  | fits
  /-- it is refused -/
  | refused
  /-- it is read as a float -/
  | huge
deriving DecidableEq, Repr

/-- An integer that fits into `bits` bits, without a sign if it is not negative. -/
def isWithin (bits : Nat) (n : Int) : Bool :=
  match n with
  | .ofNat n => n < Nat.pow 2 bits
  | .negSucc n => n < Nat.pow 2 (bits - 1)

/-- The size of an integer. -/
def Size.of (n : Int) : Size :=
  if isWithin 64 n then fits else if isWithin 128 n then refused else huge

end Bindery.Yaml
