import Bindery.Number.Shortest

/-!
# `Bindery.Number.Double` — doubles and their text

A finite double is kept as the shortest decimal that reads back to it, which tells it apart from every
other double. Its text has a point and at least one digit after it, or an exponent: numbers from
`1e-5` up to below `1e16` are written positionally, others with one digit before the point.

**Contents.** `Double` and `Double.same`, equality as numbers; `Double.ofDecimal?`; `Double.text`.
-/

namespace Bindery.Number

/-- A number in double precision. -/
inductive Double where
  | finite (negative : Bool) (shortest : Decimal)
  | infinite (negative : Bool)
  | nan
deriving DecidableEq, Repr

namespace Double

/-- The double nearest to a decimal number, if it is finite. -/
def ofDecimal? (negative : Bool) (d : Decimal) : Option Double :=
  d.binary?.map fun b => .finite negative b.shortest

/-- The same number: the sign of a zero makes no difference. -/
def same : Double → Double → Bool
  | .finite s d, .finite t e => d = e ∧ (s = t ∨ d.digits = 0)
  | .infinite s, .infinite t => s == t
  | .nan, .nan => true
  | _, _ => false

/-- A number of zeros. -/
def zeros (n : Nat) : String :=
  String.ofList (List.replicate n '0')

/-- A decimal number without its sign. -/
def decimalText (d : Decimal) : String :=
  let digits := toString d.digits
  let count := digits.toList.length
  -- the place of the point, counted from the first digit
  let point : Int := count + d.exponent
  if d.digits = 0 then "0.0"
  else if 0 ≤ d.exponent ∧ point ≤ 16 then digits ++ zeros d.exponent.toNat ++ ".0"
  else if 0 < point ∧ point ≤ 16 then
    String.ofList (digits.toList.take point.toNat) ++ "."
      ++ String.ofList (digits.toList.drop point.toNat)
  else if -5 < point ∧ point ≤ 0 then "0." ++ zeros (-point).toNat ++ digits
  else
    let fraction := String.ofList (digits.toList.drop 1)
    String.ofList (digits.toList.take 1) ++ (if fraction = "" then "" else "." ++ fraction)
      ++ "e" ++ toString (point - 1)

/-- The text of a double. -/
def text : Double → String
  | .finite negative d => (if negative then "-" else "") ++ decimalText d
  | .infinite negative => if negative then "-.inf" else ".inf"
  | .nan => ".nan"

end Double

end Bindery.Number
