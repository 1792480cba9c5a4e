/-!
# `Bindery.Number.Binary` — rounding to double precision

A finite double is `m · 2^q` with `m` below `2^53` and `q` at least `-1074`; all arithmetic here is on
natural numbers and exact.

**Contents.** `halfEven`, a quotient rounded to the nearest integer; `Binary`, the positive finite
doubles and zero; `Binary.nearest?`, the double nearest to a quotient; `Decimal`, a decimal number, and
`Decimal.binary?`, the double nearest to it.
-/

namespace Bindery.Number

/-- The integer nearest to `num / den`; of two equally near ones the even one. -/
def halfEven (num den : Nat) : Nat :=
  if 2 * (num % den) < den then num / den
  else if den < 2 * (num % den) then num / den + 1
  else if num / den % 2 = 0 then num / den
  else num / den + 1

/-- A double without its sign: `m · 2^q`. -/
structure Binary where
  m : Nat
  q : Int
deriving DecidableEq, Repr

/-- The greatest `k` with `2^k ≤ num / den`, for positive numbers. -/
def log2Floor (num den : Nat) : Int :=
  let e : Int := num.log2 - den.log2
  if num * Nat.pow 2 (-e).toNat < den * Nat.pow 2 e.toNat then e - 1 else e

/-- The double nearest to `num / den`; nothing if it is too large for one. -/
def Binary.nearest? (num den : Nat) : Option Binary :=
  if num = 0 then some ⟨0, -1074⟩
  else
    let q := max (log2Floor num den - 52) (-1074)
    let m := halfEven (num * Nat.pow 2 (-q).toNat) (den * Nat.pow 2 q.toNat)
    let rounded : Binary := if m = Nat.pow 2 53 then ⟨Nat.pow 2 52, q + 1⟩ else ⟨m, q⟩
    if 971 < rounded.q then none else some rounded

/-- The decimal number `digits · 10^exponent`. -/
structure Decimal where
  digits : Nat
  exponent : Int
deriving DecidableEq, Repr

/-- The double nearest to a decimal number; nothing if it is too large for one. Numbers far outside of
the range of doubles are told apart first, so that no huge power is computed. -/
def Decimal.binary? (d : Decimal) : Option Binary :=
  if d.digits = 0 then some ⟨0, -1074⟩
  else if 400 < d.exponent then none
  else if d.exponent + d.digits.log2 < -1100 then some ⟨0, -1074⟩
  else Binary.nearest? (d.digits * Nat.pow 10 d.exponent.toNat) (Nat.pow 10 (-d.exponent).toNat)

end Bindery.Number
