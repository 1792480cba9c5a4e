import Bindery.Number.Binary

/-!
# `Bindery.Number.Shortest` — the shortest decimal of a double

A double is written with the fewest digits that read back to it. Among the decimals with that many
digits the nearest one is taken, and of two equally near ones the even one.

**Contents.** `Binary.readsBack`, the decimals that are read as a double; `Binary.scale`, the place of
the first digit; `Binary.onGrid?`, the best decimal with a given last place; `Binary.shortest`.
-/

namespace Bindery.Number

namespace Binary

/-- A decimal is read as this double. -/
def readsBack (b : Binary) (d : Decimal) : Bool :=
  d.binary? = some b

/-- `m · 2^q < 10^k`. -/
def belowPower (b : Binary) (k : Int) : Bool :=
  b.m * Nat.pow 2 b.q.toNat * Nat.pow 10 (-k).toNat < Nat.pow 10 k.toNat * Nat.pow 2 (-b.q).toNat

/-- The least `k` from `start` on, at most `steps` further, with `m · 2^q < 10^k`. -/
def scaleFrom (b : Binary) : (steps : Nat) → (start : Int) → Int
  | 0, k => k
  | steps + 1, k => if b.belowPower k then k else scaleFrom b steps (k + 1)

/-- How many digits a positive double has before the point, or less zeros after it. -/
def scale (b : Binary) : Int :=
  scaleFrom b 4 ((((b.m.log2 : Int) + b.q - 1) * 30103).fdiv 100000)

/-- The decimal with last place `10^g` that reads back to the double, nearest to it. -/
def onGrid? (b : Binary) (g : Int) : Option Decimal :=
  let num := b.m * Nat.pow 2 b.q.toNat * Nat.pow 10 (-g).toNat
  let den := Nat.pow 2 (-b.q).toNat * Nat.pow 10 g.toNat
  let low := num / den
  match b.readsBack ⟨low, g⟩, b.readsBack ⟨low + 1, g⟩ with
  | true, true => some ⟨halfEven num den, g⟩
  | true, false => some ⟨low, g⟩
  | false, true => some ⟨low + 1, g⟩
  | false, false => none

/-- Moves zeros at the end of the digits into the exponent. -/
def dropZeros : (steps : Nat) → Decimal → Decimal
  | 0, d => d
  | steps + 1, d =>
    if d.digits ≠ 0 ∧ d.digits % 10 = 0 then dropZeros steps ⟨d.digits / 10, d.exponent + 1⟩ else d

/-- The fewest digits that read back to a double. Seventeen are always enough. -/
def shortest (b : Binary) : Decimal :=
  if b.m = 0 then ⟨0, 0⟩
  else
    let k := b.scale
    match (List.range 17).findSome? fun n : Nat => b.onGrid? (k - (n + 1)) with
    | some d => dropZeros 17 d
    | none => ⟨b.m * Nat.pow 2 b.q.toNat * Nat.pow 5 (-b.q).toNat, min b.q 0⟩

end Binary

end Bindery.Number
