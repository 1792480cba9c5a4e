import Bindery.Number.Double
import Bindery.Proofs.Number.Rounding

/-!
# `Bindery.Proofs.Number.Shortest` — the shortest decimal of a double reads back

Whatever the search for few digits comes upon, the decimal that is taken for a double is one that is read
as this double: the ones on a grid have been tried, zeros at the end do not change the number, and where
no grid of up to seventeen digits holds one the exact decimal is taken.

**Contents.** `Binary.onGrid?_reads`; `Binary.dropZeros_value`; `Binary.exact_value`;
`Binary.Proper.shortest_reads`; `Double.Proper`, what is a double.
-/

namespace Bindery.Number

namespace Binary

variable {b : Binary}

theorem halfEven_eq (num den : ℕ) :
    halfEven num den = num / den ∨ halfEven num den = num / den + 1 := by
  unfold halfEven
  split
  · exact .inl rfl
  · split
    · exact .inr rfl
    · split
      · exact .inl rfl
      · exact .inr rfl

/-- What is found on a grid reads back: it is one of two neighbours, and where both are tried with
success either one may be taken. -/
theorem onGrid?_reads {g : ℤ} {d : Decimal} (h : b.onGrid? g = some d) : d.binary? = some b := by
  unfold onGrid? at h
  dsimp only at h
  generalize b.m * Nat.pow 2 b.q.toNat * Nat.pow 10 (-g).toNat = num at h
  generalize Nat.pow 2 (-b.q).toNat * Nat.pow 10 g.toNat = den at h
  split at h
  · next low high =>
    obtain rfl := Option.some.inj h
    rcases halfEven_eq num den with heq | heq
    · rw [heq]
      exact of_decide_eq_true low
    · rw [heq]
      exact of_decide_eq_true high
  · next low _ =>
    obtain rfl := Option.some.inj h
    exact of_decide_eq_true low
  · next _ high =>
    obtain rfl := Option.some.inj h
    exact of_decide_eq_true high
  · cases h

/-- Moving zeros into the exponent leaves the number as it is. -/
theorem dropZeros_value (steps : ℕ) (d : Decimal) : (dropZeros steps d).value = d.value := by
  induction steps generalizing d with
  | zero => rfl
  | succ steps ih =>
    rw [dropZeros]
    split
    · next h =>
      have hdigits : 10 * (d.digits / 10) = d.digits := Nat.mul_div_cancel' (Nat.dvd_of_mod_eq_zero h.2)
      rw [ih]
      calc ((d.digits / 10 : ℕ) : ℚ) * 10 ^ (d.exponent + 1)
          = ((10 * (d.digits / 10) : ℕ) : ℚ) * 10 ^ d.exponent := by
            rw [zpow_add_one₀ (by norm_num)]; push_cast; ring
        _ = d.digits * 10 ^ d.exponent := by rw [hdigits]
    · rfl

/-- The decimal with all digits of a double. -/
theorem exact_value (b : Binary) :
    Decimal.value ⟨b.m * Nat.pow 2 b.q.toNat * Nat.pow 5 (-b.q).toNat, min b.q 0⟩ = b.value := by
  have hfive : ((Nat.pow 5 (-b.q).toNat : ℕ) : ℚ) * 10 ^ min b.q 0 = 1 / (Nat.pow 2 (-b.q).toNat : ℕ) := by
    have hplace : min b.q 0 = -((-b.q).toNat : ℤ) := by omega
    rw [hplace, zpow_neg, zpow_natCast, show (10 : ℚ) = 2 * 5 by norm_num, mul_pow]
    simp only [Nat.pow_eq]
    push_cast
    field_simp
  calc ((b.m * Nat.pow 2 b.q.toNat * Nat.pow 5 (-b.q).toNat : ℕ) : ℚ) * 10 ^ min b.q 0
      = (b.m * Nat.pow 2 b.q.toNat : ℕ) * ((Nat.pow 5 (-b.q).toNat : ℕ) * 10 ^ min b.q 0) := by
        push_cast; ring
    _ = (b.m * Nat.pow 2 b.q.toNat : ℕ) / (Nat.pow 2 (-b.q).toNat : ℕ) := by
      rw [hfive, mul_one_div]
    _ = b.value := b.ratio_eq_value

/-- The shortest decimal of a double is read as the double. -/
theorem Proper.shortest_reads (proper : b.Proper) : b.shortest.binary? = some b := by
  unfold shortest
  split
  · next hzero => exact Decimal.binary?_eq_some proper (by simp [Decimal.value, Binary.value, hzero])
  · dsimp only
    split
    · -- some grid holds a decimal that was tried with success
      next d found =>
      obtain ⟨n, _, hgrid⟩ := List.exists_of_findSome?_eq_some found
      rw [Decimal.binary?_congr (dropZeros_value 17 d)]
      exact onGrid?_reads hgrid
    · -- none does, and the exact decimal is left
      exact Decimal.binary?_eq_some proper b.exact_value

end Binary

/-- What is a double: a finite one is kept as its shortest decimal. -/
def Double.Proper : Double → Prop
  | .finite _ d => ∃ b : Binary, b.Proper ∧ d = b.shortest
  | .infinite _ | .nan => True

/-- A decimal that stands for the same number as the one a double is kept as is read as the double. -/
theorem Double.Proper.ofDecimal? {negative : Bool} {d e : Decimal}
    (proper : Proper (.finite negative d)) (h : e.value = d.value) :
    Double.ofDecimal? negative e = some (.finite negative d) := by
  obtain ⟨b, hb, rfl⟩ := proper
  rw [Double.ofDecimal?, Decimal.binary?_congr h, hb.shortest_reads]
  rfl

/-- What a decimal is read as is a double. -/
theorem Double.proper_of_ofDecimal? {negative : Bool} {d : Decimal} {x : Double}
    (h : Double.ofDecimal? negative d = some x) : x.Proper := by
  obtain ⟨b, hb, rfl⟩ := Option.map_eq_some_iff.mp h
  exact ⟨b, Decimal.binary?_proper hb, rfl⟩

end Bindery.Number
