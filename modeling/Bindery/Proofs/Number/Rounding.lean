import Bindery.Number.Binary
import Mathlib.Algebra.Field.Rat
import Mathlib.Algebra.Order.Field.Power
import Mathlib.Algebra.Order.Ring.Rat
import Mathlib.Data.Int.Log
import Mathlib.Data.Rat.Floor
import Mathlib.Tactic.GCongr
import Mathlib.Tactic.NormNum
import Mathlib.Tactic.Positivity
import Mathlib.Tactic.Ring

/-!
# `Bindery.Proofs.Number.Rounding` — rounding depends on the number alone

The double nearest to a quotient is found from its numerator and its denominator. It depends on nothing
but their ratio, so two decimals that stand for one number are read as one double, however many zeros
they are written with. What comes out is a double, and a number that is a double already is rounded to
itself.

**Contents.** `Decimal.value` and `Binary.value`, the numbers meant; `log2Floor_eq_log`;
`Binary.nearest?_congr`; `Decimal.binary?_eq_nearest?`, where the two shortcuts of the reader are shown to
change nothing; `Decimal.binary?_congr`; `Binary.Proper`, the doubles; `Decimal.binary?_proper` and
`Decimal.binary?_eq_some`.
-/

namespace Bindery.Number

/-- The number that a decimal stands for. -/
def Decimal.value (d : Decimal) : ℚ :=
  d.digits * 10 ^ d.exponent

/-- The number that a double stands for. -/
def Binary.value (b : Binary) : ℚ :=
  b.m * 2 ^ b.q

/-! ## Powers in numerator and denominator -/

/-- A power is a quotient of two whole ones, one of which is one. -/
theorem pow_toNat_div (base : ℕ) (h : base ≠ 0) (k : ℤ) :
    (base : ℚ) ^ k.toNat / (base : ℚ) ^ (-k).toNat = (base : ℚ) ^ k := by
  have hbase : (base : ℚ) ≠ 0 := by exact_mod_cast h
  rw [← zpow_natCast, ← zpow_natCast, ← zpow_sub₀ hbase]
  congr 1
  omega

/-- The quotient that stands for `n` times a power. -/
theorem ratio_eq_mul_zpow (base : ℕ) (h : base ≠ 0) (n : ℕ) (k : ℤ) :
    ((n * Nat.pow base k.toNat : ℕ) : ℚ) / (Nat.pow base (-k).toNat : ℕ) = n * (base : ℚ) ^ k := by
  rw [← pow_toNat_div base h k, ← mul_div_assoc]
  simp only [Nat.pow_eq]
  push_cast
  rfl

theorem ratio_pos {num den : ℕ} (hn : 0 < num) (hd : 0 < den) : (0 : ℚ) < (num : ℚ) / den :=
  div_pos (by exact_mod_cast hn) (by exact_mod_cast hd)

/-! ## The place of the first binary digit -/

theorem log2_bounds {n : ℕ} (h : 0 < n) :
    (2 : ℚ) ^ (n.log2 : ℤ) ≤ n ∧ (n : ℚ) < 2 ^ ((n.log2 : ℤ) + 1) := by
  have low : 2 ^ n.log2 ≤ n := Nat.log2_self_le (by omega)
  have high : n < 2 ^ (n.log2 + 1) := Nat.lt_log2_self
  constructor
  · rw [zpow_natCast]
    exact_mod_cast low
  · rw [← Nat.cast_succ, zpow_natCast]
    exact_mod_cast high

/-- The comparison in `log2Floor`, of ratios. -/
theorem lt_pow_iff {num den : ℕ} (hd : 0 < den) (k : ℤ) :
    num * Nat.pow 2 (-k).toNat < den * Nat.pow 2 k.toNat ↔ (num : ℚ) / den < 2 ^ k := by
  have hpow : (0 : ℚ) < 2 ^ (-k).toNat := by positivity
  have hden : (0 : ℚ) < den := by exact_mod_cast hd
  rw [show (2 : ℚ) ^ k = (2 : ℚ) ^ k.toNat / 2 ^ (-k).toNat from (pow_toNat_div 2 (by omega) k).symm,
    div_lt_div_iff₀ hden hpow, mul_comm ((2 : ℚ) ^ k.toNat)]
  simp only [Nat.pow_eq]
  exact_mod_cast Iff.rfl

/-- The place of the first digit is the logarithm of the ratio. -/
theorem log2Floor_eq_log {num den : ℕ} (hn : 0 < num) (hd : 0 < den) :
    log2Floor num den = Int.log 2 ((num : ℚ) / den) := by
  have hratio := ratio_pos hn hd
  obtain ⟨numLow, numHigh⟩ := log2_bounds hn
  obtain ⟨denLow, denHigh⟩ := log2_bounds hd
  have hden : (0 : ℚ) < den := by exact_mod_cast hd
  -- the ratio lies within one place of the difference of the two logarithms
  have low : ((2 : ℕ) : ℚ) ^ ((num.log2 : ℤ) - den.log2 - 1) ≤ (num : ℚ) / den := by
    rw [le_div_iff₀ hden]
    calc (2 : ℚ) ^ ((num.log2 : ℤ) - den.log2 - 1) * den
        ≤ 2 ^ ((num.log2 : ℤ) - den.log2 - 1) * 2 ^ ((den.log2 : ℤ) + 1) := by gcongr
      _ = 2 ^ (num.log2 : ℤ) := by rw [← zpow_add₀ (by norm_num)]; congr 1; ring
      _ ≤ num := numLow
  have high : (num : ℚ) / den < ((2 : ℕ) : ℚ) ^ ((num.log2 : ℤ) - den.log2 + 1) := by
    rw [div_lt_iff₀ hden]
    calc (num : ℚ) < 2 ^ ((num.log2 : ℤ) + 1) := numHigh
      _ = 2 ^ ((num.log2 : ℤ) - den.log2 + 1) * 2 ^ (den.log2 : ℤ) := by
        rw [← zpow_add₀ (by norm_num)]; congr 1; ring
      _ ≤ 2 ^ ((num.log2 : ℤ) - den.log2 + 1) * den := by gcongr
  rw [Int.zpow_le_iff_le_log (by omega) hratio] at low
  rw [Int.lt_zpow_iff_log_lt (by omega) hratio] at high
  unfold log2Floor
  simp only [lt_pow_iff hd]
  split
  · next h =>
    have h' : (num : ℚ) / den < ((2 : ℕ) : ℚ) ^ ((num.log2 : ℤ) - den.log2) := by exact_mod_cast h
    rw [Int.lt_zpow_iff_log_lt (by omega) hratio] at h'
    omega
  · next h =>
    have h' : ((2 : ℕ) : ℚ) ^ ((num.log2 : ℤ) - den.log2) ≤ (num : ℚ) / den := by
      exact_mod_cast not_lt.mp h
    rw [Int.zpow_le_iff_le_log (by omega) hratio] at h'
    omega

/-! ## Rounded quotients -/

theorem halfEven_mul {c : ℕ} (h : 0 < c) (num den : ℕ) :
    halfEven (c * num) (c * den) = halfEven num den := by
  have hless (a b : ℕ) : 2 * (c * a) < c * b ↔ 2 * a < b := by
    rw [Nat.mul_left_comm]; exact Nat.mul_lt_mul_left h
  have hgreater (a b : ℕ) : c * b < 2 * (c * a) ↔ b < 2 * a := by
    rw [Nat.mul_left_comm 2]; exact Nat.mul_lt_mul_left h
  unfold halfEven
  rw [Nat.mul_div_mul_left _ _ h, Nat.mul_mod_mul_left]
  simp only [hless, hgreater]

/-- Equal ratios are rounded equally. -/
theorem halfEven_congr {num den num' den' : ℕ} (hd : 0 < den) (hd' : 0 < den')
    (h : num * den' = num' * den) : halfEven num den = halfEven num' den' := by
  calc halfEven num den = halfEven (den' * num) (den' * den) := (halfEven_mul hd' ..).symm
    _ = halfEven (den * num') (den * den') := by
      rw [Nat.mul_comm den' num, h, Nat.mul_comm num' den, Nat.mul_comm den' den]
    _ = halfEven num' den' := halfEven_mul hd ..

/-- A whole number is rounded to itself. -/
theorem halfEven_whole (n : ℕ) {den : ℕ} (h : 0 < den) : halfEven (n * den) den = n := by
  simp [halfEven, Nat.mul_div_cancel n h, h]

/-- What is less than half a unit of the last place is rounded to zero. -/
theorem halfEven_lost {num den : ℕ} (hd : 0 < den) (e : ℕ)
    (h : (num : ℚ) / den < 2 ^ (-((e : ℤ) + 1))) : halfEven (num * Nat.pow 2 e) (den * Nat.pow 2 0) = 0 := by
  have hhalf : 2 * (num * Nat.pow 2 e) < den * Nat.pow 2 0 := by
    have hless := (lt_pow_iff hd _).mpr h
    rw [show (-(-((e : ℤ) + 1))).toNat = e + 1 by omega,
      show (-((e : ℤ) + 1)).toNat = 0 by omega] at hless
    calc 2 * (num * Nat.pow 2 e) = num * Nat.pow 2 (e + 1) := by
          simp only [Nat.pow_eq, Nat.pow_succ']; ring
      _ < den * Nat.pow 2 0 := hless
  have hless : num * Nat.pow 2 e < den * Nat.pow 2 0 := by omega
  rw [halfEven, Nat.mod_eq_of_lt hless, if_pos hhalf, Nat.div_eq_of_lt hless]

/-! ## The nearest double -/

theorem cross_of_ratio {num den num' den' : ℕ} (hd : 0 < den) (hd' : 0 < den')
    (h : (num : ℚ) / den = num' / den') : num * den' = num' * den := by
  have hden : (den : ℚ) ≠ 0 := by exact_mod_cast hd.ne'
  have hden' : (den' : ℚ) ≠ 0 := by exact_mod_cast hd'.ne'
  rw [div_eq_div_iff hden hden'] at h
  exact_mod_cast h

/-- The nearest double depends on the ratio alone. -/
theorem Binary.nearest?_congr {num den num' den' : ℕ} (hd : 0 < den) (hd' : 0 < den')
    (h : (num : ℚ) / den = num' / den') : nearest? num den = nearest? num' den' := by
  have hcross := cross_of_ratio hd hd' h
  -- zero is told apart before there is a place of a first digit
  by_cases hzero : num = 0
  · have hzero' : num' = 0 := by
      rw [hzero, Nat.zero_mul] at hcross
      exact (Nat.mul_eq_zero.mp hcross.symm).resolve_right hd.ne'
    rw [nearest?, nearest?, if_pos hzero, if_pos hzero']
  · have hzero' : num' ≠ 0 := by
      rintro rfl
      rw [Nat.zero_mul] at hcross
      exact (Nat.mul_eq_zero.mp hcross).elim hzero hd'.ne'
    have hlog : log2Floor num den = log2Floor num' den' := by
      rw [log2Floor_eq_log (by omega) hd, log2Floor_eq_log (by omega) hd', h]
    -- both quotients are scaled by the same powers, so their ratios stay equal
    have hround (a b : ℕ) : halfEven (num * Nat.pow 2 a) (den * Nat.pow 2 b)
        = halfEven (num' * Nat.pow 2 a) (den' * Nat.pow 2 b) := by
      refine halfEven_congr (Nat.mul_pos hd (by simp)) (Nat.mul_pos hd' (by simp)) ?_
      calc num * Nat.pow 2 a * (den' * Nat.pow 2 b) = num * den' * (Nat.pow 2 a * Nat.pow 2 b) := by ring
        _ = num' * den * (Nat.pow 2 a * Nat.pow 2 b) := by rw [hcross]
        _ = num' * Nat.pow 2 a * (den * Nat.pow 2 b) := by ring
    simp only [nearest?, if_neg hzero, if_neg hzero', hlog, hround]

/-- A number from `2^1024` on is too large for a double. -/
theorem Binary.nearest?_huge {num den : ℕ} (hn : 0 < num) (hd : 0 < den)
    (h : (2 : ℚ) ^ (1024 : ℤ) ≤ (num : ℚ) / den) : nearest? num den = none := by
  have hlog : 1024 ≤ log2Floor num den := by
    rw [log2Floor_eq_log hn hd, ← Int.zpow_le_iff_le_log (by omega) (ratio_pos hn hd)]
    exact_mod_cast h
  have hplace : 971 < max (log2Floor num den - 52) (-1074) := by omega
  unfold nearest?
  rw [if_neg hn.ne', if_pos]
  split <;> dsimp only <;> omega

/-- A number below half of the least positive double is rounded to zero. -/
theorem Binary.nearest?_tiny {num den : ℕ} (hn : 0 < num) (hd : 0 < den)
    (h : (num : ℚ) / den < (2 : ℚ) ^ (-1075 : ℤ)) : nearest? num den = some ⟨0, -1074⟩ := by
  have hlog : log2Floor num den < -1075 := by
    rw [log2Floor_eq_log hn hd, ← Int.lt_zpow_iff_log_lt (by omega) (ratio_pos hn hd)]
    exact_mod_cast h
  have hplace : max (log2Floor num den - 52) (-1074) = -1074 := by omega
  have hround : halfEven (num * Nat.pow 2 (-(-1074 : ℤ)).toNat) (den * Nat.pow 2 (-1074 : ℤ).toNat) = 0 := by
    rw [show (-(-1074 : ℤ)).toNat = 1074 from rfl]
    exact halfEven_lost hd 1074 h
  have hpow : (0 : ℕ) ≠ Nat.pow 2 53 := by decide
  simp only [nearest?, if_neg hn.ne', hplace, hround, if_neg hpow]
  rfl

/-! ## Reading decimals -/

/-- The quotient that a decimal is rounded from is the number it stands for. -/
theorem Decimal.ratio_eq_value (d : Decimal) :
    ((d.digits * Nat.pow 10 d.exponent.toNat : ℕ) : ℚ) / (Nat.pow 10 (-d.exponent).toNat : ℕ)
      = d.value :=
  ratio_eq_mul_zpow 10 (by omega) d.digits d.exponent

theorem Decimal.value_huge {d : Decimal} (hdigits : 0 < d.digits) (h : 400 < d.exponent) :
    (2 : ℚ) ^ (1024 : ℤ) ≤ d.value := by
  have hone : (1 : ℚ) ≤ d.digits := by exact_mod_cast hdigits
  calc (2 : ℚ) ^ (1024 : ℤ) ≤ 2 ^ (3 * d.exponent) := zpow_le_zpow_right₀ (by norm_num) (by omega)
    _ = 8 ^ d.exponent := by rw [zpow_mul]; norm_num
    _ ≤ 10 ^ d.exponent := zpow_le_zpow_left₀ (by omega) (by norm_num) (by norm_num)
    _ ≤ d.digits * 10 ^ d.exponent := le_mul_of_one_le_left (by positivity) hone

theorem Decimal.value_tiny {d : Decimal} (hdigits : 0 < d.digits)
    (h : d.exponent + d.digits.log2 < -1100) : d.value < (2 : ℚ) ^ (-1075 : ℤ) := by
  -- the exponent is negative, so ten in place of two only makes the number smaller
  have hsmall : (10 : ℚ) ^ d.exponent ≤ 2 ^ d.exponent := by
    rw [show (10 : ℚ) = 2 * 5 by norm_num, mul_zpow]
    exact mul_le_of_le_one_right (by positivity) (zpow_le_one_of_nonpos₀ (by norm_num) (by omega))
  calc (d.digits : ℚ) * 10 ^ d.exponent ≤ d.digits * 2 ^ d.exponent := by gcongr
    _ < 2 ^ ((d.digits.log2 : ℤ) + 1) * 2 ^ d.exponent := by
      have := (log2_bounds hdigits).2
      gcongr
    _ = 2 ^ ((d.digits.log2 : ℤ) + 1 + d.exponent) := by rw [← zpow_add₀ (by norm_num)]
    _ ≤ 2 ^ (-1075 : ℤ) := zpow_le_zpow_right₀ (by norm_num) (by omega)

/-- The shortcuts for numbers far outside of the range of doubles change nothing. -/
theorem Decimal.binary?_eq_nearest? (d : Decimal) :
    d.binary? = Binary.nearest? (d.digits * Nat.pow 10 d.exponent.toNat)
      (Nat.pow 10 (-d.exponent).toNat) := by
  have hden : 0 < Nat.pow 10 (-d.exponent).toNat := Nat.pow_pos (by omega)
  unfold Decimal.binary?
  split
  · next hzero => rw [hzero, Nat.zero_mul]; rfl
  · next hdigits =>
    have hpos : 0 < d.digits := Nat.pos_of_ne_zero hdigits
    have hnum : 0 < d.digits * Nat.pow 10 d.exponent.toNat := Nat.mul_pos hpos (Nat.pow_pos (by omega))
    split
    · next hhuge =>
      refine (Binary.nearest?_huge hnum hden ?_).symm
      rw [d.ratio_eq_value]
      exact value_huge hpos hhuge
    · split
      · next htiny =>
        refine (Binary.nearest?_tiny hnum hden ?_).symm
        rw [d.ratio_eq_value]
        exact value_tiny hpos htiny
      · rfl

/-- Decimals that stand for one number are read as one double. -/
theorem Decimal.binary?_congr {d e : Decimal} (h : d.value = e.value) : d.binary? = e.binary? := by
  rw [d.binary?_eq_nearest?, e.binary?_eq_nearest?]
  refine Binary.nearest?_congr (Nat.pow_pos (by omega)) (Nat.pow_pos (by omega)) ?_
  rw [d.ratio_eq_value, e.ratio_eq_value, h]

/-! ## Doubles are exact -/

/-- What is a double: the significand has at most 53 bits, and exactly 53 unless the exponent is the
least one. -/
structure Binary.Proper (b : Binary) : Prop where
  bits : b.m < Nat.pow 2 53
  least : -1074 ≤ b.q
  greatest : b.q ≤ 971
  normal : Nat.pow 2 52 ≤ b.m ∨ b.q = -1074

namespace Binary

variable {b : Binary}

/-- The last place of a double is where its rounding puts it. -/
theorem Proper.place (proper : b.Proper) (h : 0 < b.m) :
    max (Int.log 2 b.value - 52) (-1074) = b.q := by
  have hvalue : (0 : ℚ) < b.value := mul_pos (by exact_mod_cast h) (by positivity)
  have hm : (b.m : ℚ) < 2 ^ (53 : ℤ) := by exact_mod_cast proper.bits
  have hhigh : b.value < ((2 : ℕ) : ℚ) ^ (53 + b.q) := by
    calc (b.m : ℚ) * 2 ^ b.q < 2 ^ (53 : ℤ) * 2 ^ b.q := by gcongr
      _ = 2 ^ (53 + b.q) := by rw [← zpow_add₀ (by norm_num)]
  rw [Int.lt_zpow_iff_log_lt (by omega) hvalue] at hhigh
  have hleast := proper.least
  rcases proper.normal with hnormal | hnormal
  · have hm' : (2 : ℚ) ^ (52 : ℤ) ≤ b.m := by exact_mod_cast hnormal
    have hlow : ((2 : ℕ) : ℚ) ^ (52 + b.q) ≤ b.value := by
      calc (2 : ℚ) ^ (52 + b.q) = 2 ^ (52 : ℤ) * 2 ^ b.q := by rw [← zpow_add₀ (by norm_num)]
        _ ≤ b.m * 2 ^ b.q := by gcongr
    rw [Int.zpow_le_iff_le_log (by omega) hvalue] at hlow
    omega
  · omega

/-- The quotient of whole numbers that a double is. -/
theorem ratio_eq_value (b : Binary) :
    ((b.m * Nat.pow 2 b.q.toNat : ℕ) : ℚ) / (Nat.pow 2 (-b.q).toNat : ℕ) = b.value :=
  ratio_eq_mul_zpow 2 (by omega) b.m b.q

/-- A double is the one nearest to itself. -/
theorem Proper.nearest? (proper : b.Proper) :
    Binary.nearest? (b.m * Nat.pow 2 b.q.toNat) (Nat.pow 2 (-b.q).toNat) = some b := by
  have hden : 0 < Nat.pow 2 (-b.q).toNat := Nat.pow_pos (by omega)
  rcases Nat.eq_zero_or_pos b.m with hzero | hpos
  · -- zero has the least exponent, since its significand has no 53 bits
    have hq : b.q = -1074 := proper.normal.resolve_left (by rw [hzero]; decide)
    rw [hzero, Nat.zero_mul, Binary.nearest?, if_pos rfl, ← hzero, ← hq]
  · have hnum : 0 < b.m * Nat.pow 2 b.q.toNat := Nat.mul_pos hpos (Nat.pow_pos (by omega))
    have hplace : max (log2Floor (b.m * Nat.pow 2 b.q.toNat) (Nat.pow 2 (-b.q).toNat) - 52) (-1074)
        = b.q := by
      rw [log2Floor_eq_log hnum hden, b.ratio_eq_value]
      exact proper.place hpos
    have hround : halfEven (b.m * Nat.pow 2 b.q.toNat * Nat.pow 2 (-b.q).toNat)
        (Nat.pow 2 (-b.q).toNat * Nat.pow 2 b.q.toNat) = b.m := by
      rw [Nat.mul_assoc, Nat.mul_comm (Nat.pow 2 (-b.q).toNat)]
      exact halfEven_whole _ (Nat.mul_pos (Nat.pow_pos (by omega)) hden)
    simp only [Binary.nearest?, if_neg hnum.ne', hplace, hround, if_neg proper.bits.ne,
      if_neg (not_lt.mpr proper.greatest)]

/-! ## What comes out is a double -/

/-- The quotient that is rounded, once the place of the last digit is known. -/
theorem shifted_ratio (num den : ℕ) (q : ℤ) :
    ((num * Nat.pow 2 (-q).toNat : ℕ) : ℚ) / (den * Nat.pow 2 q.toNat : ℕ) = (num : ℚ) / den / 2 ^ q := by
  have hpow : (2 : ℚ) ^ q = 2 ^ q.toNat / 2 ^ (-q).toNat := (pow_toNat_div 2 (by omega) q).symm
  rw [hpow, div_div_eq_mul_div, div_mul_eq_mul_div, div_div]
  simp only [Nat.pow_eq]
  push_cast
  rfl

/-- A quotient within whole bounds is rounded to a number within them. -/
theorem halfEven_bounds {num den low high : ℕ} (hd : 0 < den) (hlow : (low : ℚ) ≤ (num : ℚ) / den)
    (hhigh : (num : ℚ) / den < high) : low ≤ halfEven num den ∧ halfEven num den ≤ high := by
  have hden : (0 : ℚ) < den := by exact_mod_cast hd
  rw [le_div_iff₀ hden] at hlow
  rw [div_lt_iff₀ hden] at hhigh
  have hfloor : low ≤ num / den := (Nat.le_div_iff_mul_le hd).mpr (by exact_mod_cast hlow)
  have hceiling : num / den < high := (Nat.div_lt_iff_lt_mul hd).mpr (by exact_mod_cast hhigh)
  unfold halfEven
  split
  · omega
  · split
    · omega
    · split <;> omega

/-- The rounded significand has at most 53 bits, and 53 of them where the exponent is not the least one. -/
theorem significand_bounds {num den : ℕ} (hn : 0 < num) (hd : 0 < den) {q : ℤ}
    (hq : q = max (log2Floor num den - 52) (-1074)) :
    halfEven (num * Nat.pow 2 (-q).toNat) (den * Nat.pow 2 q.toNat) ≤ 2 ^ 53 ∧
      (q ≠ -1074 → 2 ^ 52 ≤ halfEven (num * Nat.pow 2 (-q).toNat) (den * Nat.pow 2 q.toNat)) := by
  have hratio := ratio_pos hn hd
  have hlow : ((2 : ℕ) : ℚ) ^ Int.log 2 ((num : ℚ) / den) ≤ (num : ℚ) / den :=
    Int.zpow_log_le_self (by omega) hratio
  have hhigh : (num : ℚ) / den < ((2 : ℕ) : ℚ) ^ (Int.log 2 ((num : ℚ) / den) + 1) :=
    Int.lt_zpow_succ_log_self (by omega) _
  rw [log2Floor_eq_log hn hd] at hq
  generalize Int.log 2 ((num : ℚ) / den) = place at hlow hhigh hq
  have hden : 0 < den * Nat.pow 2 q.toNat := Nat.mul_pos hd (Nat.pow_pos (by omega))
  have hpow : (0 : ℚ) < 2 ^ q := by positivity
  -- shifted by `q` the ratio lies below `2 ^ 53`, and not below `2 ^ 52` unless `q` is the least exponent
  have hupper : (num : ℚ) / den / 2 ^ q < (2 ^ 53 : ℕ) := by
    rw [div_lt_iff₀ hpow]
    calc (num : ℚ) / den < 2 ^ (place + 1) := hhigh
      _ ≤ 2 ^ (53 + q) := zpow_le_zpow_right₀ (by norm_num) (by omega)
      _ = (2 ^ 53 : ℕ) * 2 ^ q := by rw [zpow_add₀ (by norm_num)]; norm_num
  have hlower : q ≠ -1074 → ((2 ^ 52 : ℕ) : ℚ) ≤ (num : ℚ) / den / 2 ^ q := by
    intro hne
    rw [le_div_iff₀ hpow]
    calc ((2 ^ 52 : ℕ) : ℚ) * 2 ^ q = 2 ^ (52 + q) := by rw [zpow_add₀ (by norm_num)]; norm_num
      _ = 2 ^ place := by congr 1; omega
      _ ≤ (num : ℚ) / den := hlow
  rw [← shifted_ratio] at hupper hlower
  constructor
  · have hzero : ((0 : ℕ) : ℚ)
        ≤ ((num * Nat.pow 2 (-q).toNat : ℕ) : ℚ) / (den * Nat.pow 2 q.toNat : ℕ) := by positivity
    exact (halfEven_bounds hden hzero hupper).2
  · intro hne
    exact (halfEven_bounds hden (hlower hne) hupper).1

/-- What a number is rounded to is a double. -/
theorem nearest?_proper {num den : ℕ} (hd : 0 < den) (h : Binary.nearest? num den = some b) : b.Proper := by
  rcases Nat.eq_zero_or_pos num with hzero | hn
  · rw [Binary.nearest?, if_pos hzero] at h
    cases h
    exact ⟨by decide, by decide, by decide, .inr rfl⟩
  rw [Binary.nearest?, if_neg hn.ne'] at h
  dsimp only at h
  obtain ⟨q, hq⟩ : ∃ q, q = max (log2Floor num den - 52) (-1074) := ⟨_, rfl⟩
  obtain ⟨hbits, hnormal⟩ := significand_bounds hn hd hq
  have hleast : -1074 ≤ q := by omega
  rw [← hq] at h
  generalize halfEven (num * Nat.pow 2 (-q).toNat) (den * Nat.pow 2 q.toNat) = m at hbits hnormal h
  split at h
  · -- rounding has carried into a bit more
    split at h
    · cases h
    · next hplace =>
      obtain rfl := Option.some.inj h
      refine ⟨?_, by dsimp only; omega, not_lt.mp hplace, .inl le_rfl⟩
      show Nat.pow 2 52 < Nat.pow 2 53
      decide
  · next hfull =>
    split at h
    · cases h
    · next hplace =>
      obtain rfl := Option.some.inj h
      refine ⟨lt_of_le_of_ne hbits hfull, hleast, not_lt.mp hplace, ?_⟩
      by_cases hq' : q = -1074
      · exact .inr hq'
      · exact .inl (hnormal hq')

end Binary

/-- What a decimal is read as is a double. -/
theorem Decimal.binary?_proper {d : Decimal} {b : Binary} (h : d.binary? = some b) : b.Proper := by
  rw [d.binary?_eq_nearest?] at h
  exact Binary.nearest?_proper (Nat.pow_pos (by omega)) h

/-- A decimal that stands for a double is read as it. -/
theorem Decimal.binary?_eq_some {d : Decimal} {b : Binary} (proper : b.Proper)
    (h : d.value = b.value) : d.binary? = some b := by
  rw [d.binary?_eq_nearest?, ← proper.nearest?]
  refine Binary.nearest?_congr (Nat.pow_pos (by omega)) (Nat.pow_pos (by omega)) ?_
  rw [d.ratio_eq_value, b.ratio_eq_value, h]

end Bindery.Number
