import Bindery.Proofs.Number.Shortest
import Bindery.Proofs.Yaml.Numerals

/-!
# `Bindery.Proofs.Yaml.DoubleText` — doubles are read from the text they are written in

The text of a double has digits, perhaps a point with digits after it, and perhaps an exponent, but at
least one of the two. Such a spelling is read as the decimal that its digits and its exponent say, and the
text of a double spells its shortest decimal; zeros that fill it up do not change the number.

**Contents.** `Spelling`, with its text and its decimal; `Spelling.decimal?_text`; `Denotes` and
`denotes_decimalText`; `float?_text` and `ofPlain?_float`.
-/

namespace Bindery.Yaml

open Bindery.Number

/-! ## Spellings -/

/-- A way to write a decimal number. -/
structure Spelling where
  whole : List Char
  /-- the digits after the point, if there is one -/
  fraction : Option (List Char)
  exponent : Option Int

namespace Spelling

/-- The point and the digits after it. -/
def pointed : Option (List Char) → List Char
  | some fraction => '.' :: fraction
  | none => []

/-- The letter and the exponent after it. -/
def raised : Option Int → List Char
  | some exponent => 'e' :: (toString exponent).toList
  | none => []

/-- The characters of a spelling. -/
def text (spelling : Spelling) : List Char :=
  spelling.whole ++ (pointed spelling.fraction ++ raised spelling.exponent)

/-- The decimal that a spelling stands for. -/
def decimal (spelling : Spelling) : Decimal :=
  ⟨Nat.ofDigitChars 10 (spelling.whole ++ spelling.fraction.getD []) 0,
    spelling.exponent.getD 0 - (spelling.fraction.getD []).length⟩

/-- Only digits beside the point, some in front of it, and a point or an exponent. -/
structure Proper (spelling : Spelling) : Prop where
  starts : spelling.whole ≠ []
  whole_digits : ∀ c ∈ spelling.whole, c.isDigit = true
  fraction_digits : ∀ c ∈ spelling.fraction.getD [], c.isDigit = true
  marked : spelling.fraction.isSome ∨ spelling.exponent.isSome

variable {spelling : Spelling}

/-- Digits end where another character stands. -/
theorem span_digits {digits rest : List Char} (h : ∀ c ∈ digits, c.isDigit = true)
    (ends : ∀ c ∈ rest.head?, c.isDigit = false) :
    (digits ++ rest).takeWhile Char.isDigit = digits ∧ (digits ++ rest).dropWhile Char.isDigit = rest := by
  rw [List.takeWhile_append_of_pos h, List.dropWhile_append_of_pos h]
  cases rest with
  | nil => simp
  | cons c rest => simp [ends c rfl]

theorem raised_ends (exponent : Option Int) : ∀ c ∈ (raised exponent).head?, c.isDigit = false := by
  cases exponent <;> simp [raised]

/-- A spelling is read as its decimal. -/
theorem decimal?_text (proper : spelling.Proper) : decimal? spelling.text = some spelling.decimal := by
  obtain ⟨whole, fraction, exponent⟩ := spelling
  have hdigits : ∀ c ∈ whole ++ fraction.getD [], c.isDigit = true := by
    intro c hc
    rcases List.mem_append.mp hc with hc | hc
    · exact proper.whole_digits c hc
    · exact proper.fraction_digits c hc
  have hnumber := digitsIn?_eq (by simp [show whole ≠ [] from proper.starts]) hdigits
  have hwhole : ∀ c ∈ whole, c.isDigit = true := proper.whole_digits
  unfold text decimal? decimal
  dsimp only
  -- the digits before and after the point are read as one number, whether there is a point or not
  cases fraction with
  | none =>
    obtain ⟨htake, hdrop⟩ := span_digits hwhole (raised_ends exponent)
    simp only [Option.getD_none, List.append_nil] at hnumber
    simp only [pointed, List.nil_append, htake, hdrop]
    cases exponent with
    | none => simp [raised, hnumber]
    | some k =>
      have hread : exponent? k.repr.toList = some k := exponent?_toString k
      simp [raised, hnumber, hread]
  | some fraction =>
    have hfraction : ∀ c ∈ fraction, c.isDigit = true := proper.fraction_digits
    have hpoint : ∀ c ∈ ('.' :: (fraction ++ raised exponent)).head?, c.isDigit = false := by simp
    obtain ⟨htake, hdrop⟩ := span_digits hwhole hpoint
    obtain ⟨htake', hdrop'⟩ := span_digits hfraction (raised_ends exponent)
    simp only [Option.getD_some] at hnumber
    simp only [pointed, List.cons_append, htake, hdrop, List.head?_cons, if_true, List.tail_cons, htake',
      hdrop', hnumber]
    cases exponent with
    | none => simp [raised]
    | some k =>
      have hread : exponent? k.repr.toList = some k := exponent?_toString k
      simp [raised, hread]

end Spelling

/-! ## Texts of doubles -/

open Double (decimalText zeros)

theorem toList_digits (n : Nat) : (toString n).toList = Nat.toDigits 10 n := by
  rw [Nat.toString_eq_ofList_toDigits, String.toList_ofList]

/-- Zeros in front of digits say nothing. -/
theorem ofDigitChars_zeros (k n : Nat) :
    Nat.ofDigitChars 10 (List.replicate k '0' ++ Nat.toDigits 10 n) 0 = n := by
  rw [Nat.ofDigitChars_append, Nat.ofDigitChars_replicate_zero, Nat.mul_zero, Nat.ofDigitChars_ten_toDigits]

/-- Cutting digits in two changes nothing. -/
theorem ofDigitChars_cut (k n : Nat) :
    Nat.ofDigitChars 10 ((Nat.toDigits 10 n).take k ++ (Nat.toDigits 10 n).drop k) 0 = n := by
  rw [List.take_append_drop, Nat.ofDigitChars_ten_toDigits]

theorem digit_of_mem_zeros {k : Nat} {c : Char} (h : c ∈ List.replicate k '0') : c.isDigit = true := by
  rw [(List.mem_replicate.mp h).2]
  rfl

/-- A text spells a decimal that stands for the same number. -/
def Denotes (text : List Char) (d : Decimal) : Prop :=
  ∃ spelling : Spelling, spelling.Proper ∧ text = spelling.text ∧ spelling.decimal.value = d.value

section Denotes

variable {d : Decimal}

/-- A whole number is filled up with zeros. -/
theorem denotes_whole (h : 0 ≤ d.exponent) :
    Denotes (Nat.toDigits 10 d.digits ++ List.replicate d.exponent.toNat '0' ++ ['.', '0']) d := by
  refine ⟨⟨Nat.toDigits 10 d.digits ++ List.replicate d.exponent.toNat '0', some ['0'], none⟩,
    ⟨by simp [Nat.toDigits_ne_nil], ?_, by simp, by simp⟩,
    by simp [Spelling.text, Spelling.pointed, Spelling.raised], ?_⟩
  · intro c hc
    exact (List.mem_append.mp hc).elim digit_of_mem_toDigits digit_of_mem_zeros
  · have hvalue :
        Nat.ofDigitChars 10 (Nat.toDigits 10 d.digits ++ List.replicate d.exponent.toNat '0' ++ ['0']) 0
          = 10 * (10 ^ d.exponent.toNat * d.digits) := by
      rw [Nat.ofDigitChars_append, Nat.ofDigitChars_append, Nat.ofDigitChars_ten_toDigits,
        Nat.ofDigitChars_replicate_zero, Nat.ofDigitChars_cons, Nat.ofDigitChars_nil]
      rfl
    -- the zero after the point makes the digits ten times as many and lowers the exponent by one
    have hexponent : (10 : ℚ) ^ d.exponent = 10 ^ d.exponent.toNat := by
      rw [← zpow_natCast, Int.toNat_of_nonneg h]
    simp only [Spelling.decimal, Decimal.value, Option.getD_some, Option.getD_none, hvalue, hexponent]
    push_cast
    norm_num
    ring

/-- The point stands among the digits. -/
theorem denotes_cut (place : Nat) (hpos : 0 < place)
    (h : (place : Int) = (Nat.toDigits 10 d.digits).length + d.exponent) (hneg : d.exponent < 0) :
    Denotes ((Nat.toDigits 10 d.digits).take place ++ '.' :: (Nat.toDigits 10 d.digits).drop place) d := by
  refine ⟨⟨(Nat.toDigits 10 d.digits).take place, some ((Nat.toDigits 10 d.digits).drop place), none⟩,
    ⟨?_, ?_, ?_, by simp⟩, by simp [Spelling.text, Spelling.pointed, Spelling.raised], ?_⟩
  · simp [Nat.toDigits_ne_nil, hpos.ne']
  · intro c hc
    exact digit_of_mem_toDigits (List.mem_of_mem_take hc)
  · intro c hc
    exact digit_of_mem_toDigits (List.mem_of_mem_drop hc)
  · have hexponent : (0 : Int) - ((Nat.toDigits 10 d.digits).drop place).length = d.exponent := by
      rw [List.length_drop]
      omega
    simp only [Spelling.decimal, Option.getD_some, Option.getD_none, hexponent, ofDigitChars_cut]

/-- The digits stand behind the point and zeros. -/
theorem denotes_small (count : Nat)
    (h : -(count : Int) = (Nat.toDigits 10 d.digits).length + d.exponent) :
    Denotes ('0' :: '.' :: (List.replicate count '0' ++ Nat.toDigits 10 d.digits)) d := by
  refine ⟨⟨['0'], some (List.replicate count '0' ++ Nat.toDigits 10 d.digits), none⟩,
    ⟨by simp, by simp, ?_, by simp⟩, by simp [Spelling.text, Spelling.pointed, Spelling.raised], ?_⟩
  · intro c hc
    exact (List.mem_append.mp hc).elim digit_of_mem_zeros digit_of_mem_toDigits
  · have hexponent : (0 : Int) - (List.replicate count '0' ++ Nat.toDigits 10 d.digits).length
        = d.exponent := by
      rw [List.length_append, List.length_replicate]
      omega
    have hvalue := ofDigitChars_zeros (count + 1) d.digits
    rw [List.replicate_succ, List.cons_append] at hvalue
    simp only [Spelling.decimal, Option.getD_some, Option.getD_none, hexponent, List.singleton_append, hvalue]

/-- One digit stands in front of the point, and the exponent says where it belongs. -/
theorem denotes_raised :
    Denotes ((Nat.toDigits 10 d.digits).take 1
      ++ (if (Nat.toDigits 10 d.digits).drop 1 = [] then [] else '.' :: (Nat.toDigits 10 d.digits).drop 1)
      ++ 'e' :: (toString ((Nat.toDigits 10 d.digits).length + d.exponent - 1)).toList) d := by
  have hne : Nat.toDigits 10 d.digits ≠ [] := Nat.toDigits_ne_nil
  have hlength := List.length_pos_of_ne_nil hne
  have hcut := ofDigitChars_cut 1 d.digits
  have htake : ∀ c ∈ (Nat.toDigits 10 d.digits).take 1, c.isDigit = true := by
    intro c hc
    exact digit_of_mem_toDigits (List.mem_of_mem_take hc)
  split
  · -- a single digit has no point after it
    next hdrop =>
    refine ⟨⟨(Nat.toDigits 10 d.digits).take 1, none,
      some ((Nat.toDigits 10 d.digits).length + d.exponent - 1)⟩,
      ⟨by simp [hne], htake, by simp, by simp⟩,
      by simp [Spelling.text, Spelling.pointed, Spelling.raised], ?_⟩
    have hone : (Nat.toDigits 10 d.digits).length = 1 := by
      have := congrArg List.length hdrop
      rw [List.length_drop, List.length_nil] at this
      omega
    rw [hdrop] at hcut
    simp only [Spelling.decimal, Option.getD_some, Option.getD_none, hcut, hone]
    congr 2
    simp
  · refine ⟨⟨(Nat.toDigits 10 d.digits).take 1, some ((Nat.toDigits 10 d.digits).drop 1),
      some ((Nat.toDigits 10 d.digits).length + d.exponent - 1)⟩,
      ⟨by simp [hne], htake, ?_, by simp⟩,
      by simp [Spelling.text, Spelling.pointed, Spelling.raised], ?_⟩
    · intro c hc
      exact digit_of_mem_toDigits (List.mem_of_mem_drop hc)
    · have hexponent : ((Nat.toDigits 10 d.digits).length + d.exponent - 1)
          - (((Nat.toDigits 10 d.digits).drop 1).length : Int) = d.exponent := by
        rw [List.length_drop]
        omega
      simp only [Spelling.decimal, Option.getD_some, hcut, hexponent]

end Denotes

/-- The text of a decimal denotes it. -/
theorem denotes_decimalText (d : Decimal) : Denotes (decimalText d).toList d := by
  unfold decimalText
  simp only [toList_digits]
  split
  · next hzero =>
    refine ⟨⟨['0'], some ['0'], none⟩, ⟨by simp, by simp, by simp, by simp⟩, rfl, ?_⟩
    simp [Spelling.decimal, Decimal.value, hzero, Nat.ofDigitChars_cons]
  split
  · next hplace => simpa [toList_digits, zeros] using denotes_whole hplace.1
  split
  · next hplace =>
    generalize htoNat : (((Nat.toDigits 10 d.digits).length : Int) + d.exponent).toNat = place
    simpa [toList_digits] using denotes_cut (d := d) place (by omega) (by omega) (by omega)
  split
  · next hplace =>
    generalize htoNat : (-(((Nat.toDigits 10 d.digits).length : Int) + d.exponent)).toNat = count
    simpa [toList_digits, zeros] using denotes_small (d := d) count (by omega)
  · have h := denotes_raised (d := d)
    split at h <;> simp_all

/-! ## Reading doubles -/

namespace Spelling

variable {spelling : Spelling}

theorem head_text (proper : spelling.Proper) : ∃ c rest, spelling.text = c :: rest ∧ c.isDigit = true := by
  obtain ⟨c, rest, hwhole⟩ := List.exists_cons_of_ne_nil proper.starts
  refine ⟨c, rest ++ (pointed spelling.fraction ++ raised spelling.exponent), ?_, ?_⟩
  · rw [text, hwhole, List.cons_append]
  · exact proper.whole_digits c (by rw [hwhole]; exact List.mem_cons_self)

/-- Beside digits there are only the point, the letter of the exponent and its sign. -/
theorem mem_text (proper : spelling.Proper) {c : Char} (h : c ∈ spelling.text) :
    c.isDigit = true ∨ c ∈ ['.', 'e', '-'] := by
  obtain ⟨whole, fraction, exponent⟩ := spelling
  rcases List.mem_append.mp h with h | h
  · exact .inl (proper.whole_digits c h)
  rcases List.mem_append.mp h with h | h
  · cases fraction with
    | none => cases h
    | some fraction =>
      rcases List.mem_cons.mp h with rfl | h
      · exact .inr (by simp)
      · exact .inl (proper.fraction_digits c h)
  · cases exponent with
    | none => cases h
    | some k =>
      rcases List.mem_cons.mp h with rfl | h
      · exact .inr (by simp)
      · rcases toList_toString k with ⟨m, _, htext⟩ | ⟨m, _, htext⟩
        · rw [htext] at h
          exact .inl (digit_of_mem_toDigits h)
        · rw [htext] at h
          rcases List.mem_cons.mp h with rfl | h
          · exact .inr (by simp)
          · exact .inl (digit_of_mem_toDigits h)

/-- A point or an exponent is there. -/
theorem exists_mark (proper : spelling.Proper) : ∃ c ∈ spelling.text, c.isDigit = false := by
  obtain ⟨whole, fraction, exponent⟩ := spelling
  rcases proper.marked with hsome | hsome
  · obtain ⟨fraction, rfl⟩ := Option.isSome_iff_exists.mp hsome
    exact ⟨'.', by simp [text, pointed], by decide⟩
  · obtain ⟨k, rfl⟩ := Option.isSome_iff_exists.mp hsome
    exact ⟨'e', by simp [text, raised], by decide⟩

/-- A spelling is not only digits with a zero in front. -/
theorem hasLeadingZero_text (proper : spelling.Proper) : hasLeadingZero spelling.text = false := by
  obtain ⟨c, hmem, hc⟩ := exists_mark proper
  have hall : spelling.text.all Char.isDigit = false := by
    rw [List.all_eq_false]
    exact ⟨c, hmem, by simp [hc]⟩
  simp [hasLeadingZero, hall]

/-- A spelling is no integer. -/
theorem magnitude?_text (proper : spelling.Proper) : magnitude? spelling.text = none := by
  have hbase (c : Char) (hc : c.isDigit = false ∧ c ∉ ['.', 'e', '-']) (digits : List Char) :
      spelling.text ≠ '0' :: c :: digits := by
    intro heq
    rcases mem_text proper (c := c) (by rw [heq]; simp) with h | h
    · rw [h] at hc
      cases hc.1
    · exact hc.2 h
  unfold magnitude?
  split
  · next heq => exact absurd heq (hbase _ (by decide) _)
  · next heq => exact absurd heq (hbase _ (by decide) _)
  · next heq => exact absurd heq (hbase _ (by decide) _)
  · obtain ⟨c, hmem, hc⟩ := exists_mark proper
    rw [hasLeadingZero_text proper, if_neg (by decide), digitsIn?, digitsFrom?_eq_none hmem hc]
    exact ite_self none

end Spelling

variable {negative : Bool} {d : Decimal}

theorem toList_text_negative : (Double.finite true d).text.toList = '-' :: (decimalText d).toList := by
  simp [Double.text]

theorem toList_text_positive : (Double.finite false d).text.toList = (decimalText d).toList := by
  simp [Double.text]

/-- Without its sign, the text of a finite double is a spelling that starts with a digit. -/
theorem exists_spelling (d : Decimal) : ∃ spelling : Spelling, spelling.Proper ∧
    (decimalText d).toList = spelling.text ∧
    ∃ c rest, (decimalText d).toList = c :: rest ∧ c.isDigit = true ∧ c ≠ '-' ∧ c ≠ '+' := by
  obtain ⟨spelling, proper, htext, _⟩ := denotes_decimalText d
  obtain ⟨c, rest, hcons, hc⟩ := Spelling.head_text proper
  refine ⟨spelling, proper, htext, c, rest, htext.trans hcons, hc, ?_, ?_⟩
  · rintro rfl
    exact absurd hc (by decide)
  · rintro rfl
    exact absurd hc (by decide)

theorem numeric_text_finite : Numeric (Double.finite negative d).text := by
  obtain ⟨_, _, _, c, rest, hcons, hc, _, _⟩ := exists_spelling d
  cases negative with
  | true => exact ⟨'-', by rw [toList_text_negative]; rfl, .inr rfl⟩
  | false => exact ⟨c, by rw [toList_text_positive, hcons]; rfl, .inl hc⟩

theorem positiveFloat?_denotes {text : List Char} (proper : (Double.finite negative d).Proper)
    (h : Denotes text d) : positiveFloat? negative text = some (.finite negative d) := by
  obtain ⟨spelling, hspelling, rfl, hvalue⟩ := h
  obtain ⟨c, rest, htext, hc⟩ := Spelling.head_text hspelling
  have numeric : Numeric (String.ofList spelling.text) :=
    ⟨c, by rw [String.toList_ofList, htext]; rfl, .inl hc⟩
  have hword := numeric.not_mem [".inf", ".Inf", ".INF"] (by decide)
  rw [positiveFloat?, if_neg (by simpa using hword), Spelling.decimal?_text hspelling]
  exact proper.ofDecimal? hvalue

/-- A double is read from its text. -/
theorem float?_text {x : Double} (proper : x.Proper) : float? x.text.toList = some x := by
  cases x with
  | nan => rfl
  | infinite negative => cases negative <;> rfl
  | finite negative d =>
    have hread := positiveFloat?_denotes proper (denotes_decimalText d)
    have numeric : Numeric (Double.finite negative d).text := numeric_text_finite
    have hword := numeric.not_mem [".nan", ".NaN", ".NAN"] (by decide)
    unfold float?
    rw [if_neg (by simpa using hword)]
    cases negative with
    | true => simp [toList_text_negative, hread]
    | false =>
      obtain ⟨_, _, _, c, rest, hcons, _, hminus, hplus⟩ := exists_spelling d
      rw [hcons] at hread
      rw [toList_text_positive, hcons]
      simp [hminus, hplus, hread]

/-- The text of a finite double is no integer. -/
theorem integer?_text_finite : integer? (Double.finite negative d).text.toList = none := by
  obtain ⟨spelling, proper, htext, c, rest, hcons, _, hminus, hplus⟩ := exists_spelling d
  have hmagnitude := Spelling.magnitude?_text proper
  rw [← htext] at hmagnitude
  cases negative with
  | true => simp [toList_text_negative, integer?, hmagnitude]
  | false =>
    rw [hcons] at hmagnitude
    simp [toList_text_positive, hcons, integer?, hminus, hplus, hmagnitude]

theorem hasLeadingZero_text_finite :
    hasLeadingZero ((Double.finite negative d).text.toList.dropWhile fun c => c == '+' || c == '-') = false := by
  obtain ⟨spelling, proper, htext, c, rest, hcons, _, hminus, hplus⟩ := exists_spelling d
  have hzero := Spelling.hasLeadingZero_text proper
  rw [← htext, hcons] at hzero
  cases negative with
  | true => simp [toList_text_negative, hcons, hminus, hplus, hzero]
  | false => simp [toList_text_positive, hcons, hminus, hplus, hzero]

/-- A plain scalar with the text of a double is the double. -/
theorem ofPlain?_float {x : Double} (proper : x.Proper) : Value.ofPlain? x.text = some (.float x) := by
  cases x with
  | nan => rfl
  | infinite negative => cases negative <;> rfl
  | finite negative d =>
    have numeric : Numeric (Double.finite negative d).text := numeric_text_finite
    have hfloat := float?_text proper
    simp only [Value.ofPlain?, numeric.not_empty, numeric.not_isNull, numeric.bool?_eq,
      integer?_text_finite, Value.floatOrText, hasLeadingZero_text_finite, hfloat]
    rfl

end Bindery.Yaml
