import Bindery.Yaml.Value

/-!
# `Bindery.Proofs.Yaml.Numerals` — integers are read from their digits

An integer is written with the decimal digits of its magnitude. The reader of plain scalars takes them for
this integer and for nothing else that a plain scalar may look like: digits do not start with zero, and no
word for null or a boolean starts as a number does.

**Contents.** `digitsFrom?_eq` and `digitsFrom?_eq_none`, the value of digits; `magnitude?_toDigits`,
`integer?_toString` and `exponent?_toString`; `Numeric`, texts that start as numbers do; `ofPlain?_int`.
-/

namespace Bindery.Yaml

open Bindery.Number

/-! ## Digits -/

theorem digitValue?_of_digit {c : Char} (h : c.isDigit = true) :
    digitValue? c = some (c.toNat - '0'.toNat) := by
  rw [digitValue?, if_pos h]

/-- The number that decimal digits stand for. -/
theorem digitsFrom?_eq {text : List Char} (h : ∀ c ∈ text, c.isDigit = true) (value : Nat) :
    digitsFrom? 10 value text = some (Nat.ofDigitChars 10 text value) := by
  induction text generalizing value with
  | nil => rfl
  | cons c text ih =>
    have hc := h c List.mem_cons_self
    have hless : c.toNat - '0'.toNat < 10 := by
      have hrange : 48 ≤ c.toNat ∧ c.toNat ≤ 57 := Char.isDigit_iff_toNat.mp hc
      show c.toNat - 48 < 10
      omega
    simp only [digitsFrom?, digitValue?_of_digit hc, Option.bind_eq_bind, Option.bind_some, if_pos hless]
    rw [ih (fun c hmem => h c (List.mem_cons_of_mem _ hmem)), Nat.ofDigitChars_cons]

/-- Other characters are no decimal digits. -/
theorem digitsFrom?_eq_none {text : List Char} {c : Char} (hmem : c ∈ text) (h : c.isDigit = false)
    (value : Nat) : digitsFrom? 10 value text = none := by
  induction text generalizing value with
  | nil => cases hmem
  | cons d text ih =>
    rw [digitsFrom?]
    cases hdigit : digitValue? d with
    | none => rfl
    | some digit =>
      simp only [Option.bind_eq_bind, Option.bind_some]
      split
      · next hless =>
        rcases List.mem_cons.mp hmem with rfl | hmem
        · -- a letter counts from ten on
          simp only [digitValue?, h] at hdigit
          split at hdigit
          · contradiction
          · split at hdigit
            · have := Option.some.inj hdigit
              omega
            · split at hdigit
              · have := Option.some.inj hdigit
                omega
              · cases hdigit
        · exact ih hmem _
      · rfl

theorem digitsIn?_eq {text : List Char} (hne : text ≠ []) (h : ∀ c ∈ text, c.isDigit = true) :
    digitsIn? 10 text = some (Nat.ofDigitChars 10 text 0) := by
  rw [digitsIn?, if_neg (by simpa using hne), digitsFrom?_eq h]

/-! ## Integers -/

theorem digit_of_mem_toDigits {n : Nat} {c : Char} (h : c ∈ Nat.toDigits 10 n) : c.isDigit = true :=
  Nat.isDigit_of_mem_toDigits (by omega) (by omega) h

theorem digitsIn?_toDigits (n : Nat) : digitsIn? 10 (Nat.toDigits 10 n) = some n := by
  rw [digitsIn?_eq Nat.toDigits_ne_nil fun c => digit_of_mem_toDigits, Nat.ofDigitChars_ten_toDigits]

/-- The digits of a positive number do not start with zero. -/
theorem head_toDigits {n : Nat} (h : 0 < n) : (Nat.toDigits 10 n).head? ≠ some '0' := by
  -- the last digit is cut off until one is left, which is the number itself
  induction n using Nat.strongRecOn with
  | ind n ih =>
    rw [Nat.toDigits_eq_if (by omega)]
    split
    · next hless =>
      have hdigit : ∀ n : Fin 10, 0 < n.val → n.val.digitChar ≠ '0' := by decide
      intro hhead
      exact hdigit ⟨n, hless⟩ h (by simpa using hhead)
    · next hless =>
      obtain ⟨c, rest, hcons⟩ := List.exists_cons_of_ne_nil (Nat.toDigits_ne_nil (n := n / 10) (b := 10))
      have hhead := ih (n / 10) (by omega) (by omega)
      rw [hcons] at hhead ⊢
      exact hhead

theorem hasLeadingZero_toDigits (n : Nat) : hasLeadingZero (Nat.toDigits 10 n) = false := by
  rcases Nat.eq_zero_or_pos n with rfl | hpos
  · decide
  · simp [hasLeadingZero, head_toDigits hpos]

theorem magnitude?_toDigits (n : Nat) : magnitude? (Nat.toDigits 10 n) = some n := by
  unfold magnitude?
  have hbase (c : Char) (hc : c.isDigit = false) (digits : List Char) :
      Nat.toDigits 10 n ≠ '0' :: c :: digits := by
    intro heq
    have := digit_of_mem_toDigits (n := n) (c := c) (by rw [heq]; simp)
    rw [this] at hc
    cases hc
  split
  · next heq => exact absurd heq (hbase _ (by decide) _)
  · next heq => exact absurd heq (hbase _ (by decide) _)
  · next heq => exact absurd heq (hbase _ (by decide) _)
  · rw [hasLeadingZero_toDigits, if_neg (by decide), digitsIn?_toDigits]

/-- An integer is written with the digits of its magnitude, after a minus sign if it is negative. -/
theorem toList_toString (n : Int) :
    (∃ m : Nat, n = m ∧ (toString n).toList = Nat.toDigits 10 m) ∨
      ∃ m : Nat, n = -(m : Int) ∧ (toString n).toList = '-' :: Nat.toDigits 10 m := by
  cases n with
  | ofNat m => exact .inl ⟨m, rfl, by simp [toString, Int.repr]⟩
  | negSucc m => exact .inr ⟨m + 1, rfl, by simp [toString, Int.repr]⟩

/-- Digits do not start with a sign. -/
theorem toDigits_ne_sign {n : Nat} {c : Char} (h : c.isDigit = false) (rest : List Char) :
    Nat.toDigits 10 n ≠ c :: rest := by
  intro heq
  have hdigit := digit_of_mem_toDigits (n := n) (c := c) (by rw [heq]; exact List.mem_cons_self)
  rw [hdigit] at h
  cases h

theorem integer?_toString (n : Int) : integer? (toString n).toList = some n := by
  rcases toList_toString n with ⟨m, rfl, htext⟩ | ⟨m, rfl, htext⟩
  · rw [htext, integer?, magnitude?_toDigits]
    · rfl
    · exact toDigits_ne_sign (by decide)
    · exact toDigits_ne_sign (by decide)
  · rw [htext, integer?, magnitude?_toDigits]
    rfl

theorem exponent?_toString (n : Int) : exponent? (toString n).toList = some n := by
  rcases toList_toString n with ⟨m, rfl, htext⟩ | ⟨m, rfl, htext⟩
  · rw [htext, exponent?, digitsIn?_toDigits]
    · rfl
    · exact toDigits_ne_sign (by decide)
    · exact toDigits_ne_sign (by decide)
  · rw [htext, exponent?, digitsIn?_toDigits]
    rfl

/-! ## Words that are no numbers -/

/-- The text starts as a number does. -/
def Numeric (text : String) : Prop :=
  ∃ c ∈ text.toList.head?, c.isDigit = true ∨ c = '-'

namespace Numeric

variable {text : String}

/-- A word that starts otherwise is another one. -/
theorem not_mem (numeric : Numeric text) (words : List String)
    (h : words.all (fun word => word.toList.head?.all fun c => !c.isDigit && c != '-') = true) :
    text ∉ words := by
  intro hmem
  obtain ⟨c, hc, hstart⟩ := numeric
  have hword := List.all_eq_true.mp h text hmem
  rw [hc] at hword
  rcases hstart with hdigit | rfl
  · simp [hdigit] at hword
  · simp at hword

theorem not_empty (numeric : Numeric text) : text.isEmpty = false := by
  obtain ⟨c, hc, _⟩ := numeric
  cases hempty : text.isEmpty with
  | false => rfl
  | true =>
    rw [String.isEmpty_iff.mp hempty] at hc
    cases hc

theorem not_isNull (numeric : Numeric text) : Value.isNull text = false := by
  have h := numeric.not_mem ["null", "Null", "NULL", "~"] (by decide)
  simpa [Value.isNull] using h

theorem bool?_eq (numeric : Numeric text) : Value.bool? text = none := by
  have htrue := numeric.not_mem ["true", "True", "TRUE"] (by decide)
  have hfalse := numeric.not_mem ["false", "False", "FALSE"] (by decide)
  rw [Value.bool?, if_neg (by simpa using htrue), if_neg (by simpa using hfalse)]

end Numeric

theorem numeric_toString (n : Int) : Numeric (toString n) := by
  rcases toList_toString n with ⟨m, rfl, htext⟩ | ⟨m, rfl, htext⟩
  · obtain ⟨c, rest, hdigits⟩ := List.exists_cons_of_ne_nil (Nat.toDigits_ne_nil (n := m) (b := 10))
    refine ⟨c, by rw [htext, hdigits]; rfl, .inl (digit_of_mem_toDigits (n := m) ?_)⟩
    rw [hdigits]
    exact List.mem_cons_self
  · exact ⟨'-', by rw [htext]; rfl, .inr rfl⟩

/-- An integer that is a value is read from its digits. -/
theorem ofPlain?_int {n : Int} (h : isWithin 64 n = true) : Value.ofPlain? (toString n) = some (.int n) := by
  have numeric := numeric_toString n
  have hsize : Size.of n = .fits := if_pos h
  simp only [Value.ofPlain?, numeric.not_empty, numeric.not_isNull, numeric.bool?_eq, integer?_toString, hsize]
  rfl

end Bindery.Yaml
