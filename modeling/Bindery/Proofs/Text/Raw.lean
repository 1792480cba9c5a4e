import Bindery.Text.Raw
import Mathlib.Data.List.Basic
import Mathlib.Tactic.SplitIfs

/-!
# `Proofs.Text.Raw` — bytes that are a text

The bytes of a text are shown as that text (`Raw.text_ofText`), because the bytes of each character are read off as
that character, whatever comes after them (`Raw.chars_encode`). So what is shown for bytes that are a text is all that
there is to them (`Raw.IsText.ofText_text`), which does not hold of other bytes.

**Contents.** `Raw.chars_encode` and `Raw.text_ofText`; `Raw.IsText`.
-/

namespace Bindery.Raw

theorem bytes_ofText (text : String) : (ofText text).bytes = text.toList.flatMap String.utf8EncodeChar := by
  unfold ofText
  rw [String.toUTF8_eq_toByteArray, ← String.utf8Encode_toList]
  unfold List.utf8Encode
  rw [List.toList_data_toByteArray]

@[simp] theorem ofText_append (front back : String) : ofText (front ++ back) = ofText front ++ ofText back := by
  refine Raw.ext ?_
  rw [bytes_append, bytes_ofText, bytes_ofText, bytes_ofText, String.toList_append, List.flatMap_append]

/-! ## Reading a character off -/

theorem toNat_ofNat {n : Nat} (h : n < 256) : (UInt8.ofNat n).toNat = n := by
  rw [UInt8.toNat_ofNat', Nat.mod_eq_of_lt h]

/-- The bytes after the first one of a character. -/
theorem tail_bounds (n : Nat) :
    0x80 ≤ UInt8.ofNat (n % 64 + 128) ∧ UInt8.ofNat (n % 64 + 128) ≤ 0xBF ∧
      (UInt8.ofNat (n % 64 + 128)).toNat - 0x80 = n % 64 := by
  have htail : (UInt8.ofNat (n % 64 + 128)).toNat = n % 64 + 128 := toNat_ofNat (by omega)
  simp only [UInt8.le_iff_toNat_le, UInt8.reduceToNat, htail]
  omega

theorem Lead.of?_two {n : Nat} (hleast : 0x7F < n) (hmost : n ≤ 0x7FF) :
    Lead.of? (.ofNat (n / 64 % 32 + 192)) = some { value := n / 64, more := 0 } := by
  have hfirst : (UInt8.ofNat (n / 64 % 32 + 192)).toNat = n / 64 + 192 := by
    rw [toNat_ofNat (by omega)]
    omega
  generalize UInt8.ofNat (n / 64 % 32 + 192) = first at hfirst ⊢
  unfold Lead.of?
  simp only [UInt8.lt_iff_toNat_lt, UInt8.reduceToNat, hfirst]
  rw [if_neg (by omega), if_pos (by omega), Nat.add_sub_cancel]

/-- The first of three bytes, which no surrogate is behind. -/
theorem Lead.of?_three {n : Nat} (hleast : 0x7FF < n) (hmost : n ≤ 0xFFFF) (hplain : n < 0xD800 ∨ 0xDFFF < n) :
    ∃ low high, Lead.of? (.ofNat (n / 4096 % 16 + 224)) = some ⟨n / 4096, 1, low, high⟩ ∧
      low ≤ .ofNat (n / 64 % 64 + 128) ∧ .ofNat (n / 64 % 64 + 128) ≤ high := by
  have hfirst : (UInt8.ofNat (n / 4096 % 16 + 224)).toNat = n / 4096 + 224 := by
    rw [toNat_ofNat (by omega)]
    omega
  have hsecond : (UInt8.ofNat (n / 64 % 64 + 128)).toNat = n / 64 % 64 + 128 := toNat_ofNat (by omega)
  generalize UInt8.ofNat (n / 4096 % 16 + 224) = first at hfirst ⊢
  generalize UInt8.ofNat (n / 64 % 64 + 128) = second at hsecond ⊢
  refine ⟨if first = 0xE0 then 0xA0 else 0x80, if first = 0xED then 0x9F else 0xBF, ?_, ?_⟩
  · unfold Lead.of?
    simp only [UInt8.lt_iff_toNat_lt, UInt8.reduceToNat, hfirst]
    rw [if_neg (by omega), if_neg (by omega), if_pos (by omega), Nat.add_sub_cancel]
  · constructor <;> split_ifs with h <;>
      simp only [UInt8.le_iff_toNat_le, ← UInt8.toNat_inj, UInt8.reduceToNat, hfirst, hsecond] at h ⊢ <;> omega

/-- The first of four bytes, which no number past the last character is behind. -/
theorem Lead.of?_four {n : Nat} (hleast : 0xFFFF < n) (hmost : n < 0x110000) :
    ∃ low high, Lead.of? (.ofNat (n / 262144 % 8 + 240)) = some ⟨n / 262144, 2, low, high⟩ ∧
      low ≤ .ofNat (n / 4096 % 64 + 128) ∧ .ofNat (n / 4096 % 64 + 128) ≤ high := by
  have hfirst : (UInt8.ofNat (n / 262144 % 8 + 240)).toNat = n / 262144 + 240 := by
    rw [toNat_ofNat (by omega)]
    omega
  have hsecond : (UInt8.ofNat (n / 4096 % 64 + 128)).toNat = n / 4096 % 64 + 128 := toNat_ofNat (by omega)
  generalize UInt8.ofNat (n / 262144 % 8 + 240) = first at hfirst ⊢
  generalize UInt8.ofNat (n / 4096 % 64 + 128) = second at hsecond ⊢
  refine ⟨if first = 0xF0 then 0x90 else 0x80, if first = 0xF4 then 0x8F else 0xBF, ?_, ?_⟩
  · unfold Lead.of?
    simp only [UInt8.lt_iff_toNat_lt, UInt8.reduceToNat, hfirst]
    rw [if_neg (by omega), if_neg (by omega), if_neg (by omega), if_pos (by omega), Nat.add_sub_cancel]
  · constructor <;> split_ifs with h <;>
      simp only [UInt8.le_iff_toNat_le, ← UInt8.toNat_inj, UInt8.reduceToNat, hfirst, hsecond] at h ⊢ <;> omega

section Chars

variable {value more : Nat} {low high byte : UInt8} {rest : List UInt8}

theorem chars_narrow (hbyte : byte < 0x80) : chars none (byte :: rest) = Char.ofNat byte.toNat :: chars none rest := by
  rw [chars, next, start, if_pos hbyte]
  rfl

theorem chars_first {lead : Lead} (hlead : Lead.of? byte = some lead) :
    chars none (byte :: rest) = chars (some lead) rest := by
  have hwide : ¬byte < 0x80 := by
    intro hnarrow
    unfold Lead.of? at hlead
    rw [if_pos] at hlead
    · cases hlead
    · exact Std.lt_trans hnarrow (by decide)
  rw [chars, next, start, if_neg hwide, hlead]
  rfl

theorem chars_next (hlow : low ≤ byte) (hhigh : byte ≤ high) :
    chars (some ⟨value, more + 1, low, high⟩) (byte :: rest) =
      chars (some { value := value * 64 + (byte.toNat - 0x80), more }) rest := by
  rw [chars, next, if_pos ⟨hlow, hhigh⟩]
  rfl

theorem chars_last (hlow : low ≤ byte) (hhigh : byte ≤ high) :
    chars (some ⟨value, 0, low, high⟩) (byte :: rest) =
      Char.ofNat (value * 64 + (byte.toNat - 0x80)) :: chars none rest := by
  rw [chars, next, if_pos ⟨hlow, hhigh⟩]
  rfl

/-- **The bytes of a character are read off as that character.** -/
theorem chars_encode (c : Char) (rest : List UInt8) :
    chars none (String.utf8EncodeChar c ++ rest) = c :: chars none rest := by
  have hvalid := c.valid
  have hc : Char.ofNat c.val.toNat = c := c.ofNat_toNat
  unfold UInt32.isValidChar Nat.isValidChar at hvalid
  unfold String.utf8EncodeChar
  generalize c.val.toNat = n at hvalid hc ⊢
  obtain ⟨hlow, hhigh, htail⟩ := tail_bounds n
  obtain ⟨hlow', hhigh', htail'⟩ := tail_bounds (n / 64)
  have htail'' : (UInt8.ofNat (n / 4096 % 64 + 128)).toNat - 0x80 = n / 4096 % 64 := (tail_bounds _).2.2
  dsimp only
  -- one case for each number of bytes
  split_ifs with hone htwo hthree
  · have hbyte : (UInt8.ofNat n).toNat = n := toNat_ofNat (by omega)
    have hnarrow : UInt8.ofNat n < 0x80 := by
      rw [UInt8.lt_iff_toNat_lt, hbyte]
      exact Nat.lt_succ_of_le hone
    rw [List.singleton_append, chars_narrow hnarrow, hbyte, hc]
  · have hlead := Lead.of?_two (Nat.lt_of_not_le hone) htwo
    have hvalue : n / 64 * 64 + n % 64 = n := by omega
    rw [List.cons_append, List.singleton_append, chars_first hlead, chars_last hlow hhigh, htail, hvalue, hc]
  · obtain ⟨low, high, hlead, hleast, hmost⟩ := Lead.of?_three (Nat.lt_of_not_le htwo) hthree (by omega)
    have hvalue : (n / 4096 * 64 + n / 64 % 64) * 64 + n % 64 = n := by omega
    rw [List.cons_append, List.cons_append, List.singleton_append, chars_first hlead, chars_next hleast hmost,
      chars_last hlow hhigh, htail', htail, hvalue, hc]
  · obtain ⟨low, high, hlead, hleast, hmost⟩ := Lead.of?_four (Nat.lt_of_not_le hthree) (by omega)
    have hvalue : ((n / 262144 * 64 + n / 4096 % 64) * 64 + n / 64 % 64) * 64 + n % 64 = n := by omega
    rw [List.cons_append, List.cons_append, List.cons_append, List.singleton_append, chars_first hlead,
      chars_next hleast hmost, chars_next hlow' hhigh', chars_last hlow hhigh, htail'', htail', htail, hvalue, hc]

end Chars

/-! ## Texts -/

/-- **The bytes of a text are shown as the text.** -/
@[simp] theorem text_ofText (text : String) : (ofText text).text = text := by
  have hchars (cs : List Char) : chars none (cs.flatMap String.utf8EncodeChar) = cs := by
    induction cs with
    | nil => rfl
    | cons c cs ih => rw [List.flatMap_cons, chars_encode, ih]
  unfold Raw.text
  rw [bytes_ofText, hchars, String.ofList_toList]

/-- A character that is broken off is shown once, and so is a byte that begins none. -/
example : chars none [0x61, 0xE2, 0x82, 0x62, 0xFF] = ['a', '\uFFFD', 'b', '\uFFFD'] := by decide

@[simp] theorem ofText_inj {text text' : String} : ofText text = ofText text' ↔ text = text' := by
  constructor
  · intro h
    rw [← text_ofText text, h, text_ofText]
  · rintro rfl
    rfl

/-- Bytes that are a text in UTF-8. -/
def IsText (raw : Raw) : Prop :=
  ∃ text, raw = ofText text

theorem isText_ofText (text : String) : (ofText text).IsText :=
  ⟨text, rfl⟩

theorem IsText.ofText_text {raw : Raw} (h : raw.IsText) : ofText raw.text = raw := by
  obtain ⟨text, rfl⟩ := h
  rw [text_ofText]

instance (raw : Raw) : Decidable raw.IsText :=
  decidable_of_iff (ofText raw.text = raw) ⟨fun heq => ⟨_, heq.symm⟩, IsText.ofText_text⟩

end Bindery.Raw
