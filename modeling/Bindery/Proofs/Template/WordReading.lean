import Bindery.Proofs.Template.Printer

/-!
# `Proofs.Template.WordReading` — printed words are read back

A name is read as far as it reaches, so a printed name is read back when nothing after it continues it;
a printed string is read back whatever follows its closing quote. White space and the marks of the
grammar are no name characters, which is what keeps printed words apart.

**Contents.**
* `not_blank_of_nameChar`, `nameStart_ne` — what name characters are not;
* `name_append`, `keyword_append`, `path_append` — names, keywords and paths in front of other text;
* `quoted_quote` — strings in front of other text.
-/

namespace Bindery.Template

open Bindery.Text

/-! ## Name characters -/

/-- A name start is a name character. -/
theorem nameChar_of_nameStart {c : Char} (h : isNameStart c = true) : isNameChar c = true := by
  simp only [isNameStart, isNameChar, Bool.or_eq_true] at h ⊢
  rcases h with h | h
  · exact Or.inl (Or.inl (Or.inl h))
  · exact Or.inl (Or.inr h)

/-- The code points of white space. -/
def blankPoints : List Nat :=
  [0x09, 0x0A, 0x0B, 0x0C, 0x0D, 0x20, 0x85, 0xA0, 0x1680, 0x2000, 0x2001, 0x2002, 0x2003, 0x2004,
    0x2005, 0x2006, 0x2007, 0x2008, 0x2009, 0x200A, 0x2028, 0x2029, 0x202F, 0x205F, 0x3000]

theorem mem_blankPoints {c : Char} (h : isBlank c = true) : c.toNat ∈ blankPoints := by
  simp only [isBlank, Bool.or_eq_true, Bool.and_eq_true, decide_eq_true_eq, beq_iff_eq] at h
  simp only [blankPoints, List.mem_cons, List.not_mem_nil, or_false]
  omega

/-- No white space is a name character. -/
theorem nameChar_blankPoints : ∀ n ∈ blankPoints, isNameChar (Char.ofNat n) = false := by
  decide +kernel

/-- A name character is not white space. -/
theorem not_blank_of_nameChar {c : Char} (h : isNameChar c = true) : isBlank c = false := by
  cases hb : isBlank c with
  | false => rfl
  | true =>
    have hc := nameChar_blankPoints c.toNat (mem_blankPoints hb)
    rw [Char.ofNat_toNat, h] at hc
    exact absurd hc (by simp)

/-- White space between words is white space. -/
theorem blank_of_space {c : Char} (h : isSpace c = true) : isBlank c = true := by
  simp only [isSpace, Bool.or_eq_true, beq_iff_eq] at h
  rcases h with ((rfl | rfl) | rfl) | rfl <;> rfl

/-- A character that is no name start differs from every name start. -/
theorem nameStart_ne {c d : Char} (h : isNameStart c = true) (hd : isNameStart d = false) : c ≠ d := by
  rintro rfl
  rw [h] at hd
  exact absurd hd (by simp)

/-- A name character differs from everything that is none. -/
theorem nameChar_ne {c d : Char} (h : isNameChar c = true) (hd : isNameChar d = false) : c ≠ d := by
  rintro rfl
  rw [h] at hd
  exact absurd hd (by simp)

/-- No digit starts a name. -/
theorem not_digit_of_nameStart {c : Char} (h : isNameStart c = true) : c.isDigit = false := by
  cases hd : c.isDigit with
  | false => rfl
  | true =>
    obtain ⟨hlo, hhi⟩ : 48 ≤ c.toNat ∧ c.toNat ≤ 57 := Char.isDigit_iff_toNat.mp hd
    have hlow : c.toNat < 0x80 := by omega
    -- a digit is ASCII, where the letters are the ranges `A` to `Z` and `a` to `z`
    simp only [isNameStart, isLetter, hlow, if_true, Bool.or_eq_true, beq_iff_eq] at h
    rcases h with h | rfl
    · have hhi' : c.val.toNat ≤ 57 := hhi
      obtain hupper | hlower : c.isUpper = true ∨ c.isLower = true := Bool.or_eq_true_iff.mp h
      · have hfirst : 'A'.val ≤ c.val := (of_decide_eq_true hupper).1
        exact absurd (Nat.le_trans (UInt32.le_iff_toNat_le.mp hfirst) hhi') (by decide)
      · have hfirst : 'a'.val ≤ c.val := of_decide_eq_true (Bool.and_eq_true_iff.mp hlower).1
        exact absurd (Nat.le_trans (UInt32.le_iff_toNat_le.mp hfirst) hhi') (by decide)
    · exact absurd hhi (by decide)

/-- The characters of a name: a name start, then name characters. -/
theorem isName_cases {word : String} (h : isName word = true) :
    ∃ c rest, spell word = c :: rest ∧ isNameStart c = true ∧ ∀ d ∈ rest, isNameChar d = true := by
  unfold isName at h
  split at h
  · exact absurd h (by simp)
  · next c rest hw =>
    rw [Bool.and_eq_true, List.all_eq_true] at h
    exact ⟨c, rest, hw, h.1, h.2⟩

/-- Every character of a name is a name character. -/
theorem nameChar_of_mem {word : String} (h : isName word = true) :
    ∀ c ∈ spell word, isNameChar c = true := by
  obtain ⟨c, rest, hw, hc, hrest⟩ := isName_cases h
  rw [hw]
  intro d hd
  rcases List.mem_cons.mp hd with rfl | hd
  · exact nameChar_of_nameStart hc
  · exact hrest d hd

theorem isVariable_iff {word : String} :
    isVariable word = true ↔ isName word = true ∧ word ∉ reserved := by
  rw [isVariable, Bool.and_eq_true, decide_eq_true_eq]

/-! ## Names, keywords and paths -/

/-- Characters with a property are taken up to where the rest starts without it. -/
theorem takeWhile_append_stop {p : Char → Bool} {front rest : List Char}
    (hfront : ∀ c ∈ front, p c = true) (hrest : ∀ c ∈ rest.head?, p c = false) :
    (front ++ rest).takeWhile p = front ∧ (front ++ rest).dropWhile p = rest := by
  rw [List.takeWhile_append_of_pos hfront, List.dropWhile_append_of_pos hfront]
  cases rest with
  | nil => simp
  | cons c rest => simp [hrest c rfl]

/-- A printed name is read back when nothing after it continues it. -/
theorem name_append {word : String} {rest : List Char} (hw : isName word = true)
    (hr : wordEnds rest = true) : name (spell word ++ rest) = some (word, rest) := by
  obtain ⟨c, tail, hword, hc, htail⟩ := isName_cases hw
  -- the name reaches as far as name characters do, which is to its own end
  have hstop : ∀ d ∈ rest.head?, isNameChar d = false := by
    intro d hd
    cases rest with
    | nil => exact absurd hd (by simp)
    | cons e rest =>
      obtain rfl : e = d := by simpa using hd
      simpa [wordEnds] using hr
  obtain ⟨htake, hdrop⟩ := takeWhile_append_stop htail hstop
  have hback : String.ofList (c :: tail) = word := by rw [← hword, spell, String.ofList_toList]
  rw [hword, List.cons_append, name, if_pos hc, htake, hdrop, hback]

/-- A printed variable is read back. -/
theorem variableName_append {word : String} {rest : List Char} (hw : isVariable word = true)
    (hr : wordEnds rest = true) : variableName (spell word ++ rest) = some (word, rest) := by
  obtain ⟨hname, hfree⟩ := isVariable_iff.mp hw
  obtain ⟨c, tail, hword, hc, -⟩ := isName_cases hname
  -- a printed variable has no `@` in front
  have hat : (c == '@') = false := by
    rw [beq_eq_false_iff_ne]
    exact nameStart_ne hc (by decide)
  have hdrop : (spell word ++ rest).dropWhile (· == '@') = spell word ++ rest := by
    rw [hword, List.cons_append, List.dropWhile_cons_of_neg (by simp [hat])]
  rw [variableName, hdrop, name_append hname hr]
  simp only [if_neg hfree]

/-- A keyword is read off the front of a text. -/
theorem keyword_append {word : String} {rest : List Char} (hw : isName word = true)
    (hr : wordEnds rest = true) : keyword word (spell word ++ rest) = some rest := by
  rw [keyword, name_append hw hr]
  simp

/-- A text that starts with no name starts with no keyword. -/
theorem keyword_eq_none {word : String} {c : Char} {rest : List Char} (hc : isNameStart c = false) :
    keyword word (c :: rest) = none := by
  simp [keyword, name, hc]

/-- A text that starts with another word does not start with a keyword. -/
theorem keyword_append_of_ne {word other : String} {rest : List Char} (hw : isName other = true)
    (hr : wordEnds rest = true) (hne : other ≠ word) : keyword word (spell other ++ rest) = none := by
  rw [keyword, name_append hw hr]
  simp [hne]

theorem wordEnds_mark {c : Char} (hc : isNameChar c = false) (t : List Char) :
    wordEnds (c :: t) = true := by
  simp [wordEnds, hc]

/-- What may follow a variable's head: its fields, or what follows them. -/
theorem wordEnds_printFields {rest : List Char} (names : List String) (h : wordEnds rest = true) :
    wordEnds (printFields names ++ rest) = true := by
  cases names with
  | nil => exact h
  | cons f fs => exact wordEnds_mark (by decide) _

/-- Printed fields are read back, given room for them, when no dot or name character follows. -/
theorem fields_append {names : List String} {rest : List Char} {fuel : Nat}
    (hn : ∀ field ∈ names, isName field = true) (hr : wordEnds rest = true)
    (hdot : rest.head? ≠ some '.') (hfuel : names.length ≤ fuel) :
    fields fuel (printFields names ++ rest) = (names, rest) := by
  induction names generalizing fuel with
  | nil =>
    rw [printFields, List.nil_append]
    unfold fields
    split
    · exact absurd rfl hdot
    · rfl
  | cons field names ih =>
    obtain ⟨fuel, rfl⟩ : ∃ k, fuel = k + 1 := ⟨fuel - 1, by simp at hfuel; omega⟩
    have hends := wordEnds_printFields names hr
    -- each field ends at the dot of the next one, the last one where the path ends
    have hread := name_append (hn field List.mem_cons_self) hends
    have hmore := ih (fun f hf => hn f (List.mem_cons_of_mem _ hf)) (Nat.le_of_succ_le_succ hfuel)
    have hsplit : printFields (field :: names) ++ rest
        = '.' :: (spell field ++ (printFields names ++ rest)) := by
      simp [printFields]
    rw [hsplit]
    simp only [fields, hread, hmore]

theorem length_le_printFields (names : List String) : names.length ≤ (printFields names).length := by
  induction names with
  | nil => exact Nat.le_refl _
  | cons field names ih =>
    simp only [printFields, List.length_append, List.length_cons]
    omega

/-- A printed path is read back when no dot or name character follows. -/
theorem path_append {head : String} {names : List String} {rest : List Char}
    (hh : isVariable head = true) (hn : ∀ field ∈ names, isName field = true)
    (hr : wordEnds rest = true) (hdot : rest.head? ≠ some '.') :
    path (spell head ++ (printFields names ++ rest)) = some ((head, names), rest) := by
  have hends := wordEnds_printFields names hr
  have hroom : names.length ≤ (printFields names ++ rest).length := by
    have := length_le_printFields names
    rw [List.length_append]
    omega
  simp only [path, variableName_append hh hends, fields_append hn hr hdot hroom]

/-! ## Strings -/

theorem singleQuoted_close (rest : List Char) : singleQuoted ('\'' :: rest) = some ([], rest) := by
  unfold singleQuoted
  rw [if_pos rfl]

/-- An escaped quote or backslash stands for itself. -/
theorem singleQuoted_escape {c : Char} (hc : c = '\'' ∨ c = '\\') (rest : List Char) :
    singleQuoted ('\\' :: c :: rest) = keep c (singleQuoted rest) := by
  rcases hc with rfl | rfl
  · rw [singleQuoted.eq_def]; rfl
  · rw [singleQuoted.eq_def]; rfl

theorem singleQuoted_plain {c : Char} (hq : c ≠ '\'') (hb : c ≠ '\\') (rest : List Char) :
    singleQuoted (c :: rest) = keep c (singleQuoted rest) := by
  rw [singleQuoted.eq_def]
  simp only [if_neg hq, if_neg hb]

/-- An escaped text is read back up to the quote that closes it. -/
theorem singleQuoted_escapeQuotes (text rest : List Char) :
    singleQuoted (escapeQuotes text ++ '\'' :: rest) = some (text, rest) := by
  induction text with
  | nil => exact singleQuoted_close rest
  | cons c text ih =>
    by_cases hc : c = '\'' ∨ c = '\\'
    · rw [escapeQuotes, if_pos hc, List.cons_append, List.cons_append, singleQuoted_escape hc, ih]
      rfl
    · rw [escapeQuotes, if_neg hc, List.cons_append,
        singleQuoted_plain (fun h => hc (Or.inl h)) (fun h => hc (Or.inr h)), ih]
      rfl

/-- A printed string is read back. -/
theorem quoted_quote (text rest : List Char) :
    quoted (quote text ++ rest) = some (String.ofList text, rest) := by
  have hbody : quote text ++ rest = '\'' :: (escapeQuotes text ++ '\'' :: rest) := by
    simp [quote]
  rw [hbody, quoted, singleQuoted_escapeQuotes]
  rfl

end Bindery.Template
