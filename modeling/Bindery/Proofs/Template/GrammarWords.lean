import Bindery.Proofs.Template.Grammar

/-!
# `Proofs.Template.GrammarWords` — the readers of words follow the grammar

Every reader of a word takes exactly what the grammar allows there. A name, a keyword and an integer are
maximal by the rule for them, and a string ends at its first quote that is not escaped, so these readers leave
no choice. Only fields can be followed by more of the same kind, so a path is read to its end where no dot
follows.

**Contents.** For each kind of word, one equivalence: `name_eq_some`, `keyword_eq_some`, `operator_eq_some`,
`integer_eq_some`, `quoted_eq_some`, `variableName_eq_some`; and `path_sound` with `path_complete`.
-/

namespace Bindery.Template.Grammar

open Bindery.Text

variable {s r m : List Char} {word : String} {fuel : Nat}

/-! ## White space -/

theorem spaces_skipSpace (s : List Char) : Spaces s (skipSpace s) :=
  ⟨s.takeWhile isSpace, List.all_eq_true.mp List.all_takeWhile, List.takeWhile_append_dropWhile.symm⟩

theorem Spaces.refl (s : List Char) : Spaces s s :=
  ⟨[], fun _ hc => absurd hc List.not_mem_nil, rfl⟩

theorem Spaces.suffix (h : Spaces s r) : r <:+ s := by
  obtain ⟨front, -, rfl⟩ := h
  exact List.suffix_append front r

theorem Spaces.skipSpace_eq (h : Spaces s r) : skipSpace s = skipSpace r := by
  obtain ⟨front, hfront, rfl⟩ := h
  exact List.dropWhile_append_of_pos hfront

theorem skipSpace_suffix (s : List Char) : skipSpace s <:+ s :=
  (spaces_skipSpace s).suffix

/-! ## Names and keywords -/

theorem wordEnds_dropWhile (s : List Char) : wordEnds (s.dropWhile isNameChar) = true := by
  cases hrest : s.dropWhile isNameChar with
  | nil => rfl
  | cons c t =>
    have hc := List.head_dropWhile_not isNameChar (l := s) (by simp [hrest])
    simp only [hrest, List.head_cons] at hc
    exact wordEnds_mark hc t

/-- **A name is read where there is one.** -/
theorem name_eq_some : name s = some (word, r) ↔ NameAt word s r := by
  constructor
  · intro h
    cases s with
    | nil => cases h
    | cons c rest =>
      rw [name] at h
      by_cases hc : isNameStart c = true
      · rw [if_pos hc] at h
        cases h
        have hspell : spell (String.ofList (c :: rest.takeWhile isNameChar)) = c :: rest.takeWhile isNameChar :=
          String.toList_ofList
        refine ⟨?_, ?_, wordEnds_dropWhile rest⟩
        · unfold isName
          rw [show (String.ofList (c :: rest.takeWhile isNameChar)).toList = _ from hspell]
          rw [Bool.and_eq_true]
          exact ⟨hc, List.all_takeWhile⟩
        · rw [hspell, List.cons_append, List.takeWhile_append_dropWhile]
      · rw [if_neg hc] at h
        cases h
  · rintro ⟨hname, rfl, hends⟩
    exact name_append hname hends

/-- **A keyword is read where there is one.** -/
theorem keyword_eq_some : keyword word s = some r ↔ NameAt word s r := by
  unfold keyword
  rw [← name_eq_some]
  cases hname : name s with
  | none => simp
  | some taken =>
    obtain ⟨found, rest⟩ := taken
    by_cases hfound : found = word
    · simp [hfound]
    · simp [hfound]

namespace NameAt

theorem head (h : NameAt word s r) : ∃ c t, s = c :: t ∧ isNameStart c = true ∧ r <:+ t := by
  obtain ⟨c, t, hword, hc, -⟩ := isName_cases h.is_name
  refine ⟨c, t ++ r, ?_, hc, List.suffix_append t r⟩
  rw [h.text, hword, List.cons_append]

theorem unique {word' : String} {r' : List Char} (h : NameAt word s r) (h' : NameAt word' s r') : word = word' := by
  have hsame := (name_eq_some.mpr h).symm.trans (name_eq_some.mpr h')
  exact (Prod.mk.inj (Option.some.inj hsame)).1

end NameAt

/-! ## Operators -/

/-- **An operator is read where there is one.** Its symbol does not look like the beginning of a name. -/
theorem operator_eq_some {symbol : List Char} {d : Char} (hd : symbol.head? = some d)
    (hmark : isNameStart d = false) : operator symbol word s = some r ↔ OperatorAt symbol word s r := by
  constructor
  · intro h
    unfold operator at h
    by_cases hsymbol : symbol.isPrefixOf s = true
    · rw [if_pos hsymbol] at h
      cases h
      exact .inl (List.prefix_iff_eq_append.mp (List.isPrefixOf_iff_prefix.mp hsymbol)).symm
    · rw [if_neg hsymbol] at h
      exact .inr (keyword_eq_some.mp h)
  · rintro (rfl | hword)
    · exact operator_symbol symbol r word
    · obtain ⟨c, t, rfl, hc, -⟩ := hword.head
      have hnone : ¬symbol.isPrefixOf (c :: t) = true := by
        intro hprefix
        cases symbol with
        | nil => cases hd
        | cons e symbol =>
          cases hd
          obtain ⟨rfl, -⟩ := List.cons_prefix_cons.mp (List.isPrefixOf_iff_prefix.mp hprefix)
          exact absurd hc (by rw [hmark]; exact Bool.false_ne_true)
      unfold operator
      rw [if_neg hnone]
      exact keyword_eq_some.mpr hword

/-! ## Integers -/

/-- A digit is a name character, so that no integer ends in front of one. -/
theorem nameChar_of_digit {c : Char} (h : c.isDigit = true) : isNameChar c = true := by
  have hascii : c.toNat < 0x80 := by
    have hlast : c.toNat ≤ 57 := (Char.isDigit_iff_toNat.mp h).2
    omega
  unfold isNameChar
  rw [isNumeral_of_isDigit h hascii]
  simp

theorem not_digit_of_wordEnds (h : wordEnds r = true) : ∀ c ∈ r.head?, c.isDigit = false := by
  intro c hc
  cases r with
  | nil => cases hc
  | cons d t =>
    cases hc
    cases hdigit : c.isDigit with
    | false => rfl
    | true =>
      simp only [wordEnds, nameChar_of_digit hdigit] at h
      exact absurd h (by decide)

theorem exists_signed (s : List Char) : ∃ (negative : Bool) (unsigned : List Char),
    s = (if negative then ['-'] else []) ++ unsigned ∧ (negative = false → unsigned.head? ≠ some '-') := by
  by_cases hminus : s.head? = some '-'
  · obtain ⟨t, rfl⟩ := List.head?_eq_some_iff.mp hminus
    exact ⟨true, t, rfl, nofun⟩
  · exact ⟨false, s, rfl, fun _ => hminus⟩

/-- Behind the sign, if there is one, the digits are read, and their value is told with the sign. -/
theorem integer_signed {negative : Bool} {unsigned : List Char}
    (hsign : negative = false → unsigned.head? ≠ some '-') :
    integer ((if negative then ['-'] else []) ++ unsigned) =
      if unsigned.takeWhile Char.isDigit = [] ∨ wordEnds (unsigned.dropWhile Char.isDigit) = false then none
      else if leastInteger ≤ signedValue negative (unsigned.takeWhile Char.isDigit) ∧
          signedValue negative (unsigned.takeWhile Char.isDigit) ≤ greatestInteger then
        some (toString (signedValue negative (unsigned.takeWhile Char.isDigit)), unsigned.dropWhile Char.isDigit)
      else none := by
  cases negative with
  | true => rfl
  | false =>
    have hhead : (unsigned.head? == some '-') = false := beq_eq_false_iff_ne.mpr (hsign rfl)
    show integer unsigned = _
    unfold integer
    rw [hhead]
    rfl

/-- **An integer is read where there is one.** -/
theorem integer_eq_some {text : String} : integer s = some (text, r) ↔
    ∃ negative digits, IntegerAt negative digits s r ∧ text = toString (signedValue negative digits) := by
  constructor
  · intro h
    obtain ⟨negative, unsigned, rfl, hsign⟩ := exists_signed s
    rw [integer_signed hsign] at h
    by_cases hdigits : unsigned.takeWhile Char.isDigit = [] ∨ wordEnds (unsigned.dropWhile Char.isDigit) = false
    · rw [if_pos hdigits] at h
      cases h
    rw [if_neg hdigits] at h
    obtain ⟨hsome, hends⟩ := not_or.mp hdigits
    by_cases hrange : leastInteger ≤ signedValue negative (unsigned.takeWhile Char.isDigit) ∧
        signedValue negative (unsigned.takeWhile Char.isDigit) ≤ greatestInteger
    · rw [if_pos hrange] at h
      cases h
      refine ⟨negative, unsigned.takeWhile Char.isDigit, ⟨hsome, ?_, ?_, ?_, hrange.1, hrange.2⟩, rfl⟩
      · exact List.all_eq_true.mp List.all_takeWhile
      · rw [List.takeWhile_append_dropWhile]
      · exact eq_true_of_ne_false hends
    · rw [if_neg hrange] at h
      cases h
  · rintro ⟨negative, digits, ⟨hsome, hall, rfl, hends, hleast, hgreatest⟩, rfl⟩
    obtain ⟨htake, hdrop⟩ := takeWhile_append_stop hall (not_digit_of_wordEnds hends)
    have hsign : negative = false → (digits ++ r).head? ≠ some '-' := by
      obtain ⟨d, more, rfl⟩ := List.exists_cons_of_ne_nil hsome
      -- a digit is no minus sign
      rintro - hminus
      cases hminus
      exact absurd (hall '-' List.mem_cons_self) (by decide)
    rw [integer_signed hsign, htake, hdrop, if_neg (not_or.mpr ⟨hsome, ne_false_of_eq_true hends⟩),
      if_pos ⟨hleast, hgreatest⟩]

/-! ## Strings -/

theorem keep_eq_some {c : Char} {taken : Option (List Char × List Char)} {text : List Char} :
    keep c taken = some (text, r) ↔ ∃ more, taken = some (more, r) ∧ text = c :: more := by
  unfold keep
  constructor
  · intro h
    obtain ⟨⟨more, rest⟩, htaken, heq⟩ := Option.map_eq_some_iff.mp h
    cases heq
    exact ⟨more, htaken, rfl⟩
  · rintro ⟨more, rfl, rfl⟩
    rfl

theorem doubleQuoted_close (rest : List Char) : doubleQuoted ('"' :: rest) = some ([], rest) := by
  unfold doubleQuoted
  rw [if_pos rfl]

theorem doubleQuoted_escape {e d : Char} (he : unescape e = some d) (rest : List Char) :
    doubleQuoted ('\\' :: e :: rest) = keep d (doubleQuoted rest) := by
  rw [doubleQuoted.eq_def]
  simp only [he]
  rfl

theorem doubleQuoted_plain {c : Char} (hq : c ≠ '"') (hb : c ≠ '\\') (rest : List Char) :
    doubleQuoted (c :: rest) = keep c (doubleQuoted rest) := by
  rw [doubleQuoted.eq_def]
  simp only [if_neg hq, if_neg hb]

theorem doubleQuoted_eq_some {text : List Char} : doubleQuoted s = some (text, r) ↔
    ∃ written, s = written ++ '"' :: r ∧ DoubleQuotes written text := by
  constructor
  · fun_induction doubleQuoted s generalizing text with
    | case2 rest =>
      intro h
      cases h
      exact ⟨[], rfl, .nil⟩
    | case4 e rest d he _ ih =>
      intro h
      obtain ⟨more, hmore, rfl⟩ := keep_eq_some.mp h
      obtain ⟨written, rfl, hwritten⟩ := ih hmore
      exact ⟨'\\' :: e :: written, rfl, .escape he hwritten⟩
    | case6 c rest hq hb ih =>
      intro h
      obtain ⟨more, hmore, rfl⟩ := keep_eq_some.mp h
      obtain ⟨written, rfl, hwritten⟩ := ih hmore
      exact ⟨c :: written, rfl, .plain hq hb hwritten⟩
    | _ =>
      -- at the end, and after a backslash that escapes nothing
      intro h
      cases h
  · rintro ⟨written, rfl, hwritten⟩
    induction hwritten with
    | nil => exact doubleQuoted_close r
    | escape he _ ih =>
      rw [List.cons_append, List.cons_append, doubleQuoted_escape he, ih]
      rfl
    | plain hq hb _ ih =>
      rw [List.cons_append, doubleQuoted_plain hq hb, ih]
      rfl

/-- A backslash in front of anything else stands for itself. -/
theorem singleQuoted_backslash {c : Char} (hq : c ≠ '\'') (hb : c ≠ '\\') (rest : List Char) :
    singleQuoted ('\\' :: c :: rest) = keep '\\' (singleQuoted (c :: rest)) := by
  rw [singleQuoted.eq_def]
  dsimp only
  rw [if_neg (by decide), if_pos rfl]
  split
  · next heq => exact absurd (List.cons.inj heq).1 hq
  · next heq => exact absurd (List.cons.inj heq).1 hb
  · rfl

theorem singleQuoted_eq_some {text : List Char} : singleQuoted s = some (text, r) ↔
    ∃ written, s = written ++ '\'' :: r ∧ SingleQuotes written text := by
  constructor
  · fun_induction singleQuoted s generalizing text with
    | case1 => intro h; cases h
    | case2 rest =>
      intro h
      cases h
      exact ⟨[], rfl, .nil⟩
    | case3 rest _ ih =>
      intro h
      obtain ⟨more, hmore, rfl⟩ := keep_eq_some.mp h
      obtain ⟨written, rfl, hwritten⟩ := ih hmore
      exact ⟨'\\' :: '\'' :: written, rfl, .escape (.inl rfl) hwritten⟩
    | case4 rest _ ih =>
      intro h
      obtain ⟨more, hmore, rfl⟩ := keep_eq_some.mp h
      obtain ⟨written, rfl, hwritten⟩ := ih hmore
      exact ⟨'\\' :: '\\' :: written, rfl, .escape (.inr rfl) hwritten⟩
    | case5 rest hquote hslash _ ih =>
      intro h
      obtain ⟨more, hmore, rfl⟩ := keep_eq_some.mp h
      obtain ⟨written, rfl, hwritten⟩ := ih hmore
      -- what comes after the backslash is neither the closing quote nor an escape
      cases hwritten with
      | nil => exact absurd rfl (hquote _)
      | escape => exact absurd rfl (hslash _)
      | backslash => exact absurd rfl (hslash _)
      | plain hq hb hplain => exact ⟨'\\' :: _ :: _, rfl, .backslash hq hb hplain⟩
    | case6 c rest hq hb ih =>
      intro h
      obtain ⟨more, hmore, rfl⟩ := keep_eq_some.mp h
      obtain ⟨written, rfl, hwritten⟩ := ih hmore
      exact ⟨c :: written, rfl, .plain hq hb hwritten⟩
  · rintro ⟨written, rfl, hwritten⟩
    induction hwritten with
    | nil => exact singleQuoted_close r
    | escape hc _ ih =>
      rw [List.cons_append, List.cons_append, singleQuoted_escape hc, ih]
      rfl
    | backslash hq hb _ ih =>
      rw [List.cons_append, List.cons_append, singleQuoted_backslash hq hb, singleQuoted_plain hq hb, ih]
      rfl
    | plain hq hb _ ih =>
      rw [List.cons_append, singleQuoted_plain hq hb, ih]
      rfl

/-- **A string is read where there is one.** -/
theorem quoted_eq_some {text : String} : quoted s = some (text, r) ↔
    ∃ chars, QuotedAt chars s r ∧ text = String.ofList chars := by
  constructor
  · intro h
    unfold quoted at h
    split at h
    · obtain ⟨⟨chars, rest⟩, hread, heq⟩ := Option.map_eq_some_iff.mp h
      cases heq
      obtain ⟨written, rfl, hwritten⟩ := doubleQuoted_eq_some.mp hread
      exact ⟨chars, ⟨written, .inl ⟨rfl, hwritten⟩⟩, rfl⟩
    · obtain ⟨⟨chars, rest⟩, hread, heq⟩ := Option.map_eq_some_iff.mp h
      cases heq
      obtain ⟨written, rfl, hwritten⟩ := singleQuoted_eq_some.mp hread
      exact ⟨chars, ⟨written, .inr ⟨rfl, hwritten⟩⟩, rfl⟩
    · cases h
  · rintro ⟨chars, ⟨written, ⟨rfl, hwritten⟩ | ⟨rfl, hwritten⟩⟩, rfl⟩
    · rw [quoted, doubleQuoted_eq_some.mpr ⟨written, rfl, hwritten⟩]
      rfl
    · rw [quoted, singleQuoted_eq_some.mpr ⟨written, rfl, hwritten⟩]
      rfl

/-! ## Variables -/

/-- **The name of a variable is read where there is one.** -/
theorem variableName_eq_some : variableName s = some (word, r) ↔ VariableAt word s r := by
  constructor
  · intro h
    unfold variableName at h
    split at h
    · next found rest hname =>
      split at h
      · cases h
      next hfree =>
        cases h
        refine ⟨s.takeWhile (· == '@'), s.dropWhile (· == '@'), ?_, ?_, name_eq_some.mp hname, hfree⟩
        · intro c hc
          exact eq_of_beq (List.all_eq_true.mp List.all_takeWhile c hc)
        · exact List.takeWhile_append_dropWhile.symm
    · cases h
  · rintro ⟨marks, m, hmarks, rfl, hname, hfree⟩
    obtain ⟨c, t, rfl, hc, -⟩ := hname.head
    have hat : ∀ d ∈ (c :: t).head?, (d == '@') = false := by
      rintro d ⟨⟩
      exact beq_eq_false_iff_ne.mpr (nameStart_ne hc (by decide))
    obtain ⟨-, hdrop⟩ := takeWhile_append_stop (p := (· == '@')) (fun d hd => beq_iff_eq.mpr (hmarks d hd)) hat
    unfold variableName
    rw [hdrop, name_eq_some.mpr hname]
    exact if_neg hfree

theorem fields_sound (fuel : Nat) (s : List Char) : FieldsAt (fields fuel s).1 s (fields fuel s).2 := by
  fun_induction fields fuel s with
  | case1 fuel rest field after hname more ih => exact .cons (name_eq_some.mp hname) ih
  | case2 => exact .nil
  | case3 => exact .nil

theorem fields_complete {names : List String} (h : FieldsAt names s r) (hdot : r.head? ≠ some '.')
    (hfuel : names.length ≤ fuel) : fields fuel s = (names, r) := by
  induction h generalizing fuel with
  | nil =>
    unfold fields
    split
    · exact absurd rfl hdot
    · rfl
  | cons first _ ih =>
    rw [List.length_cons] at hfuel
    obtain ⟨fuel, rfl⟩ : ∃ k, fuel = k + 1 := ⟨fuel - 1, by omega⟩
    simp only [fields, name_eq_some.mpr first, ih hdot (Nat.le_of_succ_le_succ hfuel)]

theorem FieldsAt.suffix {names : List String} (h : FieldsAt names s r) : r <:+ s := by
  induction h with
  | nil => exact List.suffix_rfl
  | cons first _ ih =>
    obtain ⟨c, t, rfl, -, ht⟩ := first.head
    exact ih.trans ((ht.trans (List.suffix_cons c t)).trans (List.suffix_cons '.' _))

theorem FieldsAt.length_le {names : List String} (h : FieldsAt names s r) : names.length ≤ s.length := by
  induction h with
  | nil => exact Nat.zero_le _
  | cons first _ ih =>
    obtain ⟨c, t, rfl, -, ht⟩ := first.head
    have := ht.length_le
    simp only [List.length_cons]
    omega

/-- A path that is read is a variable and its fields. -/
theorem path_sound {head : String} {names : List String} (h : path s = some ((head, names), r)) :
    ∃ m, VariableAt head s m ∧ FieldsAt names m r := by
  unfold path at h
  split at h
  · next found rest hread =>
    cases h
    exact ⟨rest, variableName_eq_some.mp hread, fields_sound rest.length rest⟩
  · cases h

/-- A variable and its fields are read as a path, up to where no dot follows. -/
theorem path_complete {head : String} {names : List String} (hvariable : VariableAt head s m)
    (hfields : FieldsAt names m r) (hdot : r.head? ≠ some '.') : path s = some ((head, names), r) := by
  unfold path
  rw [variableName_eq_some.mpr hvariable]
  simp only [fields_complete hfields hdot hfields.length_le]

end Bindery.Template.Grammar
