import Bindery.Proofs.Template.FormulaReading

/-!
# `Proofs.Template.StatementReading` — the code of printed tags is read back

A tag is read without the white space around its code, and its code has to be used up. A printed
expression or statement neither starts nor ends with white space, so what a tag holds between its two
spaces is exactly the printed code (`trim_spaced`).

**Contents.**
* `Tight` — texts without white space at either end, with `print_tight` for expressions and statements;
* `Statement.Normal` — the statements that a tag can stand for;
* `exprCode_print` and `statementCode_print` — the code of a tag is read back.
-/

namespace Bindery.Template

open Bindery.Text

/-! ## Texts without white space at their ends -/

/-- A text that starts and ends with something other than white space. -/
def Tight (s : List Char) : Prop :=
  (∃ c t, s = c :: t ∧ isBlank c = false) ∧ ∃ t c, s = t ++ [c] ∧ isBlank c = false

theorem trim_spaced {s : List Char} (h : Tight s) : trim (' ' :: (s ++ [' '])) = s := by
  obtain ⟨⟨c, t, hhead, hc⟩, u, d, hlast, hd⟩ := h
  have hstart : trimStart (' ' :: (s ++ [' '])) = s ++ [' '] := by
    rw [trimStart, List.dropWhile_cons_of_pos (by rfl), hhead, List.cons_append,
      List.dropWhile_cons_of_neg (by simp [hc])]
  have hrev : (s ++ [' ']).reverse = ' ' :: d :: u.reverse := by
    simp [hlast]
  -- the end is trimmed from the other side
  rw [trim, hstart, trimEnd, hrev, List.dropWhile_cons_of_pos (by rfl),
    List.dropWhile_cons_of_neg (by simp [hd]), List.reverse_cons, List.reverse_reverse, hlast]

theorem trim_ne_nil {s : List Char} (h : Tight s) : trim s ≠ [] := by
  obtain ⟨⟨c, t, hhead, hc⟩, -⟩ := h
  intro hnil
  have hblank := trim_eq_nil_iff.mp hnil c (by rw [hhead]; exact List.mem_cons_self)
  rw [hc] at hblank
  exact absurd hblank (by simp)

/-- A text without any white space in it. -/
theorem tight_of_no_blank {s : List Char} (hne : s ≠ []) (h : ∀ c ∈ s, isBlank c = false) :
    Tight s := by
  constructor
  · obtain ⟨c, t, rfl⟩ := List.exists_cons_of_ne_nil hne
    exact ⟨c, t, rfl, h c List.mem_cons_self⟩
  · exact ⟨s.dropLast, s.getLast hne, (List.dropLast_concat_getLast hne).symm,
      h _ (List.getLast_mem hne)⟩

/-- A tight text after another one that does not start with white space. -/
theorem tight_append {front s : List Char} (hf : ∃ c t, front = c :: t ∧ isBlank c = false)
    (hs : Tight s) : Tight (front ++ s) := by
  obtain ⟨c, t, rfl, hc⟩ := hf
  obtain ⟨-, u, d, hlast, hd⟩ := hs
  exact ⟨⟨c, t ++ s, rfl, hc⟩, c :: t ++ u, d, by rw [hlast, List.append_assoc], hd⟩

/-- A text between two marks. -/
theorem tight_between {c d : Char} (hc : isBlank c = false) (hd : isBlank d = false)
    (s : List Char) : Tight (c :: s ++ [d]) :=
  ⟨⟨c, s ++ [d], rfl, hc⟩, c :: s, d, rfl, hd⟩

theorem spell_ne_nil {word : String} (h : isName word = true) : spell word ≠ [] := by
  obtain ⟨c, rest, hw, -, -⟩ := isName_cases h
  rw [hw]
  exact List.cons_ne_nil c rest

theorem not_blank_of_mem_spell {word : String} (h : isName word = true) :
    ∀ c ∈ spell word, isBlank c = false :=
  fun c hc => not_blank_of_nameChar (nameChar_of_mem h c hc)

theorem tight_spell {word : String} (h : isName word = true) : Tight (spell word) :=
  tight_of_no_blank (spell_ne_nil h) (not_blank_of_mem_spell h)

theorem not_blank_of_mem_printFields {names : List String} (h : ∀ field ∈ names, isName field = true) :
    ∀ c ∈ printFields names, isBlank c = false := by
  induction names with
  | nil => intro c hc; exact absurd hc (by simp [printFields])
  | cons field names ih =>
    intro c hc
    rw [printFields, List.cons_append, List.mem_cons, List.mem_append] at hc
    rcases hc with rfl | hc | hc
    · rfl
    · exact not_blank_of_mem_spell (h field List.mem_cons_self) c hc
    · exact ih (fun f hf => h f (List.mem_cons_of_mem _ hf)) c hc

/-- No white space at either end of a printed expression. -/
theorem print_tight {e : Expr} (h : e.Normal) : Tight e.print := by
  cases e with
  | str text => exact tight_between (by decide) (by decide) _
  | bool b => exact tight_spell (by cases b <;> decide)
  | nil => exact tight_spell (by decide)
  | var head names =>
    have hname := (isVariable_iff.mp h.1).1
    refine tight_of_no_blank (by simp [Expr.print, spell_ne_nil hname]) fun c hc => ?_
    -- a path has no white space anywhere
    rcases List.mem_append.mp hc with hc | hc
    · exact not_blank_of_mem_spell hname c hc
    · exact not_blank_of_mem_printFields h.2 c hc
  | imported path =>
    have htight : Tight (spell "import") := tight_spell (by decide)
    rw [Expr.print, List.append_assoc]
    exact tight_append htight.1 (tight_between (by decide) (by decide) _)
  | not inner => exact tight_between (by decide) (by decide) _
  | eq lhs rhs => exact tight_between (by decide) (by decide) _
  | ne lhs rhs => exact tight_between (by decide) (by decide) _
  | and lhs rhs => exact tight_between (by decide) (by decide) _
  | or lhs rhs => exact tight_between (by decide) (by decide) _

/-! ## Output tags -/

/-- **The code of an output tag is read back.** -/
theorem exprCode_print {e : Expr} (h : e.Normal) (line : Nat) : Expr.ofCode line e.print = .ok e := by
  rw [Expr.ofCode, if_neg (trim_ne_nil (print_tight h)), read_print h]
  rfl

/-! ## Statement tags -/

/-- A statement whose expressions are in normal form, and whose variable is one. -/
def Statement.Normal : Statement → Prop
  | .test condition | .retest condition => condition.Normal
  | .otherwise | .close => True
  | .loop name items => isVariable name = true ∧ items.Normal

/-- A word and a space in front of a tight text. -/
theorem tight_word {word : String} {s : List Char} (hw : isName word = true) (hs : Tight s) :
    Tight (spell word ++ ' ' :: s) := by
  obtain ⟨c, t, hspell, hc⟩ := (tight_spell hw).1
  have hfront : ∃ d u, spell word ++ [' '] = d :: u ∧ isBlank d = false :=
    ⟨c, t ++ [' '], by rw [hspell, List.cons_append], hc⟩
  simpa using tight_append hfront hs

theorem skipSpace_spell {word : String} (hw : isName word = true) (t : List Char) :
    skipSpace (spell word ++ t) = spell word ++ t := by
  obtain ⟨c, rest, hspell, hc, -⟩ := isName_cases hw
  rw [hspell, List.cons_append, skipSpace_cons (not_space_of_nameChar (nameChar_of_nameStart hc))]

/-- No white space at either end of a printed statement. -/
theorem statement_tight {statement : Statement} (h : statement.Normal) :
    Tight statement.print := by
  cases statement with
  | test condition => exact tight_word (by decide) (print_tight h)
  | retest condition => exact tight_word (by decide) (print_tight h)
  | otherwise => exact tight_spell (by decide)
  | close => exact tight_spell (by decide)
  | loop name items =>
    have hname := (isVariable_iff.mp h.1).1
    exact tight_word (by decide)
      (tight_word hname (tight_word (by decide) (print_tight h.2)))

/-- A header `for name in expr` is read back. -/
theorem forHeader_print {name : String} {items : Expr} (hn : isVariable name = true)
    (hi : items.Normal) :
    Statement.forHeader (' ' :: (spell name ++ ' ' :: (spell "in" ++ ' ' :: items.print)))
      = some ((name, items), []) := by
  have hname := variableName_append hn (wordEnds_mark (c := ' ') (by decide)
    (spell "in" ++ ' ' :: items.print))
  have hin : keyword "in" (spell "in" ++ ' ' :: items.print) = some (' ' :: items.print) :=
    keyword_append (by decide) (wordEnds_mark (by decide) _)
  have hskip : skipSpace (spell "in" ++ ' ' :: items.print) = spell "in" ++ ' ' :: items.print :=
    skipSpace_spell (by decide) _
  simp only [Statement.forHeader, skipSpace_space, skipSpace_spell (isVariable_iff.mp hn).1, hname,
    Option.bind_eq_bind, Option.bind_some, hskip, hin, read_space hi]
  rfl

/-- A printed statement is read back. -/
theorem readBare_print {statement : Statement} (h : statement.Normal) :
    Statement.readBare statement.print = .read statement [] := by
  have hname : ∀ {word : String} (t : List Char), isName word = true →
      name (spell word ++ ' ' :: t) = some (word, ' ' :: t) :=
    fun t hw => name_append hw (wordEnds_mark (by decide) t)
  have halone : ∀ {word : String}, isName word = true → name (spell word) = some (word, []) := by
    intro word hw
    have hends : wordEnds [] = true := rfl
    simpa using name_append hw hends
  unfold Statement.readBare
  cases statement with
  -- the first word decides which statement it is; the rest is an expression or a header
  | test condition =>
    rw [Statement.print, hname _ (by decide)]
    show Statement.withExpr Statement.test (' ' :: condition.print) = _
    rw [Statement.withExpr, read_space h]
  | retest condition =>
    rw [Statement.print, hname _ (by decide)]
    show Statement.withExpr Statement.retest (' ' :: condition.print) = _
    rw [Statement.withExpr, read_space h]
  | otherwise =>
    rw [Statement.print, halone (by decide)]
    rfl
  | close =>
    rw [Statement.print, halone (by decide)]
    rfl
  | loop name items =>
    have hheader := forHeader_print h.1 h.2
    rw [Statement.print, hname _ (by decide)]
    -- the match on the word is the same whatever comes after it
    generalize ' ' :: (spell name ++ ' ' :: (spell "in" ++ ' ' :: items.print)) = rest at hheader ⊢
    simp only [hheader]

/-- **The code of a statement tag is read back.** -/
theorem statementCode_print {statement : Statement} (h : statement.Normal) (line : Nat) :
    Statement.ofCode line statement.print = .ok statement := by
  have htight := statement_tight h
  have hskip : skipSpace statement.print = statement.print := by
    obtain ⟨⟨c, t, hc, hblank⟩, -⟩ := htight
    have hspace : isSpace c = false := by
      cases hs : isSpace c with
      | false => rfl
      | true => exact absurd (blank_of_space hs) (by simp [hblank])
    rw [hc, skipSpace_cons hspace]
  rw [Statement.ofCode, if_neg (trim_ne_nil htight), Statement.read, hskip, readBare_print h]
  rfl

end Bindery.Template
