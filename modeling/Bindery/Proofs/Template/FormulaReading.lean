import Bindery.Proofs.Template.WordReading

/-!
# `Proofs.Template.FormulaReading` — printed expressions are read back

The reader goes down four levels for every parenthesis: `or`, `and`, negation and comparison. At each
level a printed expression ends where the level has no operator, so the proof takes the levels one by
one (`chain_stop`, `chain_two`, `comparison_stop`, `comparison_eq`) and the recursion through the
parentheses once (`primary_print`). Each parenthesis costs two levels of nesting, so twice the length of
the text is room enough.

**Contents.**
* `Closes` — what may follow a printed operand;
* one lemma for each level of the grammar;
* `primary_print`, an expression in front of other text, and `read_print`, an expression on its own.
-/

namespace Bindery.Template

/-! ## White space -/

theorem skipSpace_space (s : List Char) : skipSpace (' ' :: s) = skipSpace s := rfl

theorem skipSpace_cons {c : Char} (hc : isSpace c = false) (s : List Char) :
    skipSpace (c :: s) = c :: s := by
  rw [skipSpace, List.dropWhile_cons_of_neg (by simp [hc])]

/-- No name character is white space. -/
theorem not_space_of_nameChar {c : Char} (h : isNameChar c = true) : isSpace c = false := by
  cases hs : isSpace c with
  | false => rfl
  | true => exact absurd (blank_of_space hs) (by simp [not_blank_of_nameChar h])

theorem skipSpace_skipSpace (s : List Char) : skipSpace (skipSpace s) = skipSpace s := by
  unfold skipSpace
  cases h : s.dropWhile isSpace with
  | nil => rfl
  | cons c t =>
    -- what is left over does not start with white space
    have hc := List.head_dropWhile_not isSpace (l := s) (by simp [h])
    simp only [h, List.head_cons] at hc
    rw [List.dropWhile_cons_of_neg (by simp [hc])]

/-! ## The levels of the grammar -/

section Levels

variable {op : List Char → Option (List Char)} {join : Expr → Expr → Expr} {operand : Reader Expr}
  {s rest : List Char} {e lhs rhs : Expr}

/-- Without an operator after it, one operand is the whole chain. -/
theorem chainRest_stop (hop : op (skipSpace rest) = none) (fuel : Nat) :
    chainRest op join operand fuel e rest = (e, rest) := by
  cases fuel with
  | zero => rfl
  | succ fuel => simp only [chainRest, hop]

theorem chain_stop (hs : operand s = some (e, rest)) (hop : op (skipSpace rest) = none) :
    chain op join operand s = some (e, rest) := by
  simp only [chain, hs, chainRest_stop hop]

/-- Two operands with the operator between them, and no operator after them. -/
theorem chain_two {between after : List Char} (hs : operand s = some (lhs, between))
    (hne : between ≠ []) (hop : op (skipSpace between) = some after)
    (hr : operand (skipSpace after) = some (rhs, rest)) (hstop : op (skipSpace rest) = none) :
    chain op join operand s = some (join lhs rhs, rest) := by
  -- the chain may take as many operators as there are characters left, which is one at least
  obtain ⟨fuel, hfuel⟩ : ∃ k, between.length = k + 1 :=
    ⟨between.length - 1, by have := List.length_pos_iff.mpr hne; omega⟩
  simp only [chain, hs, hfuel, chainRest, hop, hr, chainRest_stop hstop]

/-- What does not start with `==` or `!=`. -/
def NoComparison (s : List Char) : Prop :=
  (∀ t, s ≠ '=' :: '=' :: t) ∧ ∀ t, s ≠ '!' :: '=' :: t

theorem comparison_stop (hs : operand s = some (e, rest)) (hc : NoComparison (skipSpace rest)) :
    comparison operand s = some (e, rest) := by
  simp only [comparison, hs]
  split
  · next after h => exact absurd h (hc.1 after)
  · next after h => exact absurd h (hc.2 after)
  · rfl

theorem comparison_eq {between after : List Char} (hs : operand s = some (lhs, between))
    (hop : skipSpace between = '=' :: '=' :: after)
    (hr : operand (skipSpace after) = some (rhs, rest)) :
    comparison operand s = some (.eq lhs rhs, rest) := by
  simp only [comparison, hs, hop, hr]

theorem comparison_ne {between after : List Char} (hs : operand s = some (lhs, between))
    (hop : skipSpace between = '!' :: '=' :: after)
    (hr : operand (skipSpace after) = some (rhs, rest)) :
    comparison operand s = some (.ne lhs rhs, rest) := by
  simp only [comparison, hs, hop, hr]

end Levels

/-! ## What starts and what ends a printed expression -/

/-- What may follow a printed operand. -/
def Closes (rest : List Char) : Prop :=
  rest = [] ∨ ∃ t, rest = ')' :: t ∨ rest = ' ' :: t

theorem Closes.nil : Closes [] := Or.inl rfl

theorem Closes.paren (t : List Char) : Closes (')' :: t) := Or.inr ⟨t, Or.inl rfl⟩

theorem Closes.space (t : List Char) : Closes (' ' :: t) := Or.inr ⟨t, Or.inr rfl⟩

theorem Closes.wordEnds {rest : List Char} (h : Closes rest) : wordEnds rest = true := by
  rcases h with rfl | ⟨t, rfl | rfl⟩
  · rfl
  · exact wordEnds_mark (by decide) t
  · exact wordEnds_mark (by decide) t

theorem Closes.not_dot {rest : List Char} (h : Closes rest) : rest.head? ≠ some '.' := by
  rcases h with rfl | ⟨t, rfl | rfl⟩ <;> simp

/-- A character that a printed expression may start with: a quote, a parenthesis or a name start. -/
def StartsPrint (c : Char) : Prop :=
  c = '\'' ∨ c = '(' ∨ isNameStart c = true

theorem word_head {word : String} (hw : isName word = true) (t : List Char) :
    ∃ c u, spell word ++ t = c :: u ∧ StartsPrint c := by
  obtain ⟨c, rest, hword, hc, -⟩ := isName_cases hw
  exact ⟨c, rest ++ t, by rw [hword, List.cons_append], Or.inr (Or.inr hc)⟩

theorem print_head {e : Expr} (h : e.Normal) : ∃ c t, e.print = c :: t ∧ StartsPrint c := by
  cases e with
  | str text => exact ⟨_, _, rfl, Or.inl rfl⟩
  | bool b =>
    rw [Expr.print, ← List.append_nil (spell _)]
    exact word_head (by cases b <;> decide) []
  | nil =>
    rw [Expr.print, ← List.append_nil (spell _)]
    exact word_head (by decide) []
  | var head fields => exact word_head (isVariable_iff.mp h.1).1 _
  | imported path =>
    rw [Expr.print, List.append_assoc]
    exact word_head (by decide) _
  | not inner => exact ⟨_, _, rfl, Or.inr (Or.inl rfl)⟩
  | eq lhs rhs => exact ⟨_, _, rfl, Or.inr (Or.inl rfl)⟩
  | ne lhs rhs => exact ⟨_, _, rfl, Or.inr (Or.inl rfl)⟩
  | and lhs rhs => exact ⟨_, _, rfl, Or.inr (Or.inl rfl)⟩
  | or lhs rhs => exact ⟨_, _, rfl, Or.inr (Or.inl rfl)⟩

theorem print_length_pos {e : Expr} (h : e.Normal) : 0 < e.print.length := by
  obtain ⟨c, t, hp, -⟩ := print_head h
  rw [hp]
  exact Nat.succ_pos _

/-- No white space in front of a printed expression. -/
theorem skipSpace_print {e : Expr} (h : e.Normal) (rest : List Char) :
    skipSpace (e.print ++ rest) = e.print ++ rest := by
  obtain ⟨c, t, hp, hc⟩ := print_head h
  have hs : isSpace c = false := by
    rcases hc with rfl | rfl | hc
    · rfl
    · rfl
    · exact not_space_of_nameChar (nameChar_of_nameStart hc)
  rw [hp, List.cons_append, skipSpace_cons hs]

/-! ## Negation -/

theorem negation_mark {c : Char} (hb : c ≠ '!') (hc : isNameStart c = false) (t : List Char) :
    negation (c :: t) = none := by
  unfold negation
  split
  · next heq => exact absurd (List.cons.inj heq).1 hb
  · exact keyword_eq_none hc

theorem negation_word {word : String} {rest : List Char} (hw : isName word = true)
    (hr : wordEnds rest = true) (hne : word ≠ "not") : negation (spell word ++ rest) = none := by
  obtain ⟨c, t, hword, hc, -⟩ := isName_cases hw
  unfold negation
  split
  · next heq =>
    rw [hword, List.cons_append] at heq
    exact absurd (List.cons.inj heq).1 (nameStart_ne hc (by decide))
  · exact keyword_append_of_ne hw hr hne

/-- No printed expression starts with a negation: a negation is printed in parentheses. -/
theorem negation_print {e : Expr} (h : e.Normal) {rest : List Char} (hr : Closes rest) :
    negation (e.print ++ rest) = none := by
  cases e with
  | str text => exact negation_mark (by decide) (by decide) _
  | bool b => exact negation_word (by cases b <;> decide) hr.wordEnds (by cases b <;> decide)
  | nil => exact negation_word (by decide) hr.wordEnds (by decide)
  | var head fields =>
    obtain ⟨hname, hfree⟩ := isVariable_iff.mp h.1
    rw [Expr.print, List.append_assoc]
    -- a path starts with any name but a reserved one, and `not` is reserved
    exact negation_word hname (wordEnds_printFields fields hr.wordEnds)
      fun hn => hfree (by rw [hn]; decide)
  | imported path =>
    rw [Expr.print, List.append_assoc, List.append_assoc]
    exact negation_word (by decide) (wordEnds_mark (by decide) _) (by decide)
  | not inner => exact negation_mark (by decide) (by decide) _
  | eq lhs rhs => exact negation_mark (by decide) (by decide) _
  | ne lhs rhs => exact negation_mark (by decide) (by decide) _
  | and lhs rhs => exact negation_mark (by decide) (by decide) _
  | or lhs rhs => exact negation_mark (by decide) (by decide) _

/-! ## Operators after an operand -/

/-- Where no operator of either kind starts: at the end, or at a closing parenthesis. -/
def Ends (rest : List Char) : Prop :=
  rest = [] ∨ ∃ t, rest = ')' :: t

theorem Ends.nil : Ends [] := Or.inl rfl

theorem Ends.paren (t : List Char) : Ends (')' :: t) := Or.inr ⟨t, rfl⟩

theorem Ends.closes {rest : List Char} (h : Ends rest) : Closes rest := by
  rcases h with rfl | ⟨t, rfl⟩
  · exact Closes.nil
  · exact Closes.paren t

theorem Ends.skipSpace {rest : List Char} (h : Ends rest) : skipSpace rest = rest := by
  rcases h with rfl | ⟨t, rfl⟩ <;> rfl

theorem Ends.noComparison {rest : List Char} (h : Ends rest) : NoComparison rest := by
  rcases h with rfl | ⟨t, rfl⟩
  · exact ⟨fun t => by simp, fun t => by simp⟩
  · exact ⟨fun t => by simp, fun t => by simp⟩

/-- A mark that is not the symbol's first character is not the operator. -/
theorem operator_mark {symbol : List Char} {word : String} {c d : Char} (hd : symbol.head? = some d)
    (hne : d ≠ c) (hc : isNameStart c = false) (t : List Char) :
    operator symbol word (c :: t) = none := by
  cases symbol with
  | nil => exact absurd hd (by simp)
  | cons e symbol =>
    obtain rfl : e = d := by simpa using hd
    rw [operator, if_neg (by simp [hne]), keyword_eq_none hc]

/-- No operator whose symbol is not a parenthesis comes where an expression ends. -/
theorem Ends.no_operator {rest : List Char} (h : Ends rest) {symbol : List Char} {word : String}
    {d : Char} (hd : symbol.head? = some d) (hne : d ≠ ')') :
    operator symbol word (Bindery.Template.skipSpace rest) = none := by
  rw [h.skipSpace]
  rcases h with rfl | ⟨t, rfl⟩
  · cases symbol with
    | nil => exact absurd hd (by simp)
    | cons e symbol => rfl
  · exact operator_mark hd hne (by decide) t

theorem Ends.no_and {rest : List Char} (h : Ends rest) :
    operator ['&', '&'] "and" (Bindery.Template.skipSpace rest) = none :=
  h.no_operator rfl (by decide)

theorem Ends.no_or {rest : List Char} (h : Ends rest) :
    operator ['|', '|'] "or" (Bindery.Template.skipSpace rest) = none :=
  h.no_operator rfl (by decide)

theorem operator_symbol (symbol t : List Char) (word : String) :
    operator symbol word (symbol ++ t) = some t := by
  have hp : symbol.isPrefixOf (symbol ++ t) = true :=
    List.isPrefixOf_iff_prefix.mpr (List.prefix_append symbol t)
  rw [operator, if_pos hp, List.drop_left]

/-! ## Expressions -/

section Expressions

variable {fuel : Nat} {s rest : List Char} {e lhs rhs : Expr}

/-- One operand without an operator after it is a disjunction. -/
theorem disjunction_stop {operand : Reader Expr} (hs : operand s = some (e, rest)) (hr : Ends rest) :
    disjunction operand s = some (e, rest) :=
  chain_stop (chain_stop hs hr.no_and) hr.no_or

/-- Two operands with `&&` between them. -/
theorem disjunction_and {operand : Reader Expr} {t : List Char}
    (hl : operand s = some (lhs, '&' :: '&' :: t)) (hr : operand (skipSpace t) = some (rhs, rest))
    (he : Ends rest) : disjunction operand s = some (.and lhs rhs, rest) := by
  have hop : operator ['&', '&'] "and" (skipSpace ('&' :: '&' :: t)) = some t :=
    operator_symbol ['&', '&'] t "and"
  exact chain_stop (chain_two hl (by simp) hop hr he.no_and) he.no_or

/-- Two operands with `||` between them: each is a conjunction of its own. -/
theorem disjunction_or {operand : Reader Expr} {t : List Char}
    (hl : operand s = some (lhs, '|' :: '|' :: t)) (hr : operand (skipSpace t) = some (rhs, rest))
    (he : Ends rest) : disjunction operand s = some (.or lhs rhs, rest) := by
  -- the bars end the conjunction on their left
  have hbar : operator ['&', '&'] "and" (skipSpace ('|' :: '|' :: t)) = none :=
    operator_mark rfl (by decide) (by decide) _
  have hop : operator ['|', '|'] "or" (skipSpace ('|' :: '|' :: t)) = some t :=
    operator_symbol ['|', '|'] t "or"
  exact chain_two (chain_stop hl hbar) (by simp) hop (chain_stop hr he.no_and) he.no_or

/-- What a primary is in front of a text. -/
def ReadsPrimary (fuel : Nat) (e : Expr) : Prop :=
  ∀ rest, Closes rest → primary fuel (e.print ++ rest) = some (e, skipSpace rest)

/-- Without a negation in front, the level of negations reads a comparison. -/
theorem notExpr_print (h : e.Normal) (hr : Closes rest) :
    notExpr (fuel + 1) (e.print ++ rest) = comparison (primary fuel) (e.print ++ rest) := by
  rw [notExpr]
  simp only [skipSpace_print h, negation_print h hr]

/-- A primary as an operand, in front of what is no comparison. -/
theorem operand_print (h : e.Normal) (hp : ReadsPrimary fuel e) (hr : Closes rest)
    (hc : NoComparison (skipSpace rest)) :
    notExpr (fuel + 1) (e.print ++ rest) = some (e, skipSpace rest) := by
  rw [notExpr_print h hr]
  exact comparison_stop (hp rest hr) (by rw [skipSpace_skipSpace]; exact hc)

/-- An expression in parentheses is a primary. -/
theorem primary_paren {inner : List Char}
    (hi : disjunction (notExpr fuel) (inner ++ ')' :: rest) = some (e, ')' :: rest)) :
    primary (fuel + 1) ('(' :: inner ++ ')' :: rest) = some (e, skipSpace rest) := by
  rw [primary, spacedPrimary, List.cons_append, skipSpace_cons (by decide), barePrimary, hi]
  rfl

/-- A word in front of a text is read as a word. -/
theorem primary_word {c : Char} {t : List Char} (hs : s = c :: t) (hc : isNameStart c = true)
    (hw : wordExpr (primary fuel) s = some (e, rest)) :
    primary (fuel + 1) s = some (e, skipSpace rest) := by
  subst hs
  have hspace : isSpace c = false := not_space_of_nameChar (nameChar_of_nameStart hc)
  have hdigit : c.isDigit = false := not_digit_of_nameStart hc
  have hdash : c ≠ '-' := nameStart_ne hc (by decide)
  rw [primary, spacedPrimary, skipSpace_cons hspace]
  -- a name start is none of the marks that the other primaries start with
  unfold barePrimary
  split
  · next heq => exact absurd (List.cons.inj heq).1 (nameStart_ne hc (by decide))
  · next heq => exact absurd (List.cons.inj heq).1 (nameStart_ne hc (by decide))
  · next heq => exact absurd (List.cons.inj heq).1 (nameStart_ne hc (by decide))
  · next heq => exact absurd (List.cons.inj heq).1 (nameStart_ne hc (by decide))
  · rw [if_neg (by simp [hdash, hdigit]), hw]
    rfl

/-! ### One constructor after another -/

theorem primary_str (text : String) : ReadsPrimary (fuel + 1) (.str text) := by
  intro rest _
  have hq : quoted (quote text.toList ++ rest) = some (text, rest) := by
    rw [quoted_quote, String.ofList_toList]
  rw [Expr.print, primary, spacedPrimary]
  rw [quote, List.cons_append, List.cons_append] at hq ⊢
  rw [skipSpace_cons (by decide), barePrimary, hq]
  rfl

/-- A text that starts with a name is read as a word. -/
theorem primary_spell {word : String} {t : List Char} (hw : isName word = true)
    (he : wordExpr (primary fuel) (spell word ++ t) = some (e, rest)) :
    primary (fuel + 1) (spell word ++ t) = some (e, skipSpace rest) := by
  obtain ⟨c, tail, hword, hc, -⟩ := isName_cases hw
  exact primary_word (by rw [hword, List.cons_append]) hc he

theorem primary_bool (b : Bool) : ReadsPrimary (fuel + 1) (.bool b) := by
  intro rest hr
  have hword : isName (if b then "true" else "false") = true := by cases b <;> decide
  have hn := name_append hword hr.wordEnds
  rw [Expr.print]
  refine primary_spell hword ?_
  unfold wordExpr
  rw [hn]
  cases b <;> rfl

theorem primary_nil : ReadsPrimary (fuel + 1) .nil := by
  intro rest hr
  have hword : isName "nil" = true := by decide
  have hn := name_append hword hr.wordEnds
  rw [Expr.print]
  refine primary_spell hword ?_
  unfold wordExpr
  rw [hn]
  rfl

theorem primary_var {head : String} {names : List String} (h : (Expr.var head names).Normal) :
    ReadsPrimary (fuel + 1) (.var head names) := by
  intro rest hr
  obtain ⟨hname, hfree⟩ := isVariable_iff.mp h.1
  have hn := name_append hname (wordEnds_printFields names hr.wordEnds)
  have hpath := path_append h.1 h.2 hr.wordEnds hr.not_dot
  -- the four words that are looked for before a path are reserved
  have hother : ∀ {word : String} {t : List Char}, word ∈ reserved →
      some (head, printFields names ++ rest) ≠ some (word, t) := by
    intro word t hw heq
    obtain ⟨rfl, -⟩ := Prod.mk.inj (Option.some.inj heq)
    exact hfree hw
  rw [Expr.print, List.append_assoc]
  refine primary_spell hname ?_
  unfold wordExpr
  rw [hn]
  split
  · next heq => exact absurd heq (hother (by decide))
  · next heq => exact absurd heq (hother (by decide))
  · next heq => exact absurd heq (hother (by decide))
  · next heq => exact absurd heq (hother (by decide))
  · rw [hpath]
    rfl

/-- An import takes the primary after it. -/
theorem primary_imported {argument : List Char}
    (ha : primary fuel ('(' :: argument) = some (e, skipSpace rest)) :
    primary (fuel + 1) (spell "import" ++ '(' :: argument) = some (.imported e, skipSpace rest) := by
  have hword : isName "import" = true := by decide
  have hn := name_append hword (wordEnds_mark (by decide : isNameChar '(' = false) argument)
  rw [← skipSpace_skipSpace]
  refine primary_spell hword ?_
  unfold wordExpr
  rw [hn]
  show (primary fuel ('(' :: argument)).map _ = _
  rw [ha]
  rfl

/-- Two operands with spaces and a symbol between them, in parentheses. -/
theorem primary_grouped {a b : Char}
    (hd : disjunction (notExpr fuel)
        (lhs.print ++ ' ' :: a :: b :: ' ' :: (rhs.print ++ ')' :: rest)) = some (e, ')' :: rest)) :
    primary (fuel + 1) (grouped lhs.print [a, b] rhs.print ++ rest) = some (e, skipSpace rest) := by
  have hsplit : grouped lhs.print [a, b] rhs.print ++ rest
      = '(' :: (lhs.print ++ ' ' :: a :: b :: ' ' :: rhs.print) ++ ')' :: rest := by
    simp [grouped]
  rw [hsplit]
  refine primary_paren ?_
  simpa using hd

/-! ### What stands between parentheses -/

/-- An operand after an operator and a space. -/
theorem operand_after_space (h : rhs.Normal) (t : List Char) :
    skipSpace (' ' :: (rhs.print ++ t)) = rhs.print ++ t := by
  rw [skipSpace_space, skipSpace_print h]

/-- Two operands with `==` or `!=` between them; `hcmp` is the rule for the symbol. -/
theorem inside_comparison {a : Char} {join : Expr → Expr → Expr} (ha : isSpace a = false)
    (hcmp : ∀ {s between after rest : List Char}, primary fuel s = some (lhs, between) →
      skipSpace between = a :: '=' :: after → primary fuel (skipSpace after) = some (rhs, rest) →
      comparison (primary fuel) s = some (join lhs rhs, rest))
    (hl : lhs.Normal) (hr : rhs.Normal) (hpl : ReadsPrimary fuel lhs) (hpr : ReadsPrimary fuel rhs)
    (t : List Char) :
    disjunction (notExpr (fuel + 1)) (lhs.print ++ ' ' :: a :: '=' :: ' ' :: (rhs.print ++ ')' :: t))
      = some (join lhs rhs, ')' :: t) := by
  -- the left operand has taken the space after it, the symbol leaves the one before the right one
  have hop : skipSpace (skipSpace (' ' :: a :: '=' :: ' ' :: (rhs.print ++ ')' :: t)))
      = a :: '=' :: ' ' :: (rhs.print ++ ')' :: t) := by
    rw [skipSpace_skipSpace, skipSpace_space, skipSpace_cons ha]
  have hright : primary fuel (skipSpace (' ' :: (rhs.print ++ ')' :: t))) = some (rhs, ')' :: t) := by
    rw [operand_after_space hr]
    exact hpr _ (Closes.paren t)
  refine disjunction_stop ?_ (Ends.paren t)
  rw [notExpr_print hl (Closes.space _)]
  exact hcmp (hpl _ (Closes.space _)) hop hright

/-- Two operands with `&&` or `||` between them; `hjoin` is the rule for the symbol. -/
theorem inside_joined {a : Char} {join : Expr → Expr → Expr} (ha : isSpace a = false)
    (hne : a ≠ '=' ∧ a ≠ '!')
    (hjoin : ∀ {s t rest : List Char}, notExpr (fuel + 1) s = some (lhs, a :: a :: t) →
      notExpr (fuel + 1) (skipSpace t) = some (rhs, rest) → Ends rest →
      disjunction (notExpr (fuel + 1)) s = some (join lhs rhs, rest))
    (hl : lhs.Normal) (hr : rhs.Normal) (hpl : ReadsPrimary fuel lhs) (hpr : ReadsPrimary fuel rhs)
    (t : List Char) :
    disjunction (notExpr (fuel + 1)) (lhs.print ++ ' ' :: a :: a :: ' ' :: (rhs.print ++ ')' :: t))
      = some (join lhs rhs, ')' :: t) := by
  have hends := Ends.paren t
  -- neither side is a comparison: the symbol on the one, the parenthesis on the other
  have hskip : ∀ u, skipSpace (' ' :: a :: u) = a :: u := fun u => by
    rw [skipSpace_space, skipSpace_cons ha]
  have hno : ∀ u, NoComparison (a :: u) :=
    fun u => ⟨fun v hv => hne.1 (List.cons.inj hv).1, fun v hv => hne.2 (List.cons.inj hv).1⟩
  have hleft := operand_print hl hpl (Closes.space (a :: a :: ' ' :: (rhs.print ++ ')' :: t)))
    (by rw [hskip]; exact hno _)
  have hright := operand_print hr hpr hends.closes (hends.skipSpace.symm ▸ hends.noComparison)
  rw [hskip] at hleft
  refine hjoin hleft ?_ hends
  rw [operand_after_space hr]
  exact hright

theorem inside_plain (h : e.Normal) (hp : ReadsPrimary fuel e) (t : List Char) :
    disjunction (notExpr (fuel + 1)) (e.print ++ ')' :: t) = some (e, ')' :: t) := by
  have hends := Ends.paren t
  exact disjunction_stop
    (operand_print h hp hends.closes (hends.skipSpace.symm ▸ hends.noComparison)) hends

theorem inside_not (h : e.Normal) (hp : ReadsPrimary fuel e) (t : List Char) :
    disjunction (notExpr (fuel + 2)) ('!' :: (e.print ++ ')' :: t)) = some (.not e, ')' :: t) := by
  have hends := Ends.paren t
  have hinner := operand_print h hp hends.closes (hends.skipSpace.symm ▸ hends.noComparison)
  -- `!=` would be no negation, but no expression starts with an equals sign
  have hhead : (e.print ++ ')' :: t).head? ≠ some '=' := by
    obtain ⟨c, u, hc, hstart⟩ := print_head h
    rw [hc]
    rcases hstart with rfl | rfl | hstart
    · simp
    · simp
    · simpa using nameStart_ne hstart (d := '=') (by decide)
  refine disjunction_stop ?_ hends
  rw [notExpr, skipSpace_cons (by decide)]
  simp only [negation, if_neg hhead, skipSpace_print h, hinner]
  rfl

end Expressions

/-- The room that is left for the operands of a compound expression. -/
theorem grouped_room {lhs rhs : Expr} {a b : Char} {fuel : Nat} (hl : lhs.Normal) (hr : rhs.Normal)
    (hfuel : 2 * (grouped lhs.print [a, b] rhs.print).length ≤ fuel + 1) :
    ∃ k, fuel = k + 2 ∧ 2 * lhs.print.length ≤ k + 1 ∧ 2 * rhs.print.length ≤ k + 1 := by
  -- two parentheses, two spaces and the two marks of the symbol
  have hlen : (grouped lhs.print [a, b] rhs.print).length
      = lhs.print.length + rhs.print.length + 6 := by
    simp [grouped]
    omega
  have := print_length_pos hl
  have := print_length_pos hr
  exact ⟨fuel - 2, by omega, by omega, by omega⟩

/-- **A printed expression is a primary.** By recursion on the expression: whatever stands between
parentheses is read two levels of nesting below them. -/
theorem primary_print (e : Expr) (h : e.Normal) {fuel : Nat} (hfuel : 2 * e.print.length ≤ fuel) :
    ReadsPrimary fuel e := by
  have hpos := print_length_pos h
  obtain ⟨fuel, rfl⟩ : ∃ k, fuel = k + 1 := ⟨fuel - 1, by omega⟩
  induction e generalizing fuel with
  | str text => exact primary_str text
  | bool b => exact primary_bool b
  | nil => exact primary_nil
  | var head names => exact primary_var h
  | imported path ih =>
    have hpath := print_length_pos (e := path) h
    have hlen : (Expr.imported path).print.length = path.print.length + 8 := by
      simp [Expr.print, show (spell "import").length = 6 by decide]
      omega
    obtain ⟨k, rfl⟩ : ∃ k, fuel = k + 3 := ⟨fuel - 3, by omega⟩
    intro rest hr
    -- one level for the word and two for the parentheses
    have hpr : ReadsPrimary (k + 1) path := ih h hpath k (by omega)
    rw [Expr.print]
    simpa using primary_imported (primary_paren (inside_plain (e := path) h hpr rest))
  | not inner ih =>
    have hinner := print_length_pos (e := inner) h
    have hlen : (Expr.not inner).print.length = inner.print.length + 3 := by
      simp [Expr.print]
    obtain ⟨k, rfl⟩ : ∃ k, fuel = k + 3 := ⟨fuel - 3, by omega⟩
    intro rest hr
    -- two levels for the parentheses and one for the mark
    have hpr : ReadsPrimary (k + 1) inner := ih h hinner k (by omega)
    have hread : disjunction (notExpr (k + 3)) (('!' :: inner.print) ++ ')' :: rest)
        = some (.not inner, ')' :: rest) := inside_not (e := inner) h hpr rest
    rw [Expr.print]
    simpa using primary_paren hread
  | eq lhs rhs ihl ihr =>
    obtain ⟨k, rfl, hl, hr⟩ := grouped_room h.1 h.2 hfuel
    have hpl := ihl h.1 (print_length_pos h.1) k hl
    have hpr := ihr h.2 (print_length_pos h.2) k hr
    intro rest _
    rw [Expr.print]
    exact primary_grouped (inside_comparison (by decide) comparison_eq h.1 h.2 hpl hpr rest)
  | ne lhs rhs ihl ihr =>
    obtain ⟨k, rfl, hl, hr⟩ := grouped_room h.1 h.2 hfuel
    have hpl := ihl h.1 (print_length_pos h.1) k hl
    have hpr := ihr h.2 (print_length_pos h.2) k hr
    intro rest _
    rw [Expr.print]
    exact primary_grouped (inside_comparison (by decide) comparison_ne h.1 h.2 hpl hpr rest)
  | and lhs rhs ihl ihr =>
    obtain ⟨k, rfl, hl, hr⟩ := grouped_room h.1 h.2 hfuel
    have hpl := ihl h.1 (print_length_pos h.1) k hl
    have hpr := ihr h.2 (print_length_pos h.2) k hr
    intro rest _
    rw [Expr.print]
    exact primary_grouped (inside_joined (by decide) (by decide) disjunction_and h.1 h.2 hpl hpr rest)
  | or lhs rhs ihl ihr =>
    obtain ⟨k, rfl, hl, hr⟩ := grouped_room h.1 h.2 hfuel
    have hpl := ihl h.1 (print_length_pos h.1) k hl
    have hpr := ihr h.2 (print_length_pos h.2) k hr
    intro rest _
    rw [Expr.print]
    exact primary_grouped (inside_joined (by decide) (by decide) disjunction_or h.1 h.2 hpl hpr rest)

/-- A space in front of a primary makes no difference. -/
theorem primary_space (fuel : Nat) (s : List Char) : primary fuel (' ' :: s) = primary fuel s := by
  cases fuel with
  | zero => rfl
  | succ fuel =>
    rw [primary, primary]
    rfl

/-- A space in front of an operand makes no difference. -/
theorem notExpr_space (fuel : Nat) (s : List Char) : notExpr fuel (' ' :: s) = notExpr fuel s := by
  cases fuel with
  | zero => rfl
  | succ fuel =>
    have hcmp : comparison (primary fuel) (' ' :: s) = comparison (primary fuel) s := by
      unfold comparison
      rw [primary_space]
    rw [notExpr, notExpr, skipSpace_space, hcmp]

/-- **A printed expression is read back**, with nothing of it left, at the end of a text. -/
theorem disjunction_print {e : Expr} (h : e.Normal) {fuel : Nat} (hfuel : 2 * e.print.length ≤ fuel) :
    disjunction (notExpr (fuel + 1)) e.print = some (e, []) := by
  have hp : ReadsPrimary fuel e := primary_print e h hfuel
  have hoperand := operand_print h hp Closes.nil Ends.nil.noComparison
  rw [List.append_nil] at hoperand
  -- at the end of the text there is no operator of any level
  exact disjunction_stop hoperand Ends.nil

theorem read_print {e : Expr} (h : e.Normal) : Expr.read e.print = some (e, []) :=
  disjunction_print h (by omega)

/-- A space in front of an expression makes no difference. -/
theorem read_space {e : Expr} (h : e.Normal) : Expr.read (' ' :: e.print) = some (e, []) := by
  have hroom : 2 * e.print.length ≤ 2 * (' ' :: e.print).length + 1 := by
    rw [List.length_cons]
    omega
  have hread := disjunction_print h hroom
  unfold Expr.read disjunction chain at *
  rw [notExpr_space]
  exact hread

end Bindery.Template
