import Bindery.Proofs.Template.GrammarSound

/-!
# `Proofs.Template.GrammarComplete` — what is derived is read

Readers are greedy and never go back, so a derivation is followed only up to where nothing comes next that
would make the expression longer: no dot, no sign of comparison and no operator of the same level. The rules
see to that themselves, since an operator that comes next ends the operand in front of it and no expression
begins with an equals sign, so that `!` is never the start of `!=` there.

A derivation may leave white space where a reader has already taken it, so readers are compared with
derivations behind the white space (`ReadBy`). A chain is read from its left end and derived from its right
one; `Reaches` says how far a chain has come, and each operator takes it one step further.

**Contents.**
* `AfterOperand` and `AfterExpr` — where readers stop;
* `Reaches` — how far the reader of a chain has come;
* `negation_begins` and `negation_bare` — what expressions begin with;
* `ReadBy`, one lemma for each rule, and `Derives.readBy` — what is derived is read.
-/

namespace Bindery.Template.Grammar

variable {s r m a b t : List Char} {e lhs rhs : Expr} {level : Level} {fuel : Nat} {word : String}

/-! ## Where a reader stops -/

/-- What may follow an operand that is read to its end. -/
structure AfterOperand (r : List Char) : Prop where
  not_dot : r.head? ≠ some '.'
  no_comparison : NoComparison (skipSpace r)

/-- What may follow an expression that is read to its end. -/
structure AfterExpr (r : List Char) : Prop extends AfterOperand r where
  no_and : operator ['&', '&'] "and" (skipSpace r) = none
  no_or : operator ['|', '|'] "or" (skipSpace r) = none

theorem AfterExpr.nil : AfterExpr [] where
  not_dot := by simp
  no_comparison := Ends.nil.noComparison
  no_and := Ends.nil.no_and
  no_or := Ends.nil.no_or

/-- What comes after white space is not in front of it. -/
theorem not_dot_of_skipSpace {c : Char} (h : skipSpace r = c :: t) (hc : c ≠ '.') : r.head? ≠ some '.' := by
  intro hdot
  obtain ⟨u, rfl⟩ := List.head?_eq_some_iff.mp hdot
  rw [skipSpace_cons (by decide)] at h
  exact hc (List.cons.inj h).1.symm

theorem afterOperand_of_skipSpace {c : Char} (h : skipSpace r = c :: t) (hdot : c ≠ '.') (heq : c ≠ '=')
    (hne : c ≠ '!') : AfterOperand r where
  not_dot := not_dot_of_skipSpace h hdot
  no_comparison := by
    rw [h]
    exact ⟨fun _ hsame => heq (List.cons.inj hsame).1, fun _ hsame => hne (List.cons.inj hsame).1⟩

/-- A symbol that comes next is found behind the white space in front of it. -/
theorem Spaced.symbol_head {d : Char} {symbol : List Char} (hspace : isSpace d = false)
    (h : Spaced (SymbolAt (d :: symbol)) m s) : ∃ b, skipSpace m = d :: (symbol ++ b) ∧ Spaces b s := by
  obtain ⟨a, b, hfront, hop, hback⟩ := h
  refine ⟨b, ?_, hback⟩
  rw [hfront.skipSpace_eq, hop, List.cons_append, skipSpace_cons hspace]

/-- An operator that comes next: behind the white space in front of it is its symbol, or a name. -/
theorem Spaced.operator_head {d : Char} {symbol : List Char} (hspace : isSpace d = false)
    (h : Spaced (OperatorAt (d :: symbol) word) m s) :
    ∃ c t b, skipSpace m = c :: t ∧ (c = d ∨ isNameStart c = true) ∧
      OperatorAt (d :: symbol) word (c :: t) b ∧ Spaces b s := by
  obtain ⟨a, b, hfront, hsymbol | hword, hback⟩ := h
  · have hm : skipSpace m = d :: (symbol ++ b) := by
      rw [hfront.skipSpace_eq, hsymbol, List.cons_append, skipSpace_cons hspace]
    exact ⟨d, symbol ++ b, b, hm, .inl rfl, .inl rfl, hback⟩
  · obtain ⟨c, t, rfl, hc, -⟩ := hword.head
    have hm : skipSpace m = c :: t := by
      rw [hfront.skipSpace_eq, skipSpace_cons (not_space_of_nameChar (nameChar_of_nameStart hc))]
    exact ⟨c, t, b, hm, .inr hc, .inr hword, hback⟩

/-- An operator ends the operand in front of it. -/
theorem Spaced.afterOperand {d : Char} {symbol : List Char} (hspace : isSpace d = false)
    (hplain : d ≠ '.' ∧ d ≠ '=' ∧ d ≠ '!') (h : Spaced (OperatorAt (d :: symbol) word) m s) :
    AfterOperand m := by
  obtain ⟨c, t, -, hskip, hc, -⟩ := h.operator_head hspace
  rcases hc with rfl | hc
  · exact afterOperand_of_skipSpace hskip hplain.1 hplain.2.1 hplain.2.2
  · exact afterOperand_of_skipSpace hskip (nameStart_ne hc (by decide)) (nameStart_ne hc (by decide))
      (nameStart_ne hc (by decide))

/-- Where one operator is, no other one is. -/
theorem operator_eq_none_of_other {symbol symbol' : List Char} {word' : String} {d d' : Char}
    (hd : symbol.head? = some d) (hd' : symbol'.head? = some d') (hmark : isNameStart d = false)
    (hmark' : isNameStart d' = false) (hne : d ≠ d') (hword : word ≠ word')
    (h : OperatorAt symbol word s r) : operator symbol' word' s = none := by
  rw [Option.eq_none_iff_forall_ne_some]
  intro r' hread
  have hsymbol {symbol r : List Char} {d : Char} (hd : symbol.head? = some d) (hs : s = symbol ++ r) :
      s.head? = some d := by
    rw [hs, List.head?_append, hd]
    rfl
  have hname {word : String} {r : List Char} (h : NameAt word s r) : ∃ c, s.head? = some c ∧ isNameStart c = true := by
    obtain ⟨c, t, rfl, hc, -⟩ := h.head
    exact ⟨c, rfl, hc⟩
  rcases h with hs | hw <;> rcases (operator_eq_some hd' hmark').mp hread with hs' | hw'
  · exact hne (Option.some.inj ((hsymbol hd hs).symm.trans (hsymbol hd' hs')))
  · obtain ⟨c, hhead, hc⟩ := hname hw'
    exact nameStart_ne hc hmark (Option.some.inj (hhead.symm.trans (hsymbol hd hs)))
  · obtain ⟨c, hhead, hc⟩ := hname hw
    exact nameStart_ne hc hmark' (Option.some.inj (hhead.symm.trans (hsymbol hd' hs')))
  · exact hword (hw.unique hw')

theorem no_and_of_or {m' : List Char} (h : Spaced (OperatorAt ['|', '|'] "or") m m') :
    operator ['&', '&'] "and" (skipSpace m) = none := by
  obtain ⟨c, t, b, hskip, -, hop, -⟩ := h.operator_head (by decide)
  rw [hskip]
  exact operator_eq_none_of_other rfl rfl (by decide) (by decide) (by decide) (by decide) hop

/-- A mark that belongs to no operator ends an expression. -/
theorem afterExpr_of_mark {c : Char} (h : skipSpace r = c :: t) (hname : isNameStart c = false)
    (hdot : c ≠ '.') (hno : NoComparison (c :: t)) (hand : c ≠ '&') (hor : c ≠ '|') : AfterExpr r where
  not_dot := not_dot_of_skipSpace h hdot
  no_comparison := by
    rw [h]
    exact hno
  no_and := by
    rw [h]
    exact operator_mark rfl hand.symm hname t
  no_or := by
    rw [h]
    exact operator_mark rfl hor.symm hname t

/-! ## White space in front makes no difference -/

theorem primary_skipSpace (fuel : Nat) (s : List Char) : primary fuel (skipSpace s) = primary fuel s := by
  cases fuel with
  | zero => rfl
  | succ fuel =>
    unfold primary spacedPrimary
    rw [skipSpace_skipSpace]

theorem comparison_skipSpace (fuel : Nat) (s : List Char) :
    comparison (primary fuel) (skipSpace s) = comparison (primary fuel) s := by
  unfold comparison
  rw [primary_skipSpace]

theorem notExpr_skipSpace (fuel : Nat) (s : List Char) : notExpr fuel (skipSpace s) = notExpr fuel s := by
  cases fuel with
  | zero => rfl
  | succ fuel =>
    rw [notExpr, notExpr, skipSpace_skipSpace, comparison_skipSpace]

theorem conjunction_skipSpace (fuel : Nat) (s : List Char) :
    chain (operator ['&', '&'] "and") .and (notExpr fuel) (skipSpace s) =
      chain (operator ['&', '&'] "and") .and (notExpr fuel) s := by
  unfold chain
  rw [notExpr_skipSpace]

/-! ## Chains -/

section Chains

variable {op : List Char → Option (List Char)} {join : Expr → Expr → Expr} {operand : Reader Expr}

/-- Reading a chain comes to `e`, with `r` left to go on with. -/
def Reaches (op : List Char → Option (List Char)) (join : Expr → Expr → Expr) (operand : Reader Expr)
    (s : List Char) (e : Expr) (r : List Char) : Prop :=
  ∃ first m, operand s = some (first, m) ∧ ∃ k, (skipSpace r).length ≤ k ∧
    chainRest op join operand m.length first m = chainRest op join operand k e (skipSpace r)

namespace Reaches

theorem one (h : operand s = some (e, skipSpace r)) : Reaches op join operand s e r :=
  ⟨e, skipSpace r, h, (skipSpace r).length, Nat.le_refl _, rfl⟩

/-- One more operator and operand. -/
theorem more (h : Reaches op join operand s lhs m) (hop : op (skipSpace m) = some a)
    (hoperand : operand (skipSpace a) = some (rhs, skipSpace r))
    (hshort : (skipSpace r).length < (skipSpace m).length) : Reaches op join operand s (join lhs rhs) r := by
  obtain ⟨first, rest, hfirst, k, hk, hchain⟩ := h
  obtain ⟨k, rfl⟩ : ∃ k', k = k' + 1 := ⟨k - 1, by omega⟩
  refine ⟨first, rest, hfirst, k, by omega, ?_⟩
  rw [hchain, chainRest, skipSpace_skipSpace, hop]
  simp only [hoperand]

/-- Without another operator, the chain ends. -/
theorem stop (h : Reaches op join operand s e r) (hop : op (skipSpace r) = none) :
    chain op join operand s = some (e, skipSpace r) := by
  obtain ⟨first, rest, hfirst, k, -, hchain⟩ := h
  have hstop : op (skipSpace (skipSpace r)) = none := by
    rw [skipSpace_skipSpace]
    exact hop
  unfold chain
  simp only [hfirst, hchain, chainRest_stop hstop]

end Reaches

end Chains

/-! ## What expressions begin with -/

/-- What a primary begins with. -/
theorem bare_head (h : Derives .bare s e r) : ∃ c t, s = c :: t ∧ isSpace c = false ∧ c ≠ '=' := by
  have hword {c : Char} (hc : isNameStart c = true) : isSpace c = false ∧ c ≠ '=' :=
    ⟨not_space_of_nameChar (nameChar_of_nameStart hc), nameStart_ne hc (by decide)⟩
  cases h with
  | string h =>
    obtain ⟨written, ⟨rfl, -⟩ | ⟨rfl, -⟩⟩ := h
    · exact ⟨_, _, rfl, by decide⟩
    · exact ⟨_, _, rfl, by decide⟩
  | symbol => exact ⟨_, _, rfl, by decide⟩
  | integer h =>
    obtain ⟨c, t, rfl, rfl | hc, -⟩ := h.head
    · exact ⟨_, _, rfl, by decide⟩
    · exact ⟨c, t, rfl, not_space_of_nameChar (nameChar_of_digit hc),
        nameChar_ne (nameChar_of_digit hc) (by decide)⟩
  | group => exact ⟨_, _, rfl, by decide⟩
  | yes h | no h | nil h | imported h =>
    obtain ⟨c, t, rfl, hc, -⟩ := h.head
    exact ⟨c, t, rfl, hword hc⟩
  | var h =>
    obtain ⟨c, t, rfl, rfl | hc, -⟩ := h.head
    · exact ⟨_, _, rfl, by decide⟩
    · exact ⟨c, t, rfl, hword hc⟩

theorem bare_skipSpace (h : Derives .bare s e r) : skipSpace s = s := by
  obtain ⟨c, t, rfl, hc, -⟩ := bare_head h
  exact skipSpace_cons hc t

theorem primary_begins (h : Derives .primary s e r) : ∃ c t, skipSpace s = c :: t ∧ c ≠ '=' := by
  cases h with
  | spaced front h back =>
    obtain ⟨c, t, rfl, hspace, hc⟩ := bare_head h
    rw [front.skipSpace_eq]
    exact ⟨c, t, skipSpace_cons hspace t, hc⟩

theorem comparison_begins (h : Derives .comparison s e r) : ∃ c t, skipSpace s = c :: t ∧ c ≠ '=' := by
  cases h with
  | primary h => exact primary_begins h
  | eq left => exact primary_begins left
  | ne left => exact primary_begins left

/-- **What is negated does not begin with an equals sign.** -/
theorem negation_begins (h : Derives .negation s e r) : ∃ c t, skipSpace s = c :: t ∧ c ≠ '=' := by
  cases h with
  | comparison h => exact comparison_begins h
  | not mark =>
    obtain ⟨c, t, b, hskip, hc, -⟩ := mark.operator_head (by decide)
    refine ⟨c, t, hskip, ?_⟩
    rcases hc with rfl | hc
    · decide
    · exact nameStart_ne hc (by decide)

/-- A name other than `not` is no negation. -/
theorem NameAt.negation_eq_none (h : NameAt word s r) (hne : word ≠ "not") : negation s = none := by
  rw [h.text]
  exact negation_word h.is_name h.ends hne

/-- A primary does not look like a negation. -/
theorem negation_bare (h : Derives .bare s e r) : negation s = none := by
  cases h with
  | string h =>
    obtain ⟨written, ⟨rfl, -⟩ | ⟨rfl, -⟩⟩ := h
    · exact negation_mark (by decide) (by decide) _
    · exact negation_mark (by decide) (by decide) _
  | symbol => exact negation_mark (by decide) (by decide) _
  | integer h =>
    obtain ⟨c, t, rfl, rfl | hc, -⟩ := h.head
    · exact negation_mark (by decide) (by decide) _
    · refine negation_mark (nameChar_ne (nameChar_of_digit hc) (by decide)) ?_ _
      exact Bool.eq_false_iff.mpr fun hstart => absurd (not_digit_of_nameStart hstart) (by simp [hc])
  | group => exact negation_mark (by decide) (by decide) _
  | yes h => exact h.negation_eq_none (by decide)
  | no h => exact h.negation_eq_none (by decide)
  | nil h => exact h.negation_eq_none (by decide)
  | imported h => exact h.negation_eq_none (by decide)
  | var h =>
    obtain ⟨marks, m, hmarks, rfl, hname, hfree⟩ := h
    cases marks with
    | nil =>
      refine hname.negation_eq_none ?_
      rintro rfl
      exact hfree (by decide)
    | cons d marks =>
      obtain rfl : d = '@' := hmarks d List.mem_cons_self
      exact negation_mark (by decide) (by decide) _

theorem negation_primary (h : Derives .primary s e r) : negation (skipSpace s) = none := by
  cases h with
  | spaced front h back =>
    rw [front.skipSpace_eq, bare_skipSpace h]
    exact negation_bare h

theorem negation_comparison (h : Derives .comparison s e r) : negation (skipSpace s) = none := by
  cases h with
  | primary h => exact negation_primary h
  | eq left => exact negation_primary left
  | ne left => exact negation_primary left

/-! ## What is derived is read -/

/-- The reader of a level takes an expression off the front of a text, if nothing comes after it that would
make it longer. Two levels of nesting for each character are room enough. -/
def ReadBy : Level → List Char → Expr → List Char → Prop
  | .disjunction, s, e, r =>
    AfterOperand r → operator ['&', '&'] "and" (skipSpace r) = none → ∀ fuel, 2 * s.length + 1 ≤ fuel →
      Reaches (operator ['|', '|'] "or") .or (chain (operator ['&', '&'] "and") .and (notExpr fuel)) s e r
  | .conjunction, s, e, r =>
    AfterOperand r → ∀ fuel, 2 * s.length + 1 ≤ fuel →
      Reaches (operator ['&', '&'] "and") .and (notExpr fuel) s e r
  | .negation, s, e, r =>
    AfterOperand r → ∀ fuel, 2 * s.length + 1 ≤ fuel → notExpr fuel s = some (e, skipSpace r)
  | .comparison, s, e, r =>
    AfterOperand r → ∀ fuel, 2 * s.length ≤ fuel → comparison (primary fuel) s = some (e, skipSpace r)
  | .primary, s, e, r =>
    r.head? ≠ some '.' → ∀ fuel, 2 * s.length ≤ fuel → primary fuel s = some (e, skipSpace r)
  | .bare, s, e, r =>
    r.head? ≠ some '.' → ∀ fuel, 2 * s.length ≤ fuel + 1 →
      ∃ m, barePrimary (disjunction (notExpr fuel)) (primary fuel) s = some (e, m) ∧ skipSpace m = skipSpace r

/-! ### Primaries -/

/-- What starts with no mark of its own is an integer or a word. -/
theorem barePrimary_other {nested argument : Reader Expr} {c : Char}
    (hc : c ≠ '"' ∧ c ≠ '\'' ∧ c ≠ ':' ∧ c ≠ '(') :
    barePrimary nested argument (c :: t) =
      if c = '-' ∨ c.isDigit = true then (integer (c :: t)).map fun (text, rest) => (.str text, rest)
      else wordExpr argument (c :: t) := by
  unfold barePrimary
  split
  · next heq => exact absurd (List.cons.inj heq).1 hc.1
  · next heq => exact absurd (List.cons.inj heq).1 hc.2.1
  · next heq => exact absurd (List.cons.inj heq).1 hc.2.2.1
  · next heq => exact absurd (List.cons.inj heq).1 hc.2.2.2
  · simp

theorem barePrimary_integer {nested argument : Reader Expr} {negative : Bool} {digits : List Char}
    (h : IntegerAt negative digits s r) :
    barePrimary nested argument s = some (.str (toString (signedValue negative digits)), r) := by
  have hread := integer_eq_some.mpr ⟨negative, digits, h, rfl⟩
  obtain ⟨c, t, rfl, hc, -⟩ := h.head
  have hmarks : c ≠ '"' ∧ c ≠ '\'' ∧ c ≠ ':' ∧ c ≠ '(' := by
    rcases hc with rfl | hc
    · decide
    · refine ⟨?_, ?_, ?_, ?_⟩ <;> exact nameChar_ne (nameChar_of_digit hc) (by decide)
  rw [barePrimary_other hmarks, if_pos hc, hread]
  rfl

theorem barePrimary_word {nested argument : Reader Expr} {c : Char} (hc : c = '@' ∨ isNameStart c = true) :
    barePrimary nested argument (c :: t) = wordExpr argument (c :: t) := by
  have hmarks : c ≠ '"' ∧ c ≠ '\'' ∧ c ≠ ':' ∧ c ≠ '(' := by
    rcases hc with rfl | hc
    · decide
    · refine ⟨?_, ?_, ?_, ?_⟩ <;> exact nameStart_ne hc (by decide)
  have hinteger : ¬(c = '-' ∨ c.isDigit = true) := by
    rcases hc with rfl | hc
    · decide
    · rintro (rfl | hdigit)
      · exact absurd hc (by decide)
      · rw [not_digit_of_nameStart hc] at hdigit
        exact Bool.false_ne_true hdigit
  rw [barePrimary_other hmarks, if_neg hinteger]

theorem barePrimary_name {nested argument : Reader Expr} (h : NameAt word s r) :
    barePrimary nested argument s = wordExpr argument s := by
  obtain ⟨c, t, rfl, hc, -⟩ := h.head
  exact barePrimary_word (.inr hc)

theorem readBy_string {text : List Char} (h : QuotedAt text s r) :
    ReadBy .bare s (.str (String.ofList text)) r := by
  intro _ fuel _
  have hread := quoted_eq_some.mpr ⟨text, h, rfl⟩
  refine ⟨r, ?_, rfl⟩
  obtain ⟨written, ⟨rfl, -⟩ | ⟨rfl, -⟩⟩ := h
  · rw [barePrimary, hread]
    rfl
  · rw [barePrimary, hread]
    rfl

theorem readBy_symbol (h : NameAt word s r) : ReadBy .bare (':' :: s) (.str word) r := by
  intro _ fuel _
  refine ⟨r, ?_, rfl⟩
  rw [barePrimary, name_eq_some.mpr h]
  rfl

/-- A closing parenthesis ends the expression in front of it. -/
theorem readBy_group (ih : ReadBy .disjunction s e m) (close : Spaced (SymbolAt [')']) m r) :
    ReadBy .bare ('(' :: s) e r := by
  intro _ fuel hfuel
  obtain ⟨b, hskip, hback⟩ := close.symbol_head (by decide)
  have hend : AfterExpr m := by
    refine afterExpr_of_mark hskip (by decide) (by decide) ⟨fun _ => ?_, fun _ => ?_⟩ (by decide) (by decide)
    · simp
    · simp
  have hroom : 2 * s.length + 1 ≤ fuel := by
    rw [List.length_cons] at hfuel
    omega
  have hread : disjunction (notExpr fuel) s = some (e, skipSpace m) :=
    (ih hend.toAfterOperand hend.no_and fuel hroom).stop hend.no_or
  refine ⟨b, ?_, hback.skipSpace_eq⟩
  rw [barePrimary, hread]
  simp only [hskip]
  rfl

theorem readBy_yes (h : NameAt "true" s r) : ReadBy .bare s (.bool true) r := by
  intro _ fuel _
  refine ⟨r, ?_, rfl⟩
  rw [barePrimary_name h, wordExpr, name_eq_some.mpr h]
  rfl

theorem readBy_no (h : NameAt "false" s r) : ReadBy .bare s (.bool false) r := by
  intro _ fuel _
  refine ⟨r, ?_, rfl⟩
  rw [barePrimary_name h, wordExpr, name_eq_some.mpr h]
  rfl

theorem readBy_nil (h : NameAt "nil" s r) : ReadBy .bare s .nil r := by
  intro _ fuel _
  refine ⟨r, ?_, rfl⟩
  rw [barePrimary_name h, wordExpr, name_eq_some.mpr h]
  rfl

theorem readBy_imported (h : NameAt "import" s m) (ih : ReadBy .primary m e r) :
    ReadBy .bare s (.imported e) r := by
  intro hdot fuel hfuel
  have hroom : 2 * m.length ≤ fuel := by
    have := h.takes.shorter
    omega
  refine ⟨skipSpace r, ?_, skipSpace_skipSpace r⟩
  rw [barePrimary_name h, wordExpr, name_eq_some.mpr h]
  simp only [ih hdot fuel hroom, Option.map_some]

theorem readBy_var {names : List String} (hword : VariableAt word s m) (hfields : FieldsAt names m r) :
    ReadBy .bare s (.var word names) r := by
  intro hdot fuel _
  have hread := path_complete hword hfields hdot
  obtain ⟨c, t, hs, hc, -⟩ := hword.head
  refine ⟨r, ?_, rfl⟩
  rw [hs, barePrimary_word hc, ← hs]
  -- the four words that are looked for before a path are reserved
  have hother {word' : String} {r' : List Char} (hname : name s = some (word', r')) (hmem : word' ∈ reserved) :
      False := hword.not_reserved (name_eq_some.mp hname) hmem
  unfold wordExpr
  split
  · next hname => exact (hother hname (by decide)).elim
  · next hname => exact (hother hname (by decide)).elim
  · next hname => exact (hother hname (by decide)).elim
  · next hname => exact (hother hname (by decide)).elim
  · rw [hread]
    rfl

/-! ### The levels above -/

/-- White space may stand between an operand and what comes after it. -/
theorem Spaces.not_dot (h : Spaces s r) (hdot : r.head? ≠ some '.') : s.head? ≠ some '.' := by
  obtain ⟨front, hfront, rfl⟩ := h
  cases front with
  | nil => exact hdot
  | cons c front =>
    intro heq
    cases heq
    exact absurd (hfront '.' List.mem_cons_self) (by decide)

theorem readBy_spaced (front : Spaces s a) (h : Derives .bare a e b) (ih : ReadBy .bare a e b)
    (back : Spaces b r) : ReadBy .primary s e r := by
  intro hdot fuel hfuel
  have hlength := front.suffix.length_le
  have htaken := h.takes.shorter
  obtain ⟨fuel, rfl⟩ : ∃ k, fuel = k + 1 := ⟨fuel - 1, by omega⟩
  obtain ⟨m, hread, hm⟩ := ih (back.not_dot hdot) fuel (by omega)
  unfold primary spacedPrimary
  rw [front.skipSpace_eq, bare_skipSpace h, hread, ← back.skipSpace_eq, ← hm]
  rfl

/-- One operand is a comparison if no sign of comparison follows. -/
theorem readBy_primary (ih : ReadBy .primary s e r) : ReadBy .comparison s e r := by
  intro hr fuel hfuel
  refine comparison_stop (ih hr.not_dot fuel hfuel) ?_
  rw [skipSpace_skipSpace]
  exact hr.no_comparison

/-- Two operands with a sign between them are a comparison, whatever follows; `hcmp` is the rule for the sign. -/
theorem comparison_complete {c : Char} {join : Expr → Expr → Expr} {m' : List Char} (hspace : isSpace c = false)
    (hdot : c ≠ '.')
    (hcmp : ∀ {s between after rest : List Char}, primary fuel s = some (lhs, between) →
      skipSpace between = c :: '=' :: after → primary fuel (skipSpace after) = some (rhs, rest) →
      comparison (primary fuel) s = some (join lhs rhs, rest))
    (ihl : ReadBy .primary s lhs m) (op : Spaced (SymbolAt [c, '=']) m m') (ihr : ReadBy .primary m' rhs r)
    (hm : m.length ≤ s.length) (hr : r.head? ≠ some '.') (hfuel : 2 * s.length ≤ fuel) :
    comparison (primary fuel) s = some (join lhs rhs, skipSpace r) := by
  obtain ⟨b, hskip, hback⟩ := op.symbol_head hspace
  have hshort := (op.takes SymbolAt.takes).shorter
  have hleft := ihl (not_dot_of_skipSpace hskip hdot) fuel hfuel
  have hright : primary fuel (skipSpace b) = some (rhs, skipSpace r) := by
    rw [hback.skipSpace_eq, primary_skipSpace]
    exact ihr hr fuel (by omega)
  refine hcmp hleft ?_ hright
  rw [skipSpace_skipSpace]
  exact hskip

theorem negation_complete {c : Char} (h : OperatorAt ['!'] "not" (c :: t) b) (hb : b.head? ≠ some '=') :
    negation (c :: t) = some b := by
  rcases h with hsymbol | hword
  · cases hsymbol
    exact if_neg hb
  · obtain ⟨d, u, heq, hd, -⟩ := hword.head
    cases heq
    unfold negation
    split
    · next heq => exact absurd (List.cons.inj heq).1 (nameStart_ne hd (by decide))
    · exact keyword_eq_some.mpr hword

/-- A negation takes the operand after it. -/
theorem readBy_not (mark : Spaced (OperatorAt ['!'] "not") s m) (h : Derives .negation m e r)
    (ih : ReadBy .negation m e r) : ReadBy .negation s (.not e) r := by
  intro hr fuel hfuel
  have hshort := (mark.takes OperatorAt.takes).shorter
  obtain ⟨c, t, b, hskip, -, hop, hback⟩ := mark.operator_head (by decide)
  obtain ⟨c', t', hbegin, hc'⟩ := negation_begins h
  -- so the mark is not that of a comparison
  have hb : b.head? ≠ some '=' := by
    intro heq
    obtain ⟨u, rfl⟩ := List.head?_eq_some_iff.mp heq
    rw [← hback.skipSpace_eq, skipSpace_cons (by decide)] at hbegin
    exact hc' (List.cons.inj hbegin).1.symm
  obtain ⟨fuel, rfl⟩ : ∃ k, fuel = k + 1 := ⟨fuel - 1, by omega⟩
  rw [notExpr, hskip, negation_complete hop hb]
  simp only [hback.skipSpace_eq, notExpr_skipSpace, ih hr fuel (by omega), Option.map_some]

theorem readBy_comparison (h : Derives .comparison s e r) (ih : ReadBy .comparison s e r) :
    ReadBy .negation s e r := by
  intro hr fuel hfuel
  obtain ⟨fuel, rfl⟩ : ∃ k, fuel = k + 1 := ⟨fuel - 1, by omega⟩
  rw [notExpr, negation_comparison h]
  exact ih hr fuel (by omega)

/-- A chain goes on with an operator and an operand. -/
theorem Reaches.join {d : Char} {symbol m' : List Char} {join : Expr → Expr → Expr} {operand : Reader Expr}
    (hspace : isSpace d = false) (hmark : isNameStart d = false)
    (hskip : ∀ s, operand (skipSpace s) = operand s)
    (h : Reaches (operator (d :: symbol) word) join operand s lhs m)
    (op : Spaced (OperatorAt (d :: symbol) word) m m') (hoperand : operand m' = some (rhs, skipSpace r))
    (htakes : Takes m' r) : Reaches (operator (d :: symbol) word) join operand s (join lhs rhs) r := by
  obtain ⟨c, t, b, hm, -, hop, hback⟩ := op.operator_head hspace
  have hread : operator (d :: symbol) word (skipSpace m) = some b := by
    rw [hm]
    exact (operator_eq_some rfl hmark).mpr hop
  have hnext : operand (skipSpace b) = some (rhs, skipSpace r) := by
    rw [hback.skipSpace_eq, hskip]
    exact hoperand
  refine h.more hread hnext ?_
  -- the operator and the operand have both taken something
  have hspaces := (skipSpace_suffix r).length_le
  have hright := htakes.shorter
  have hbetween := hback.suffix.length_le
  have hsymbol := hop.takes.shorter
  rw [hm]
  omega

/-- **What is derived is read,** by induction on the derivation, with one rule after another. -/
theorem Derives.readBy (h : Derives level s e r) : ReadBy level s e r := by
  induction h with
  | conjunction _ ih =>
    intro hr hand fuel hfuel
    exact .one ((ih hr fuel hfuel).stop hand)
  | or left op right ihl ihr =>
    intro hr hand fuel hfuel
    have hlength := (op.takes OperatorAt.takes).shorter
    have hleft := left.takes.shorter
    -- what is left for the right side is shorter, so that the fuel is enough for it too
    have hread := (ihr hr fuel (by omega)).stop hand
    exact (ihl (op.afterOperand (by decide) (by decide)) (no_and_of_or op) fuel hfuel).join (by decide)
      (by decide) (conjunction_skipSpace fuel) op hread right.takes
  | negation _ ih =>
    intro hr fuel hfuel
    exact .one (ih hr fuel hfuel)
  | and left op right ihl ihr =>
    intro hr fuel hfuel
    have hlength := (op.takes OperatorAt.takes).shorter
    have hleft := left.takes.shorter
    exact (ihl (op.afterOperand (by decide) (by decide)) fuel hfuel).join (by decide) (by decide)
      (notExpr_skipSpace fuel) op (ihr hr fuel (by omega)) right.takes
  | comparison h ih => exact readBy_comparison h ih
  | not mark h ih => exact readBy_not mark h ih
  | primary _ ih => exact readBy_primary ih
  | eq left op _ ihl ihr =>
    intro hr fuel hfuel
    exact comparison_complete (by decide) (by decide) comparison_eq ihl op ihr left.takes.suffix.length_le
      hr.not_dot hfuel
  | ne left op _ ihl ihr =>
    intro hr fuel hfuel
    exact comparison_complete (by decide) (by decide) comparison_ne ihl op ihr left.takes.suffix.length_le
      hr.not_dot hfuel
  | spaced front h back ih => exact readBy_spaced front h ih back
  | string h => exact readBy_string h
  | symbol h => exact readBy_symbol h
  | integer h => exact fun _ _ _ => ⟨_, barePrimary_integer h, rfl⟩
  | group _ close ih => exact readBy_group ih close
  | yes h => exact readBy_yes h
  | no h => exact readBy_no h
  | nil h => exact readBy_nil h
  | imported word _ ih => exact readBy_imported word ih
  | var word fields => exact readBy_var word fields

end Bindery.Template.Grammar
