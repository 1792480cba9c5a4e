import Bindery.Proofs.Template.GrammarWords

/-!
# `Proofs.Template.GrammarSound` — what is read is derived

A reader that takes an expression off the front of a text has followed the rules of its level. The readers call
each other with less room for nesting, so this goes by induction on the room (`read_sound`), and a chain of
operands is folded to the left as the rule for its operator says (`chainRest_sound`, by induction on what is
left to read).

**Contents.**
* `Takes` and `Derives.takes` — every expression takes some of its text;
* `chain_sound`, `comparison_sound`, `barePrimary_sound` — one lemma for each reader;
* `read_sound` — all of them together.
-/

namespace Bindery.Template.Grammar

variable {s r m a b t : List Char} {e lhs rhs : Expr} {level : Level} {fuel : Nat} {word : String}

/-! ## What is taken -/

/-- What is left of a text of which something has been taken. -/
structure Takes (s r : List Char) : Prop where
  suffix : r <:+ s
  shorter : r.length < s.length

namespace Takes

theorem of_cons {c : Char} (h : r <:+ t) : Takes (c :: t) r :=
  ⟨h.trans (List.suffix_cons c t), Nat.lt_succ_of_le h.length_le⟩

theorem after (h : Takes m r) (hs : m <:+ s) : Takes s r :=
  ⟨h.suffix.trans hs, Nat.lt_of_lt_of_le h.shorter hs.length_le⟩

theorem before (h : Takes s m) (hr : r <:+ m) : Takes s r :=
  ⟨hr.trans h.suffix, Nat.lt_of_le_of_lt hr.length_le h.shorter⟩

end Takes

theorem NameAt.suffix (h : NameAt word s r) : r <:+ s := by
  rw [h.text]
  exact List.suffix_append _ r

theorem NameAt.takes (h : NameAt word s r) : Takes s r := by
  obtain ⟨c, t, rfl, -, ht⟩ := h.head
  exact .of_cons ht

theorem SymbolAt.takes {c : Char} {symbol : List Char} (h : SymbolAt (c :: symbol) s r) : Takes s r := by
  rw [h]
  exact .of_cons (List.suffix_append symbol r)

theorem OperatorAt.takes {c : Char} {symbol : List Char} (h : OperatorAt (c :: symbol) word s r) : Takes s r := by
  rcases h with h | h
  · exact h.takes
  · exact h.takes

theorem Spaced.takes {piece : List Char → List Char → Prop} (hpiece : ∀ {a b}, piece a b → Takes a b)
    (h : Spaced piece s r) : Takes s r := by
  obtain ⟨a, b, hfront, hab, hback⟩ := h
  exact ((hpiece hab).before hback.suffix).after hfront.suffix

theorem QuotedAt.takes {text : List Char} (h : QuotedAt text s r) : Takes s r := by
  obtain ⟨written, ⟨rfl, -⟩ | ⟨rfl, -⟩⟩ := h
  · exact .of_cons ((List.suffix_cons _ r).trans (List.suffix_append _ _))
  · exact .of_cons ((List.suffix_cons _ r).trans (List.suffix_append _ _))

/-- An integer starts with a minus sign or a digit. -/
theorem IntegerAt.head {negative : Bool} {digits : List Char} (h : IntegerAt negative digits s r) :
    ∃ c t, s = c :: t ∧ (c = '-' ∨ c.isDigit = true) ∧ r <:+ t := by
  obtain ⟨d, more, rfl⟩ := List.exists_cons_of_ne_nil h.some_digits
  cases negative with
  | true =>
    refine ⟨'-', d :: more ++ r, ?_, .inl rfl, List.suffix_append _ r⟩
    rw [h.text]
    rfl
  | false =>
    refine ⟨d, more ++ r, ?_, .inr (h.all_digits d List.mem_cons_self), List.suffix_append more r⟩
    rw [h.text]
    rfl

theorem IntegerAt.takes {negative : Bool} {digits : List Char} (h : IntegerAt negative digits s r) :
    Takes s r := by
  obtain ⟨c, t, rfl, -, ht⟩ := h.head
  exact .of_cons ht

/-- A variable starts with a mark or with its name. -/
theorem VariableAt.head (h : VariableAt word s r) :
    ∃ c t, s = c :: t ∧ (c = '@' ∨ isNameStart c = true) ∧ r <:+ t := by
  obtain ⟨marks, m, hmarks, rfl, hname, -⟩ := h
  cases marks with
  | nil =>
    obtain ⟨c, t, rfl, hc, ht⟩ := hname.head
    exact ⟨c, t, rfl, .inr hc, ht⟩
  | cons d marks =>
    exact ⟨d, marks ++ m, rfl, .inl (hmarks d List.mem_cons_self), hname.suffix.trans (List.suffix_append marks m)⟩

/-- Where a variable is, there is no reserved word. -/
theorem VariableAt.not_reserved {word' : String} (h : VariableAt word s r) (h' : NameAt word' s m) :
    word' ∉ reserved := by
  obtain ⟨marks, m, hmarks, rfl, hname, hfree⟩ := h
  cases marks with
  | nil =>
    rw [h'.unique hname]
    exact hfree
  | cons d marks =>
    obtain rfl : d = '@' := hmarks d List.mem_cons_self
    obtain ⟨c, t, heq, hc, -⟩ := h'.head
    cases heq
    exact absurd hc (by decide)

theorem VariableAt.takes (h : VariableAt word s r) : Takes s r := by
  obtain ⟨c, t, rfl, -, ht⟩ := h.head
  exact .of_cons ht

/-- **Every expression takes some of its text.** -/
theorem Derives.takes (h : Derives level s e r) : Takes s r := by
  induction h with
  | conjunction _ ih => exact ih
  | negation _ ih => exact ih
  | comparison _ ih => exact ih
  | primary _ ih => exact ih
  | or _ op _ ihl ihr => exact ihl.before (ihr.suffix.trans (op.takes OperatorAt.takes).suffix)
  | and _ op _ ihl ihr => exact ihl.before (ihr.suffix.trans (op.takes OperatorAt.takes).suffix)
  | eq _ op _ ihl ihr => exact ihl.before (ihr.suffix.trans (op.takes SymbolAt.takes).suffix)
  | ne _ op _ ihl ihr => exact ihl.before (ihr.suffix.trans (op.takes SymbolAt.takes).suffix)
  | not mark _ ih => exact ih.after (mark.takes OperatorAt.takes).suffix
  | spaced front _ back ih => exact (ih.after front.suffix).before back.suffix
  | string h => exact h.takes
  | symbol h => exact .of_cons h.suffix
  | integer h => exact h.takes
  | group _ close ih => exact .of_cons ((close.takes SymbolAt.takes).suffix.trans ih.suffix)
  | yes h => exact h.takes
  | no h => exact h.takes
  | nil h => exact h.takes
  | imported word _ ih => exact ih.after word.suffix
  | var word fields => exact word.takes.before fields.suffix

/-! ## What is read is derived -/

section Soundness

variable {op : List Char → Option (List Char)} {join : Expr → Expr → Expr} {operand : Reader Expr}
  {Op : List Char → List Char → Prop} {One Many : List Char → Expr → List Char → Prop}

theorem spaced_of_read {piece : List Char → List Char → Prop} (h : piece (skipSpace s) r) :
    Spaced piece s (skipSpace r) :=
  ⟨skipSpace s, r, spaces_skipSpace s, h, spaces_skipSpace r⟩

/-- Operands that are read one after another are folded as the rule for their operator says. -/
theorem chainRest_sound (hop : ∀ {s r}, op s = some r → Op s r)
    (hoperand : ∀ {s e r}, operand s = some (e, r) → One s e r)
    (hmore : ∀ {s m m' r lhs rhs}, Many s lhs m → Spaced Op m m' → One m' rhs r → Many s (join lhs rhs) r)
    (hfirst : Many s lhs m) (h : chainRest op join operand fuel lhs m = (e, r)) : Many s e r := by
  induction fuel generalizing lhs m with
  | zero =>
    cases h
    exact hfirst
  | succ fuel ih =>
    unfold chainRest at h
    split at h
    · cases h
      exact hfirst
    next rest hread =>
      split at h
      · cases h
        exact hfirst
      next next rest' hnext => exact ih (hmore hfirst (spaced_of_read (hop hread)) (hoperand hnext)) h

theorem chain_sound (hop : ∀ {s r}, op s = some r → Op s r)
    (hoperand : ∀ {s e r}, operand s = some (e, r) → One s e r) (hone : ∀ {s e r}, One s e r → Many s e r)
    (hmore : ∀ {s m m' r lhs rhs}, Many s lhs m → Spaced Op m m' → One m' rhs r → Many s (join lhs rhs) r)
    (h : chain op join operand s = some (e, r)) : Many s e r := by
  unfold chain at h
  split at h
  · cases h
  next first rest hfirst =>
    exact chainRest_sound hop hoperand hmore (hone (hoperand hfirst)) (Option.some.inj h)

theorem disjunction_sound (hoperand : ∀ {s e r}, operand s = some (e, r) → Derives .negation s e r)
    (h : disjunction operand s = some (e, r)) : Derives .disjunction s e r :=
  chain_sound (operator_eq_some rfl (by decide)).mp
    (chain_sound (operator_eq_some rfl (by decide)).mp hoperand .negation .and) .conjunction .or h

theorem negation_sound (h : negation s = some r) : OperatorAt ['!'] "not" s r := by
  unfold negation at h
  split at h
  · next rest =>
    split at h
    · cases h
    · cases h
      exact .inl rfl
  · exact .inr (keyword_eq_some.mp h)

theorem comparison_sound (hoperand : ∀ {s e r}, operand s = some (e, r) → Derives .primary s e r)
    (h : comparison operand s = some (e, r)) : Derives .comparison s e r := by
  unfold comparison at h
  split at h
  · cases h
  next lhs rest hleft =>
    have hlhs := hoperand hleft
    split at h
    · next after hsymbol =>
      split at h
      · next rhs rest' hright =>
        cases h
        exact .eq hlhs (spaced_of_read hsymbol) (hoperand hright)
      · cases h
        exact .primary hlhs
    · next after hsymbol =>
      split at h
      · next rhs rest' hright =>
        cases h
        exact .ne hlhs (spaced_of_read hsymbol) (hoperand hright)
      · cases h
        exact .primary hlhs
    · cases h
      exact .primary hlhs

theorem wordExpr_sound (hargument : ∀ {s e r}, operand s = some (e, r) → Derives .primary s e r)
    (h : wordExpr operand s = some (e, r)) : Derives .bare s e r := by
  unfold wordExpr at h
  split at h
  · next rest hname => cases h; exact .yes (name_eq_some.mp hname)
  · next rest hname => cases h; exact .no (name_eq_some.mp hname)
  · next rest hname => cases h; exact .nil (name_eq_some.mp hname)
  · next rest hname =>
    obtain ⟨⟨inner, rest'⟩, hread, heq⟩ := Option.map_eq_some_iff.mp h
    cases heq
    exact .imported (name_eq_some.mp hname) (hargument hread)
  · obtain ⟨⟨⟨head, names⟩, rest⟩, hread, heq⟩ := Option.map_eq_some_iff.mp h
    cases heq
    obtain ⟨m, hvariable, hfields⟩ := path_sound hread
    exact .var hvariable hfields

theorem barePrimary_sound {nested argument : Reader Expr}
    (hnested : ∀ {s e r}, nested s = some (e, r) → Derives .disjunction s e r)
    (hargument : ∀ {s e r}, argument s = some (e, r) → Derives .primary s e r)
    (h : barePrimary nested argument s = some (e, r)) : Derives .bare s e r := by
  unfold barePrimary at h
  split at h
  · next rest =>
    obtain ⟨⟨text, rest'⟩, hread, heq⟩ := Option.map_eq_some_iff.mp h
    cases heq
    obtain ⟨chars, hquoted, rfl⟩ := quoted_eq_some.mp hread
    exact .string hquoted
  · next rest =>
    obtain ⟨⟨text, rest'⟩, hread, heq⟩ := Option.map_eq_some_iff.mp h
    cases heq
    obtain ⟨chars, hquoted, rfl⟩ := quoted_eq_some.mp hread
    exact .string hquoted
  · next rest =>
    obtain ⟨⟨text, rest'⟩, hread, heq⟩ := Option.map_eq_some_iff.mp h
    cases heq
    exact .symbol (name_eq_some.mp hread)
  · next rest =>
    split at h
    · next inner rest' hinner =>
      split at h
      · next rest'' hclose =>
        cases h
        exact .group (hnested hinner) ⟨_, _, spaces_skipSpace rest', hclose, .refl _⟩
      · cases h
    · cases h
  · split at h
    · obtain ⟨⟨text, rest'⟩, hread, heq⟩ := Option.map_eq_some_iff.mp h
      cases heq
      obtain ⟨negative, digits, hinteger, rfl⟩ := integer_eq_some.mp hread
      exact .integer hinteger
    · exact wordExpr_sound hargument h

/-- **What a reader reads is derived,** by induction on the nesting that is allowed. -/
theorem read_sound (fuel : Nat) :
    (∀ {s e r}, notExpr fuel s = some (e, r) → Derives .negation s e r) ∧
    (∀ {s e r}, primary fuel s = some (e, r) → Derives .primary s e r) := by
  induction fuel with
  | zero =>
    constructor
    · intro s e r h
      cases h
    · intro s e r h
      cases h
  | succ fuel ih =>
    obtain ⟨ihnot, ihprimary⟩ := ih
    constructor
    · intro s e r h
      unfold notExpr at h
      split at h
      · next rest hmark =>
        obtain ⟨⟨inner, rest'⟩, hread, heq⟩ := Option.map_eq_some_iff.mp h
        cases heq
        exact .not (spaced_of_read (negation_sound hmark)) (ihnot hread)
      · exact .comparison (comparison_sound ihprimary h)
    · intro s e r h
      unfold primary spacedPrimary at h
      obtain ⟨⟨inner, rest⟩, hread, heq⟩ := Option.map_eq_some_iff.mp h
      cases heq
      exact .spaced (spaces_skipSpace s) (barePrimary_sound (disjunction_sound ihnot) ihprimary hread)
        (spaces_skipSpace rest)

end Soundness

end Bindery.Template.Grammar
