import Bindery.Proofs.Template.GrammarReading

/-!
# `Proofs.Template.StatementGrammar` — the grammar of statements

A statement is worded in one of seven ways. Each is one rule over the words and expressions of the grammar,
and the reader of statements accepts exactly what the rules spell (`statementCode_eq_ok`). Two of the wordings
say nothing new: `unless` is an `if` with its condition negated, and `each` is a `for` over a path.

```text
statement = 'if' or | 'unless' or | 'elsif' or | 'else' | 'end'
          | 'for' variable 'in' or
          | variable ('.' name)* '.' 'each' 'do' '|' variable '|'
```

**Contents.**
* `Wording` with `Wording.statement`, and `Spells`, one constructor for each rule;
* `spells_of_readBare` and `readBare_of_spells` — the two directions;
* `statementCode_eq_ok` — the whole code of a tag.
-/

namespace Bindery.Template.Grammar

open Bindery.Text

variable {s r m : List Char}

/-! ## Rules -/

/-- How a statement is worded. -/
inductive Wording where
  | ifTest (condition : Expr)
  | unlessTest (condition : Expr)
  | elsifTest (condition : Expr)
  | elseWord
  | endWord
  | forLoop (name : String) (items : Expr)
  | eachLoop (name head : String) (fields : List String)

/-- What a wording asks for. -/
def Wording.statement : Wording → Statement
  | ifTest condition => .test condition
  | unlessTest condition => .test (.not condition)
  | elsifTest condition => .retest condition
  | elseWord => .otherwise
  | endWord => .close
  | forLoop name items => .loop name items
  | eachLoop name head fields => .loop name (.var head fields)

/-- The text `s` starts with a statement in this wording, and `r` is left of it. -/
inductive Spells : Wording → (s r : List Char) → Prop
  | ifTest {s m r : List Char} {e : Expr} (word : NameAt "if" s m) (h : Derives .disjunction m e r) :
    Spells (.ifTest e) s r
  | unlessTest {s m r : List Char} {e : Expr} (word : NameAt "unless" s m)
    (h : Derives .disjunction m e r) : Spells (.unlessTest e) s r
  | elsifTest {s m r : List Char} {e : Expr} (word : NameAt "elsif" s m)
    (h : Derives .disjunction m e r) : Spells (.elsifTest e) s r
  | elseWord {s r : List Char} (word : NameAt "else" s r) : Spells .elseWord s r
  | endWord {s r : List Char} (word : NameAt "end" s r) : Spells .endWord s r
  | forLoop {s a b c r : List Char} {name : String} {items : Expr} (word : NameAt "for" s a)
    (named : Spaced (VariableAt name) a b) (separator : NameAt "in" b c)
    (h : Derives .disjunction c items r) : Spells (.forLoop name items) s r
  | eachLoop {s a b c d e r : List Char} {name head : String} {fields : List String}
    (first : VariableAt head s a) (more : FieldsAt (fields ++ ["each"]) a b)
    (separator : Spaced (NameAt "do") b c) (opening : Spaced (SymbolAt ['|']) c d)
    (named : VariableAt name d e) (closing : Spaced (SymbolAt ['|']) e r) :
    Spells (.eachLoop name head fields) s r

/-- Every statement takes some of its text. -/
theorem Spells.takes {w : Wording} (h : Spells w s r) : Takes s r := by
  cases h with
  | ifTest word h => exact h.takes.after word.suffix
  | unlessTest word h => exact h.takes.after word.suffix
  | elsifTest word h => exact h.takes.after word.suffix
  | elseWord word => exact word.takes
  | endWord word => exact word.takes
  | forLoop word named separator h =>
    have hitems := h.takes.after separator.suffix
    exact (hitems.after (named.takes VariableAt.takes).suffix).after word.suffix
  | eachLoop first more separator opening named closing =>
    have hnamed := named.takes.before (closing.takes SymbolAt.takes).suffix
    have hopening := hnamed.after (opening.takes SymbolAt.takes).suffix
    have hseparator := hopening.after (separator.takes NameAt.takes).suffix
    exact (hseparator.after more.suffix).after first.takes.suffix

/-! ## What is read is spelled -/

theorem withExpr_sound {make : Expr → Statement} {statement : Statement}
    (h : Statement.withExpr make s = .read statement r) :
    ∃ e, Derives .disjunction s e r ∧ statement = make e := by
  unfold Statement.withExpr at h
  split at h
  · next e rest hread =>
    cases h
    exact ⟨e, derives_of_read hread, rfl⟩
  · cases h

theorem spacedChar_sound {c : Char} (h : Statement.spacedChar c s = some r) :
    Spaced (SymbolAt [c]) s r := by
  unfold Statement.spacedChar at h
  split at h
  · next d rest hskip =>
    split at h
    · next hc =>
      cases h
      subst hc
      have hsymbol : SymbolAt [d] (skipSpace s) rest := hskip
      exact spaced_of_read hsymbol
    · cases h
  · cases h

theorem forHeader_sound {name : String} {items : Expr}
    (h : Statement.forHeader s = some ((name, items), r)) :
    ∃ a b, Spaced (VariableAt name) s a ∧ NameAt "in" a b ∧ Derives .disjunction b items r := by
  unfold Statement.forHeader at h
  simp only [Option.bind_eq_bind, Option.bind_eq_some_iff, Prod.exists, Option.pure_def,
    Option.some.injEq, Prod.mk.injEq] at h
  obtain ⟨found, a, hname, b, hin, e, rest, hread, ⟨rfl, rfl⟩, rfl⟩ := h
  exact ⟨_, b, spaced_of_read (variableName_eq_some.mp hname), keyword_eq_some.mp hin,
    derives_of_read hread⟩

theorem eachHeader_sound {name : String} {items : Expr}
    (h : Statement.eachHeader s = some ((name, items), r)) :
    ∃ head fields, items = .var head fields ∧ Spells (.eachLoop name head fields) s r := by
  unfold Statement.eachHeader at h
  simp only [Option.bind_eq_bind, Option.bind_eq_some_iff, Prod.exists] at h
  obtain ⟨head, names, a, hpath, b, hdo, c, hopening, found, d, hname, e, hclosing, h⟩ := h
  split at h
  · next heach =>
    cases h
    obtain ⟨m, hhead, hfields⟩ := path_sound hpath
    obtain ⟨front, rfl⟩ := List.getLast?_eq_some_iff.mp heach
    refine ⟨head, front, by rw [List.dropLast_concat], ?_⟩
    have hseparator : Spaced (NameAt "do") a b :=
      ⟨_, b, spaces_skipSpace a, keyword_eq_some.mp hdo, .refl b⟩
    exact .eachLoop hhead hfields hseparator (spacedChar_sound hopening)
      (variableName_eq_some.mp hname) (spacedChar_sound hclosing)
  · cases h

/-- **What is read as a statement is spelled.** -/
theorem spells_of_readBare {statement : Statement} (h : Statement.readBare s = .read statement r) :
    ∃ w, Spells w s r ∧ w.statement = statement := by
  unfold Statement.readBare at h
  split at h
  · next m hname =>
    obtain ⟨e, hread, rfl⟩ := withExpr_sound h
    exact ⟨_, .ifTest (name_eq_some.mp hname) hread, rfl⟩
  · next m hname =>
    obtain ⟨e, hread, rfl⟩ := withExpr_sound h
    exact ⟨_, .unlessTest (name_eq_some.mp hname) hread, rfl⟩
  · next m hname =>
    obtain ⟨e, hread, rfl⟩ := withExpr_sound h
    exact ⟨_, .elsifTest (name_eq_some.mp hname) hread, rfl⟩
  · next m hname =>
    cases h
    exact ⟨_, .elseWord (name_eq_some.mp hname), rfl⟩
  · next m hname =>
    cases h
    exact ⟨_, .endWord (name_eq_some.mp hname), rfl⟩
  · next m hname =>
    split at h
    · next name items rest hheader =>
      cases h
      obtain ⟨a, b, hnamed, hin, hitems⟩ := forHeader_sound hheader
      exact ⟨_, .forLoop (name_eq_some.mp hname) hnamed hin hitems, rfl⟩
    · cases h
  · split at h
    · next name items rest hheader =>
      cases h
      obtain ⟨head, fields, rfl, hspells⟩ := eachHeader_sound hheader
      exact ⟨_, hspells, rfl⟩
    · cases h

/-! ## What is spelled is read -/

theorem withExpr_of_derives {e : Expr} (make : Expr → Statement) (h : Derives .disjunction s e []) :
    Statement.withExpr make s = .read (make e) [] := by
  unfold Statement.withExpr
  rw [read_of_derives h .nil]
  rfl

theorem Spaces.trans (h : Spaces s m) (h' : Spaces m r) : Spaces s r := by
  obtain ⟨front, hfront, rfl⟩ := h
  obtain ⟨back, hback, rfl⟩ := h'
  refine ⟨front ++ back, ?_, (List.append_assoc front back r).symm⟩
  intro c hc
  rcases List.mem_append.mp hc with hc | hc
  · exact hfront c hc
  · exact hback c hc

/-- White space in front of a piece that has white space around it. -/
theorem Spaced.front {piece : List Char → List Char → Prop} (h : Spaced piece m r) (hs : Spaces s m) :
    Spaced piece s r := by
  obtain ⟨a, b, hfront, hpiece, hback⟩ := h
  exact ⟨a, b, hs.trans hfront, hpiece, hback⟩

/-- A symbol is read up to what comes behind the white space after it. -/
theorem spacedChar_of_spaced {c : Char} (hc : isSpace c = false) (h : Spaced (SymbolAt [c]) s r) :
    Statement.spacedChar c s = some (skipSpace r) := by
  obtain ⟨b, hskip, hback⟩ := h.symbol_head hc
  unfold Statement.spacedChar
  rw [hskip]
  simp only [if_true, List.nil_append, hback.skipSpace_eq]

theorem VariableAt.skipSpace_eq {name : String} (h : VariableAt name s r) : skipSpace s = s := by
  obtain ⟨c, t, rfl, hc, -⟩ := h.head
  apply skipSpace_cons
  rcases hc with rfl | hc
  · rfl
  · exact not_space_of_nameChar (nameChar_of_nameStart hc)

theorem NameAt.skipSpace_eq {name : String} (h : NameAt name s r) : skipSpace s = s := by
  obtain ⟨c, t, rfl, hc, -⟩ := h.head
  exact skipSpace_cons (not_space_of_nameChar (nameChar_of_nameStart hc)) t

theorem forHeader_of_spells {a b : List Char} {name : String} {items : Expr}
    (named : Spaced (VariableAt name) s a) (separator : NameAt "in" a b)
    (h : Derives .disjunction b items []) : Statement.forHeader s = some ((name, items), []) := by
  obtain ⟨x, y, hfront, hname, hback⟩ := named
  have hvariable : variableName (skipSpace s) = some (name, y) := by
    rw [hfront.skipSpace_eq, hname.skipSpace_eq]
    exact variableName_eq_some.mpr hname
  have hin : keyword "in" (skipSpace y) = some b := by
    rw [hback.skipSpace_eq, separator.skipSpace_eq]
    exact keyword_eq_some.mpr separator
  unfold Statement.forHeader
  simp only [Option.bind_eq_bind, hvariable, hin, Option.bind_some, read_of_derives h .nil]
  rfl

theorem eachHeader_of_spells {name head : String} {fields : List String}
    (h : Spells (.eachLoop name head fields) s []) :
    Statement.eachHeader s = some ((name, .var head fields), []) := by
  cases h with
  | @eachLoop _ a b c d e _ _ _ _ first more separator opening named closing =>
    obtain ⟨x, y, hfront, hword, hback⟩ := separator
    have hskip : skipSpace b = x := hfront.skipSpace_eq.trans hword.skipSpace_eq
    have hdot : b.head? ≠ some '.' := by
      obtain ⟨c, t, rfl, hc, -⟩ := hword.head
      apply not_dot_of_skipSpace hskip
      rintro rfl
      exact absurd hc (by decide)
    have hopening : Statement.spacedChar '|' y = some d := by
      rw [spacedChar_of_spaced (by decide) (opening.front hback), named.skipSpace_eq]
    have hdo : keyword "do" (skipSpace b) = some y := by
      rw [hskip]
      exact keyword_eq_some.mpr hword
    unfold Statement.eachHeader
    simp only [Option.bind_eq_bind, path_complete first more hdot, hdo, hopening, Option.bind_some,
      variableName_eq_some.mpr named, spacedChar_of_spaced (by decide) closing,
      List.getLast?_concat, List.dropLast_concat, if_true]
    rfl

/-- **What is spelled to its end is read as a statement.** -/
theorem readBare_of_spells {w : Wording} (h : Spells w s []) :
    Statement.readBare s = .read w.statement [] := by
  cases h with
  | ifTest word h =>
    unfold Statement.readBare
    rw [name_eq_some.mpr word]
    exact withExpr_of_derives _ h
  | unlessTest word h =>
    unfold Statement.readBare
    rw [name_eq_some.mpr word]
    exact withExpr_of_derives _ h
  | elsifTest word h =>
    unfold Statement.readBare
    rw [name_eq_some.mpr word]
    exact withExpr_of_derives _ h
  | elseWord word =>
    unfold Statement.readBare
    rw [name_eq_some.mpr word]
    rfl
  | endWord word =>
    unfold Statement.readBare
    rw [name_eq_some.mpr word]
    rfl
  | forLoop word named separator h =>
    unfold Statement.readBare
    rw [name_eq_some.mpr word]
    simp only [forHeader_of_spells named separator h]
    rfl
  | @eachLoop _ a b c d e _ name head fields first more separator opening named closing =>
    have hheader := eachHeader_of_spells (.eachLoop first more separator opening named closing)
    -- the words that are looked for before a path are reserved
    have hother {word : String} {r : List Char} (hname : Template.name s = some (word, r))
        (hmem : word ∈ reserved) : False := first.not_reserved (name_eq_some.mp hname) hmem
    unfold Statement.readBare
    split
    · next hname => exact (hother hname (by decide)).elim
    · next hname => exact (hother hname (by decide)).elim
    · next hname => exact (hother hname (by decide)).elim
    · next hname => exact (hother hname (by decide)).elim
    · next hname => exact (hother hname (by decide)).elim
    · next hname => exact (hother hname (by decide)).elim
    · rw [hheader]
      rfl

/-! ## The code of a tag -/

/-- A trimmed text does not start with white space. -/
theorem skipSpace_of_trim (hs : trim s = s) : skipSpace s = s := by
  have hsuffix : trimStart s <:+ s := List.dropWhile_suffix isBlank
  have hlength : s.length ≤ (trimStart s).length := by
    have htrim := congrArg List.length hs
    have hdrop := (List.dropWhile_suffix isBlank (l := (trimStart s).reverse)).length_le
    unfold trim trimEnd at htrim
    rw [List.length_reverse] at htrim hdrop
    omega
  have hstart : trimStart s = s := hsuffix.eq_of_length_le hlength
  cases s with
  | nil => rfl
  | cons c t =>
    apply skipSpace_cons
    cases hc : isSpace c with
    | false => rfl
    | true =>
      have hdrop := congrArg List.length hstart
      rw [trimStart, List.dropWhile_cons_of_pos (blank_of_space hc), List.length_cons] at hdrop
      have := (List.dropWhile_suffix isBlank (l := t)).length_le
      omega

/-- **The code of a statement tag is read as it is spelled.** -/
theorem statementCode_eq_ok (line : Nat) (hs : trim s = s) (statement : Statement) :
    Statement.ofCode line s = .ok statement ↔ ∃ w, Spells w s [] ∧ w.statement = statement := by
  constructor
  · intro h
    unfold Statement.ofCode at h
    split at h
    · cases h
    · split at h
      · next found rest hread =>
        split at h
        · next hrest =>
          cases h
          rw [Statement.read, skipSpace_of_trim hs] at hread
          obtain ⟨w, hspells, rfl⟩ := spells_of_readBare hread
          -- what a statement leaves over is no white space, since the code is trimmed
          cases rest with
          | nil => exact ⟨w, hspells, rfl⟩
          | cons c t =>
            exact absurd hrest (trim_ne_nil_of_suffix hs hspells.takes.suffix (List.cons_ne_nil c t))
        · cases h
      · cases h
      · cases h
  · rintro ⟨w, hspells, rfl⟩
    have hcode : trim s ≠ [] := by
      rw [hs]
      exact List.ne_nil_of_length_pos (Nat.zero_lt_of_lt hspells.takes.shorter)
    unfold Statement.ofCode
    rw [if_neg hcode, Statement.read, skipSpace_of_trim hs, readBare_of_spells hspells]
    rfl

end Bindery.Template.Grammar
