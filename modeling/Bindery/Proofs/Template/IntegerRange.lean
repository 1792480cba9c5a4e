import Bindery.Proofs.Template.Nesting
import Bindery.Proofs.Template.QuotedSpans

/-!
# `Proofs.Template.IntegerRange` — integers that are too long are not read

The grammar has no integer beyond the range of 64-bit words, and nothing else in it can take one either: no other
word starts with a digit or a minus sign, no name goes over to a digit that does not stand in it, and what is in
front of a part of the integer is no integer. So while a code is derived, word by word, such a numeral stays in
the text that is left (`Numeral.Ahead`), as long as it is not in a string; and a code is only read if nothing is
left of it.

**Contents.**
* `Numeral` — the digits of an integer with its sign, whatever its value;
* `QuotesClosed`, `Numeral.MayFollow`, `Numeral.Ahead` — a numeral that comes later in a text;
* `ahead_or_reaches`, `Skips` — words do not take it, one lemma for each kind of word;
* `skips_of_derives`, `skips_of_spells` — neither do expressions and statements;
* `not_parsed_of_numeral` — no template has such a numeral in its code.
-/

namespace Bindery.Template.Grammar

/-! ## Numerals -/

/-- Decimal digits, with or without a minus sign in front of them. -/
structure Numeral where
  negative : Bool
  digits : List Char
  some_digits : digits ≠ []
  all_digits : ∀ d ∈ digits, d.isDigit = true

namespace Numeral

/-- How a numeral is written. -/
def text (numeral : Numeral) : List Char :=
  (if numeral.negative then ['-'] else []) ++ numeral.digits

/-- The integer that a numeral stands for. -/
def value (numeral : Numeral) : Int :=
  signedValue numeral.negative numeral.digits

/-- The integer is a 64-bit word. -/
def InRange (numeral : Numeral) : Prop :=
  leastInteger ≤ numeral.value ∧ numeral.value ≤ greatestInteger

instance (numeral : Numeral) : Decidable numeral.InRange :=
  inferInstanceAs (Decidable (_ ∧ _))

/-- A numeral starts with its minus sign, or with a digit if it has none. -/
theorem head (numeral : Numeral) :
    ∃ d t, numeral.text = d :: t ∧
      (d = '-' ∧ numeral.negative = true ∨ d.isDigit = true ∧ numeral.negative = false) := by
  unfold text
  cases hsign : numeral.negative with
  | true => exact ⟨'-', numeral.digits, rfl, .inl ⟨rfl, rfl⟩⟩
  | false =>
    obtain ⟨d, more, hdigits⟩ := List.exists_cons_of_ne_nil numeral.some_digits
    exact ⟨d, more, hdigits, .inr ⟨numeral.all_digits d (by rw [hdigits]; exact List.mem_cons_self), rfl⟩⟩

theorem mem_text {numeral : Numeral} {c : Char} (h : c ∈ numeral.text) : c = '-' ∨ c.isDigit = true := by
  unfold text at h
  rcases List.mem_append.mp h with hsign | hdigit
  · cases hnegative : numeral.negative with
    | true =>
      rw [hnegative] at hsign
      exact .inl (List.mem_singleton.mp hsign)
    | false =>
      rw [hnegative] at hsign
      exact absurd hsign List.not_mem_nil
  · exact .inr (numeral.all_digits c hdigit)

/-- Only the first character can be a sign. -/
theorem digit_of_mem_tail {numeral : Numeral} {c : Char} (h : c ∈ numeral.text.tail) : c.isDigit = true := by
  unfold text at h
  cases hnegative : numeral.negative with
  | true =>
    rw [hnegative] at h
    exact numeral.all_digits c h
  | false =>
    rw [hnegative] at h
    exact numeral.all_digits c (List.mem_of_mem_tail h)

/-- Two numerals with the same text are the same, if nothing continues their digits. -/
theorem text_inj {numeral other : Numeral} {r back : List Char} (hr : wordEnds r = true)
    (hback : wordEnds back = true) (h : other.text ++ r = numeral.text ++ back) : other = numeral := by
  obtain ⟨d, t, htext, hd⟩ := other.head
  obtain ⟨d', t', htext', hd'⟩ := numeral.head
  have hsame : d = d' := by
    rw [htext, htext'] at h
    exact (List.cons.inj h).1
  subst hsame
  -- a digit is no sign, so both numerals have one or neither has
  have hsign : other.negative = numeral.negative := by
    rcases hd with ⟨rfl, hnegative⟩ | ⟨hdigit, hnegative⟩
    · rcases hd' with ⟨-, hnegative'⟩ | ⟨hdigit', -⟩
      · rw [hnegative, hnegative']
      · exact absurd hdigit' (by decide)
    · rcases hd' with ⟨rfl, -⟩ | ⟨-, hnegative'⟩
      · exact absurd hdigit (by decide)
      · rw [hnegative, hnegative']
  have hrest : other.digits ++ r = numeral.digits ++ back := by
    unfold text at h
    rw [hsign, List.append_assoc, List.append_assoc] at h
    exact List.append_cancel_left h
  have hdigits : other.digits = numeral.digits := by
    have htake := (takeWhile_append_stop other.all_digits (Grammar.not_digit_of_wordEnds hr)).1
    rw [hrest, (takeWhile_append_stop numeral.all_digits (Grammar.not_digit_of_wordEnds hback)).1] at htake
    exact htake.symm
  cases other
  cases numeral
  cases hsign
  cases hdigits
  rfl

end Numeral

/-! ## What may stand in front of a numeral -/

/-- Every quote opens a span that is closed. -/
inductive QuotesClosed : List Char → Prop
  | nil : QuotesClosed []
  | plain {c : Char} {rest : List Char} (single : c ≠ '\'') (double : c ≠ '"') (h : QuotesClosed rest) :
    QuotesClosed (c :: rest)
  | span {mark : Char} {inner rest : List Char} (quote : mark = '\'' ∨ mark = '"')
    (between : QuotedText mark inner) (h : QuotesClosed rest) : QuotesClosed (mark :: (inner ++ mark :: rest))

namespace Numeral

/-- The numeral is not the end of a name or of another numeral that starts in the text in front of it. -/
def MayFollow (numeral : Numeral) (front : List Char) : Prop :=
  ∀ c ∈ front.getLast?, isNameChar c = false ∧ (c = '-' → numeral.negative = true)

/-- The numeral comes later in the text, outside of strings, with `back` behind it. -/
def Ahead (numeral : Numeral) (back s : List Char) : Prop :=
  ∃ front, s = front ++ (numeral.text ++ back) ∧ QuotesClosed front ∧ numeral.MayFollow front

end Numeral

variable {numeral : Numeral} {back s r m w : List Char} {word : String} {level : Level} {e : Expr}

/-- Without a quote at its start, the rest of a text has its quotes closed. -/
theorem QuotesClosed.tail {c : Char} (h : QuotesClosed (c :: r)) (hc : c ≠ '\'' ∧ c ≠ '"') : QuotesClosed r := by
  cases h with
  | plain _ _ h => exact h
  | span quote => exact absurd quote (not_or.mpr hc)

theorem quotesClosed_of_append (hw : ∀ c ∈ w, c ≠ '\'' ∧ c ≠ '"') (h : QuotesClosed (w ++ r)) :
    QuotesClosed r := by
  induction w with
  | nil => exact h
  | cons c w ih => exact ih (fun d hd => hw d (List.mem_cons_of_mem _ hd)) (h.tail (hw c List.mem_cons_self))

theorem mayFollow_of_append (h : numeral.MayFollow (w ++ r)) : numeral.MayFollow r := by
  intro c hc
  refine h c ?_
  rw [List.getLast?_append, Option.mem_def.mp hc]
  rfl

/-- A numeral comes behind what is taken from in front of it, unless that reaches into it. -/
theorem ahead_or_reaches (hw : ∀ c ∈ w, c ≠ '\'' ∧ c ≠ '"') (h : numeral.Ahead back (w ++ r)) :
    numeral.Ahead back r ∨
      ∃ front d more, w = front ++ d :: more ∧ numeral.MayFollow front ∧
        numeral.text ++ back = d :: (more ++ r) := by
  obtain ⟨front, hs, hclosed, hfollow⟩ := h
  rcases List.append_eq_append_iff.mp hs with ⟨left, rfl, hr⟩ | ⟨taken, rfl, hr⟩
  · exact .inl ⟨left, hr, quotesClosed_of_append hw hclosed, mayFollow_of_append hfollow⟩
  · cases taken with
    | nil => exact .inl ⟨[], hr.symm, .nil, nofun⟩
    | cons d more => exact .inr ⟨front, d, more, rfl, hfollow, hr⟩

/-- Where something reaches into a numeral, it takes the sign or the first digit. -/
theorem head_of_reaches {d : Char} {more : List Char} (h : numeral.text ++ back = d :: (more ++ r)) :
    d = '-' ∧ numeral.negative = true ∨ d.isDigit = true ∧ numeral.negative = false := by
  obtain ⟨d', t, htext, hd⟩ := numeral.head
  rw [htext] at h
  rwa [← (List.cons.inj h).1]

/-! ## Words -/

/-- What takes `s` to `r` does not take a numeral that comes later. -/
def Skips (numeral : Numeral) (back s r : List Char) : Prop :=
  numeral.Ahead back s → numeral.Ahead back r

/-- A character that opens no string and is in no integer. -/
def Inert (c : Char) : Prop :=
  c ≠ '\'' ∧ c ≠ '"' ∧ c ≠ '-' ∧ c.isDigit = false
deriving Decidable

theorem skips_of_inert (hw : ∀ c ∈ w, Inert c) : Skips numeral back (w ++ r) r := by
  intro h
  rcases ahead_or_reaches (fun c hc => ⟨(hw c hc).1, (hw c hc).2.1⟩) h with h | ⟨front, d, more, rfl, -, hreach⟩
  · exact h
  · obtain ⟨-, -, hdash, hdigit⟩ := hw d (List.mem_append_right _ List.mem_cons_self)
    rcases head_of_reaches hreach with ⟨rfl, -⟩ | ⟨hd, -⟩
    · exact absurd rfl hdash
    · rw [hd] at hdigit
      cases hdigit

/-- The marks of the grammar are inert. -/
theorem skips_of_marks (hw : w.all (decide <| Inert ·) = true) : Skips numeral back (w ++ r) r :=
  skips_of_inert fun c hc => of_decide_eq_true (List.all_eq_true.mp hw c hc)

theorem Spaces.skips (h : Spaces s r) : Skips numeral back s r := by
  obtain ⟨front, hfront, rfl⟩ := h
  refine skips_of_inert fun c hc => ?_
  have hspace := hfront c hc
  simp only [isSpace, Bool.or_eq_true, beq_iff_eq] at hspace
  rcases hspace with ((rfl | rfl) | rfl) | rfl <;> decide

theorem Spaced.skips {piece : List Char → List Char → Prop}
    (hpiece : ∀ {a b}, piece a b → Skips numeral back a b) (h : Spaced piece s r) : Skips numeral back s r := by
  obtain ⟨a, b, hfront, hab, hback⟩ := h
  exact fun hs => hback.skips (hpiece hab (hfront.skips hs))

theorem SymbolAt.skips {symbol : List Char} (hsymbol : symbol.all (decide <| Inert ·) = true)
    (h : SymbolAt symbol s r) : Skips numeral back s r := by
  rw [h]
  exact skips_of_marks hsymbol

/-- No name starts with a digit, and no name character is in front of a numeral. -/
theorem NameAt.skips (h : NameAt word s r) : Skips numeral back s r := by
  have hchar : ∀ c ∈ spell word, isNameChar c = true := fun _ => nameChar_of_mem h.is_name _
  rw [h.text]
  intro hs
  have hw : ∀ c ∈ spell word, c ≠ '\'' ∧ c ≠ '"' := fun c hc =>
    ⟨nameChar_ne (hchar c hc) (by decide), nameChar_ne (hchar c hc) (by decide)⟩
  rcases ahead_or_reaches hw hs with hs | ⟨front, d, more, hword, hfollow, hreach⟩
  · exact hs
  · exfalso
    rw [hword] at hchar
    rcases List.eq_nil_or_concat front with rfl | ⟨left, c, rfl⟩
    · obtain ⟨c, t, hspell, hstart, -⟩ := isName_cases h.is_name
      rw [hword] at hspell
      cases hspell
      rcases head_of_reaches hreach with ⟨rfl, -⟩ | ⟨hd, -⟩
      · exact absurd hstart (by decide)
      · rw [not_digit_of_nameStart hstart] at hd
        cases hd
    · have hlast := (hfollow c (by simp)).1
      rw [hchar c (by simp)] at hlast
      cases hlast

theorem OperatorAt.skips {symbol : List Char} (hsymbol : symbol.all (decide <| Inert ·) = true)
    (h : OperatorAt symbol word s r) : Skips numeral back s r := by
  rcases h with h | h
  · exact SymbolAt.skips hsymbol h
  · exact h.skips

theorem VariableAt.skips (h : VariableAt word s r) : Skips numeral back s r := by
  obtain ⟨marks, m, hmarks, rfl, hname, -⟩ := h
  have hskips : Skips numeral back (marks ++ m) m := skips_of_inert fun c hc => by
    rw [hmarks c hc]
    decide
  exact fun hs => hname.skips (hskips hs)

theorem FieldsAt.skips {names : List String} (h : FieldsAt names s r) : Skips numeral back s r := by
  induction h with
  | nil => exact id
  | @cons field names s m r first more ih =>
    have hdot : Skips numeral back ('.' :: s) s := skips_of_marks (w := ['.']) (by decide)
    exact fun hs => ih (first.skips (hdot hs))

/-- An integer of the grammar is a numeral in range. -/
theorem IntegerAt.exists_numeral {negative : Bool} {digits : List Char} (h : IntegerAt negative digits s r) :
    ∃ other : Numeral, s = other.text ++ r ∧ other.InRange := by
  obtain ⟨hsome, hall, rfl, -, hleast, hgreatest⟩ := h
  exact ⟨⟨negative, digits, hsome, hall⟩, (List.append_assoc ..).symm, hleast, hgreatest⟩

/-- **An integer that is read is another one:** it ends in front of the numeral. -/
theorem IntegerAt.skips {negative : Bool} {digits : List Char} (hout : ¬numeral.InRange)
    (hback : wordEnds back = true) (h : IntegerAt negative digits s r) : Skips numeral back s r := by
  obtain ⟨other, hother, hrange⟩ := h.exists_numeral
  have hquiet : ∀ c ∈ other.text, c ≠ '\'' ∧ c ≠ '"' := by
    intro c hc
    rcases Numeral.mem_text hc with rfl | hdigit
    · decide
    · exact ⟨nameChar_ne (nameChar_of_digit hdigit) (by decide), nameChar_ne (nameChar_of_digit hdigit) (by decide)⟩
  intro hs
  rw [hother] at hs
  rcases ahead_or_reaches hquiet hs with hs | ⟨front, d, more, htext, hfollow, hreach⟩
  · exact hs
  · exfalso
    rcases List.eq_nil_or_concat front with rfl | ⟨left, c, rfl⟩
    · -- it starts where the numeral starts, so that it is the numeral itself
      have hsame : other.text ++ r = numeral.text ++ back := by
        rw [htext, hreach]
        rfl
      rw [Numeral.text_inj h.ends hback hsame] at hrange
      exact hout hrange
    · -- it starts in front of the numeral, where there is no digit, and at most the sign of another one
      obtain ⟨hlast, hdash⟩ := hfollow c (by simp)
      have hmem : c ∈ other.text := by
        rw [htext]
        simp
      have hc : c = '-' := by
        refine (Numeral.mem_text hmem).resolve_right fun hdigit => ?_
        rw [nameChar_of_digit hdigit] at hlast
        cases hlast
      have htail : d ∈ other.text.tail := by
        rw [htext, List.tail_append_of_ne_nil (by simp)]
        exact List.mem_append_right _ List.mem_cons_self
      have hd := Numeral.digit_of_mem_tail htail
      rcases head_of_reaches hreach with ⟨rfl, -⟩ | ⟨-, hpositive⟩
      · exact absurd hd (by decide)
      · rw [hdash hc] at hpositive
        cases hpositive

/-- A span between quotes ends in front of the numeral. -/
theorem skips_of_span {mark : Char} (hmark : mark = '\'' ∨ mark = '"') {written : List Char}
    (h : QuotedText mark written) : Skips numeral back (mark :: (written ++ mark :: r)) r := by
  rintro ⟨front, hs, hclosed, hfollow⟩
  have hb : mark ≠ '\\' := by rcases hmark with rfl | rfl <;> decide
  cases hclosed with
  | nil =>
    obtain ⟨d, t, htext, hd⟩ := numeral.head
    rw [htext] at hs
    obtain rfl : mark = d := (List.cons.inj hs).1
    exfalso
    rcases hd with ⟨rfl, -⟩ | ⟨hd, -⟩
    · exact absurd hmark (by decide)
    · rcases hmark with rfl | rfl <;> exact absurd hd (by decide)
  | plain single double =>
    rw [(List.cons.inj hs).1] at hmark
    exact absurd hmark (not_or.mpr ⟨single, double⟩)
  | @span mark' inner rest _ between hrest =>
    obtain ⟨rfl, hs⟩ := List.cons.inj (hs.trans (List.cons_append ..))
    rw [List.append_assoc, List.cons_append] at hs
    have hspan := spanEnd_quotedText hb h r
    rw [hs, spanEnd_quotedText hb between] at hspan
    obtain ⟨-, rfl⟩ := Prod.mk.inj (Option.some.inj hspan)
    refine ⟨rest, rfl, hrest, mayFollow_of_append (w := mark :: (inner ++ [mark])) ?_⟩
    rwa [List.cons_append, List.append_assoc]

theorem QuotedAt.skips {text : List Char} (h : QuotedAt text s r) : Skips numeral back s r := by
  obtain ⟨written, ⟨rfl, hquotes⟩ | ⟨rfl, hquotes⟩⟩ := h
  · exact skips_of_span (.inr rfl) (quotedText_of_doubleQuotes hquotes)
  · exact skips_of_span (.inl rfl) (quotedText_of_singleQuotes hquotes)

/-! ## Expressions and statements -/

/-- **No expression takes a numeral that is out of range.** -/
theorem skips_of_derives (hout : ¬numeral.InRange) (hback : wordEnds back = true) (h : Derives level s e r) :
    Skips numeral back s r := by
  induction h with
  | conjunction _ ih | negation _ ih | comparison _ ih | primary _ ih => exact ih
  | or _ op _ left right | and _ op _ left right =>
    exact fun hs => right (op.skips (OperatorAt.skips (by decide)) (left hs))
  | eq _ op _ left right | ne _ op _ left right =>
    exact fun hs => right (op.skips (SymbolAt.skips (by decide)) (left hs))
  | not mark _ ih => exact fun hs => ih (mark.skips (OperatorAt.skips (by decide)) hs)
  | spaced front _ back' ih => exact fun hs => back'.skips (ih (front.skips hs))
  | string h => exact h.skips
  | @symbol s _ _ h =>
    have hcolon : Skips numeral back (':' :: s) s := skips_of_marks (w := [':']) (by decide)
    exact fun hs => h.skips (hcolon hs)
  | integer h => exact h.skips hout hback
  | @group s _ _ _ _ close ih =>
    have hparen : Skips numeral back ('(' :: s) s := skips_of_marks (w := ['(']) (by decide)
    exact fun hs => close.skips (SymbolAt.skips (by decide)) (ih (hparen hs))
  | yes h | no h | nil h => exact h.skips
  | imported word _ ih => exact fun hs => ih (word.skips hs)
  | var word fields => exact fun hs => fields.skips (word.skips hs)

/-- **No statement takes a numeral that is out of range.** -/
theorem skips_of_spells (hout : ¬numeral.InRange) (hback : wordEnds back = true) {wording : Wording}
    (h : Spells wording s r) : Skips numeral back s r := by
  cases h with
  | ifTest word h | unlessTest word h | elsifTest word h =>
    exact fun hs => skips_of_derives hout hback h (word.skips hs)
  | elseWord word | endWord word => exact word.skips
  | forLoop word named separator h =>
    exact fun hs => skips_of_derives hout hback h (separator.skips (named.skips VariableAt.skips (word.skips hs)))
  | eachLoop first more separator opening named closing =>
    intro hs
    have hpath := more.skips (first.skips hs)
    have hopened := opening.skips (SymbolAt.skips (by decide)) (separator.skips NameAt.skips hpath)
    exact closing.skips (SymbolAt.skips (by decide)) (named.skips hopened)

/-- No numeral comes later where nothing is left. -/
theorem not_ahead_nil : ¬numeral.Ahead back [] := by
  rintro ⟨front, hs, -, -⟩
  obtain ⟨d, t, htext, -⟩ := numeral.head
  rw [htext] at hs
  simp at hs

/-- A tag whose code holds a numeral that is out of range cannot be read. -/
theorem not_parses_of_ahead (hout : ¬numeral.InRange) (hback : wordEnds back = true) {segment : Segment}
    (htrim : segment.Trimmed) {line : Nat} {code : List Char}
    (hcode : segment = .output line code ∨ segment = .statement line code) (hahead : numeral.Ahead back code) :
    ¬segment.Parses := by
  rcases hcode with rfl | rfl
  · rintro ⟨e, he⟩
    exact not_ahead_nil (skips_of_derives hout hback ((ofCode_eq_ok line htrim).mp he) hahead)
  · rintro ⟨statement, hstatement⟩
    obtain ⟨wording, hspells, -⟩ := (statementCode_eq_ok line htrim statement).mp hstatement
    exact not_ahead_nil (skips_of_spells hout hback hspells hahead)

/-- **No template has a numeral that is out of range in its code.** -/
theorem not_parsed_of_numeral (hout : ¬numeral.InRange) (hback : wordEnds back = true) {source : String}
    {segments : List Segment} (hscan : Segment.scan source.toList = .ok segments) {line : Nat} {code : List Char}
    (hmem : .output line code ∈ segments ∨ .statement line code ∈ segments) (hahead : numeral.Ahead back code) :
    ∃ fault, parse source = .error fault := by
  cases hparse : parse source with
  | error fault => exact ⟨fault, rfl⟩
  | ok nodes =>
    exfalso
    obtain ⟨blocks, hrun, -, -⟩ := (parse_eq_ok_iff hscan).mp hparse
    rcases hmem with hmem | hmem
    · exact not_parses_of_ahead hout hback (trimmed_of_scan hscan _ hmem) (.inl rfl) hahead
        (parses_of_run hrun _ hmem)
    · exact not_parses_of_ahead hout hback (trimmed_of_scan hscan _ hmem) (.inr rfl) hahead
        (parses_of_run hrun _ hmem)

end Bindery.Template.Grammar
