import Bindery.Proofs.Template.PieceReading
import Bindery.Proofs.Template.StatementGrammar

/-!
# `Proofs.Template.QuotedSpans` — where a string ends

Quotes are read twice. The cut of a source skips from a quote to the one that closes it, so as not to take a `%>`
in between for the end of the tag; there a backslash protects any character. Later the string is read from the
code of the tag, where between double quotes a backslash may only stand in front of four characters, and between
single quotes it stands for itself in front of all but two.

Both readings take characters off in the same steps, a backslash with the character after it being one step, so
they end at the same quote. They only differ where the second one gives up: at a backslash that escapes nothing
(`StrayEscape`). Since everything else in an expression is free of quotes and percent signs, the code that can
be read is also code that the cut skips as a whole (`Derives.skipsTo`).

**Contents.**
* `quotedSpan` — a span with its quotes, and what the cut does with it (`tagBody_quotedSpan`);
* `StrayEscape`, `doubleQuotes_or_stray`, `singleQuotes_of_quotedText` — what is between quotes, read as a string;
* `quotedSpan_of_quoted`, `quoted_of_quotedSpan` — from one reading to the other;
* `SkipsTo`, `Derives.skipsTo`, `Spells.skipsTo` — expressions and statements, one lemma for each kind of word;
* `strings_end_with_spans` — **strings end where the spans of the cut end**, and no tag ends inside of one.
-/

namespace Bindery.Template

open Bindery.Text

variable {s m r rest front inner span : List Char}

/-! ## Spans -/

/-- The quoted span at the start of a text, with its quotes, and the rest. -/
def quotedSpan : Reader (List Char)
  | '\'' :: rest => prepend ['\''] (spanEnd '\'' rest)
  | '"' :: rest => prepend ['"'] (spanEnd '"' rest)
  | _ => none

theorem quotedSpan_mark {mark : Char} (hm : mark = '\'' ∨ mark = '"') (rest : List Char) :
    quotedSpan (mark :: rest) = prepend [mark] (spanEnd mark rest) := by
  rcases hm with rfl | rfl <;> rfl

/-- At a quote outside of quotes the cut skips the span that starts there; if that span does not end, neither does
the tag. -/
theorem tagBody_quotedSpan (hfront : TagText front) {mark : Char} (hm : mark = '\'' ∨ mark = '"')
    (rest : List Char) :
    tagBody (front ++ mark :: rest)
      = (quotedSpan (mark :: rest)).bind fun (span, after) => prepend (front ++ span) (tagBody after) := by
  have hquote : (mark :: rest).head? ≠ some '>' := by
    rcases hm with rfl | rfl <;> simp
  rw [tagBody_text_append hfront hquote, tagBody_mark hm, quotedSpan_mark hm]
  cases spanEnd mark rest with
  | none => rfl
  | some taken =>
    obtain ⟨span, after⟩ := taken
    exact prepend_prepend front (mark :: span) (tagBody after)

/-- A span is a quote, quoted text and the same quote again. -/
theorem quotedSpan_eq_some : quotedSpan s = some (span, rest) ↔
    ∃ mark inner, (mark = '\'' ∨ mark = '"') ∧ QuotedText mark inner ∧ span = mark :: (inner ++ [mark])
      ∧ s = span ++ rest := by
  constructor
  · intro h
    have hmark : ∃ mark tail, (mark = '\'' ∨ mark = '"') ∧ s = mark :: tail := by
      unfold quotedSpan at h
      split at h
      · exact ⟨_, _, .inl rfl, rfl⟩
      · exact ⟨_, _, .inr rfl, rfl⟩
      · cases h
    obtain ⟨mark, tail, hm, rfl⟩ := hmark
    rw [quotedSpan_mark hm] at h
    obtain ⟨taken, htaken, rfl⟩ := prepend_eq_some.mp h
    obtain ⟨inner, hinner, rfl⟩ := quotedText_of_spanEnd htaken
    refine ⟨mark, inner, hm, hinner, rfl, ?_⟩
    rw [← spanEnd_append htaken]
    rfl
  · rintro ⟨mark, inner, hm, hinner, rfl, rfl⟩
    have hb : mark ≠ '\\' := by rcases hm with rfl | rfl <;> decide
    have hsplit : mark :: (inner ++ [mark]) ++ rest = mark :: (inner ++ mark :: rest) := by simp
    rw [hsplit, quotedSpan_mark hm, spanEnd_quotedText hb hinner]
    rfl

/-- No text starts with two spans. -/
theorem quotedSpan_unique {mark : Char} (hm : mark = '\'' ∨ mark = '"') (hi : QuotedText mark inner)
    (h : quotedSpan (mark :: (inner ++ mark :: r)) = some (span, rest)) :
    span = mark :: (inner ++ [mark]) ∧ rest = r := by
  have hspan : quotedSpan (mark :: (inner ++ mark :: r)) = some (mark :: (inner ++ [mark]), r) :=
    quotedSpan_eq_some.mpr ⟨mark, inner, hm, hi, rfl, by simp⟩
  rw [hspan] at h
  cases h
  exact ⟨rfl, rfl⟩

/-! ## Strings -/

/-- There is a backslash, not itself protected, in front of a character that it does not escape between double
quotes. -/
def StrayEscape (inner : List Char) : Prop :=
  ∃ front c back, inner = front ++ '\\' :: c :: back ∧ QuotedText '"' front ∧ c ∉ ['n', 't', '"', '\\']

theorem unescape_eq_none_iff {c : Char} : unescape c = none ↔ c ∉ ['n', 't', '"', '\\'] := by
  unfold unescape
  split
  · decide
  · decide
  · decide
  · decide
  · next hn ht hq hb =>
    simp only [List.mem_cons, List.not_mem_nil, or_false, not_or, true_iff]
    exact ⟨hn, ht, hq, hb⟩

theorem StrayEscape.plain {c : Char} (hb : c ≠ '\\') (hq : c ≠ '"') (h : StrayEscape inner) :
    StrayEscape (c :: inner) := by
  obtain ⟨front, d, back, rfl, hfront, hd⟩ := h
  exact ⟨c :: front, d, back, rfl, .plain hb hq hfront, hd⟩

theorem StrayEscape.escaped {c : Char} (h : StrayEscape inner) : StrayEscape ('\\' :: c :: inner) := by
  obtain ⟨front, d, back, rfl, hfront, hd⟩ := h
  exact ⟨'\\' :: c :: front, d, back, rfl, .escaped hfront, hd⟩

namespace Grammar

theorem quotedText_of_doubleQuotes {written text : List Char} (h : DoubleQuotes written text) :
    QuotedText '"' written := by
  induction h with
  | nil => exact .nil
  | escape _ _ ih => exact .escaped ih
  | plain hq hb _ ih => exact .plain hb hq ih

theorem quotedText_of_singleQuotes {written text : List Char} (h : SingleQuotes written text) :
    QuotedText '\'' written := by
  induction h with
  | nil => exact .nil
  | escape _ _ ih => exact .escaped ih
  | backslash _ _ _ ih => exact .escaped ih
  | plain hq hb _ ih => exact .plain hb hq ih

/-- What is between single quotes is always a string. -/
theorem singleQuotes_of_quotedText (h : QuotedText '\'' inner) : ∃ text, SingleQuotes inner text := by
  induction h with
  | nil => exact ⟨[], .nil⟩
  | plain hb hq _ ih =>
    obtain ⟨text, htext⟩ := ih
    exact ⟨_, .plain hq hb htext⟩
  | @escaped c _ _ ih =>
    obtain ⟨text, htext⟩ := ih
    by_cases hc : c = '\'' ∨ c = '\\'
    · exact ⟨_, .escape hc htext⟩
    · -- the pair stands for its two characters
      obtain ⟨hq, hb⟩ := not_or.mp hc
      exact ⟨_, .backslash hq hb htext⟩

/-- What is between double quotes is a string, or has a backslash in it that escapes nothing. -/
theorem doubleQuotes_or_stray (h : QuotedText '"' inner) :
    (∃ text, DoubleQuotes inner text) ∨ StrayEscape inner := by
  induction h with
  | nil => exact .inl ⟨[], .nil⟩
  | plain hb hq _ ih =>
    rcases ih with ⟨text, htext⟩ | hstray
    · exact .inl ⟨_, .plain hq hb htext⟩
    · exact .inr (hstray.plain hb hq)
  | @escaped c back _ ih =>
    -- the first backslash that escapes nothing is the one to show: all before it is in order
    cases hc : unescape c with
    | none => exact .inr ⟨[], c, back, rfl, .nil, unescape_eq_none_iff.mp hc⟩
    | some d =>
      rcases ih with ⟨text, htext⟩ | hstray
      · exact .inl ⟨_, .escape hc htext⟩
      · exact .inr hstray.escaped

theorem DoubleQuotes.tail {c : Char} {text : List Char} (hb : c ≠ '\\') (h : DoubleQuotes (c :: inner) text) :
    ∃ text, DoubleQuotes inner text := by
  cases h with
  | escape => exact absurd rfl hb
  | plain _ _ h => exact ⟨_, h⟩

theorem DoubleQuotes.escaped {c : Char} {text : List Char} (h : DoubleQuotes ('\\' :: c :: inner) text) :
    unescape c ≠ none ∧ ∃ text, DoubleQuotes inner text := by
  cases h with
  | escape he h => exact ⟨by rw [he]; simp, _, h⟩
  | plain _ hb => exact absurd rfl hb

/-- It is not both. -/
theorem not_stray_of_doubleQuotes {text : List Char} (h : DoubleQuotes inner text) : ¬StrayEscape inner := by
  rintro ⟨front, c, back, rfl, hfront, hc⟩
  induction hfront generalizing text with
  | nil => exact h.escaped.1 (unescape_eq_none_iff.mpr hc)
  | plain hb _ _ ih =>
    obtain ⟨_, h⟩ := h.tail hb
    exact ih h
  | escaped _ ih =>
    obtain ⟨-, _, h⟩ := h.escaped
    exact ih h

end Grammar

/-- **A string that is read is a span of the cut.** -/
theorem quotedSpan_of_quoted {text : String} (h : quoted s = some (text, rest)) :
    ∃ span, quotedSpan s = some (span, rest) := by
  obtain ⟨chars, ⟨written, ⟨rfl, hquotes⟩ | ⟨rfl, hquotes⟩⟩, -⟩ := Grammar.quoted_eq_some.mp h
  · exact ⟨_, quotedSpan_eq_some.mpr
      ⟨'"', written, .inr rfl, Grammar.quotedText_of_doubleQuotes hquotes, rfl, by simp⟩⟩
  · exact ⟨_, quotedSpan_eq_some.mpr
      ⟨'\'', written, .inl rfl, Grammar.quotedText_of_singleQuotes hquotes, rfl, by simp⟩⟩

/-- **A span of the cut is read as a string**, or it is between double quotes and has a stray escape. -/
theorem quoted_of_quotedSpan (h : quotedSpan s = some (span, rest)) :
    (∃ text, quoted s = some (text, rest)) ∨
      ∃ inner, span = '"' :: (inner ++ ['"']) ∧ StrayEscape inner := by
  obtain ⟨mark, inner, rfl | rfl, hinner, rfl, rfl⟩ := quotedSpan_eq_some.mp h
  · obtain ⟨text, hquotes⟩ := Grammar.singleQuotes_of_quotedText hinner
    exact .inl ⟨_, Grammar.quoted_eq_some.mpr ⟨text, ⟨inner, .inr ⟨by simp, hquotes⟩⟩, rfl⟩⟩
  · rcases Grammar.doubleQuotes_or_stray hinner with ⟨text, hquotes⟩ | hstray
    · exact .inl ⟨_, Grammar.quoted_eq_some.mpr ⟨text, ⟨inner, .inl ⟨by simp, hquotes⟩⟩, rfl⟩⟩
    · exact .inr ⟨inner, rfl, hstray⟩

/-- A span with a stray escape is not read as a string. -/
theorem quoted_of_stray (h : quotedSpan s = some ('"' :: (inner ++ ['"']), rest)) (hstray : StrayEscape inner) :
    quoted s = none := by
  cases hread : quoted s with
  | none => rfl
  | some taken =>
    exfalso
    obtain ⟨chars, ⟨written, ⟨rfl, hquotes⟩ | ⟨rfl, hquotes⟩⟩, -⟩ := Grammar.quoted_eq_some.mp hread
    · obtain ⟨hsame, -⟩ := quotedSpan_unique (.inr rfl) (Grammar.quotedText_of_doubleQuotes hquotes) h
      obtain rfl : inner = written := List.append_cancel_right (List.cons.inj hsame).2
      exact Grammar.not_stray_of_doubleQuotes hquotes hstray
    · obtain ⟨hsame, -⟩ := quotedSpan_unique (.inl rfl) (Grammar.quotedText_of_singleQuotes hquotes) h
      exact absurd (List.cons.inj hsame).1 (by decide)

/-! ## Code -/

/-- From `s` to `r` there is text over which a tag goes on, whatever comes after that text. -/
def SkipsTo (s r : List Char) : Prop :=
  ∃ w, s = w ++ r ∧ ∀ after, tagBody (w ++ after) = prepend w (tagBody after)

namespace SkipsTo

theorem refl (s : List Char) : SkipsTo s s :=
  ⟨[], rfl, fun _ => (prepend_nil _).symm⟩

theorem trans (h : SkipsTo s m) (h' : SkipsTo m r) : SkipsTo s r := by
  obtain ⟨w, rfl, hw⟩ := h
  obtain ⟨w', rfl, hw'⟩ := h'
  refine ⟨w ++ w', (List.append_assoc ..).symm, ?_⟩
  intro after
  rw [List.append_assoc, hw, hw', prepend_prepend]

theorem of_quiet {w : List Char} (h : ∀ c ∈ w, Quiet c) (r : List Char) : SkipsTo (w ++ r) r := by
  refine ⟨w, rfl, ?_⟩
  intro after
  induction w with
  | nil => exact (prepend_nil _).symm
  | cons c w ih =>
    obtain ⟨⟨hsingle, hdouble, hpercent⟩, hw⟩ := List.forall_mem_cons.mp h
    rw [List.cons_append, tagBody, if_neg (fun hclose => hpercent hclose.1),
      if_neg (not_or.mpr ⟨hsingle, hdouble⟩), ih hw, prepend_prepend]
    rfl

theorem of_marks {w : List Char} (h : w.all (decide <| Quiet ·) = true) (r : List Char) : SkipsTo (w ++ r) r :=
  of_quiet (fun c hc => of_decide_eq_true (List.all_eq_true.mp h c hc)) r

theorem of_span {mark : Char} (hm : mark = '\'' ∨ mark = '"') (h : QuotedText mark inner) (r : List Char) :
    SkipsTo (mark :: (inner ++ mark :: r)) r := by
  have hb : mark ≠ '\\' := by rcases hm with rfl | rfl <;> decide
  refine ⟨mark :: (inner ++ [mark]), by simp, ?_⟩
  intro after
  have hsplit : mark :: (inner ++ [mark]) ++ after = mark :: (inner ++ mark :: after) := by simp
  rw [hsplit, tagBody_mark hm, spanEnd_quotedText hb h, Option.bind_some]

end SkipsTo

theorem quiet_of_blank {c : Char} (h : isBlank c = true) : Quiet c := by
  refine ⟨?_, ?_, ?_⟩ <;> rintro rfl <;> exact absurd h (by decide)

namespace Grammar

variable {word : String} {e : Expr} {level : Level}

theorem Spaces.skipsTo (h : Spaces s r) : SkipsTo s r := by
  obtain ⟨front, hfront, rfl⟩ := h
  exact .of_quiet (fun c hc => quiet_of_blank (blank_of_space (hfront c hc))) r

theorem Spaced.skipsTo {piece : List Char → List Char → Prop} (hpiece : ∀ {a b}, piece a b → SkipsTo a b)
    (h : Spaced piece s r) : SkipsTo s r := by
  obtain ⟨a, b, hfront, h, hback⟩ := h
  exact (hfront.skipsTo.trans (hpiece h)).trans hback.skipsTo

theorem SymbolAt.skipsTo {symbol : List Char} (hsymbol : symbol.all (decide <| Quiet ·) = true)
    (h : SymbolAt symbol s r) : SkipsTo s r := by
  obtain rfl : s = symbol ++ r := h
  exact .of_marks hsymbol r

theorem NameAt.skipsTo (h : NameAt word s r) : SkipsTo s r := by
  rw [h.text]
  exact .of_quiet (fun c hc => quiet_of_nameChar (nameChar_of_mem h.is_name c hc)) r

theorem OperatorAt.skipsTo {symbol : List Char} (hsymbol : symbol.all (decide <| Quiet ·) = true)
    (h : OperatorAt symbol word s r) : SkipsTo s r := by
  rcases h with h | h
  · exact SymbolAt.skipsTo hsymbol h
  · exact h.skipsTo

theorem IntegerAt.skipsTo {negative : Bool} {digits : List Char} (h : IntegerAt negative digits s r) :
    SkipsTo s r := by
  have hsign : SkipsTo s (digits ++ r) := by
    rw [h.text]
    exact .of_marks (by cases negative <;> decide) _
  exact hsign.trans (.of_quiet (fun d hd => quiet_of_nameChar (nameChar_of_digit (h.all_digits d hd))) r)

theorem VariableAt.skipsTo (h : VariableAt word s r) : SkipsTo s r := by
  obtain ⟨marks, m, hmarks, rfl, hname, -⟩ := h
  have hquiet : ∀ c ∈ marks, Quiet c := by
    intro c hc
    rw [hmarks c hc]
    decide
  exact (SkipsTo.of_quiet hquiet m).trans hname.skipsTo

theorem FieldsAt.skipsTo {names : List String} (h : FieldsAt names s r) : SkipsTo s r := by
  induction h with
  | nil => exact .refl _
  | cons first _ ih => exact (SkipsTo.of_marks (w := ['.']) (by decide) _).trans (first.skipsTo.trans ih)

theorem QuotedAt.skipsTo {text : List Char} (h : QuotedAt text s r) : SkipsTo s r := by
  obtain ⟨written, ⟨rfl, hquotes⟩ | ⟨rfl, hquotes⟩⟩ := h
  · exact .of_span (.inr rfl) (quotedText_of_doubleQuotes hquotes) r
  · exact .of_span (.inl rfl) (quotedText_of_singleQuotes hquotes) r

/-- **No tag ends inside of an expression:** its strings are spans, and there is no `%` outside of them. -/
theorem Derives.skipsTo (h : Derives level s e r) : SkipsTo s r := by
  induction h with
  | conjunction _ ih | negation _ ih | comparison _ ih | primary _ ih => exact ih
  | or _ op _ left right | and _ op _ left right =>
    exact (left.trans (op.skipsTo (OperatorAt.skipsTo (by decide)))).trans right
  | eq _ op _ left right | ne _ op _ left right =>
    exact (left.trans (op.skipsTo (SymbolAt.skipsTo (by decide)))).trans right
  | not mark _ ih => exact (mark.skipsTo (OperatorAt.skipsTo (by decide))).trans ih
  | spaced front _ back ih => exact (front.skipsTo.trans ih).trans back.skipsTo
  | string h => exact h.skipsTo
  | symbol h => exact (SkipsTo.of_marks (w := [':']) (by decide) _).trans h.skipsTo
  | integer h => exact h.skipsTo
  | group _ close ih =>
    have hinner := ih.trans (close.skipsTo (SymbolAt.skipsTo (by decide)))
    exact (SkipsTo.of_marks (w := ['(']) (by decide) _).trans hinner
  | yes h | no h | nil h => exact h.skipsTo
  | imported word _ ih => exact word.skipsTo.trans ih
  | var word fields => exact word.skipsTo.trans fields.skipsTo

/-- **No tag ends inside of a statement.** -/
theorem Spells.skipsTo {wording : Wording} (h : Spells wording s r) : SkipsTo s r := by
  cases h with
  | ifTest word h | unlessTest word h | elsifTest word h => exact word.skipsTo.trans h.skipsTo
  | elseWord word | endWord word => exact word.skipsTo
  | forLoop word named separator h =>
    have hnamed := word.skipsTo.trans (named.skipsTo VariableAt.skipsTo)
    exact (hnamed.trans separator.skipsTo).trans h.skipsTo
  | eachLoop first more separator opening named closing =>
    have hpath := first.skipsTo.trans more.skipsTo
    have hopened := (separator.skipsTo NameAt.skipsTo).trans (opening.skipsTo (SymbolAt.skipsTo (by decide)))
    have hclosed := named.skipsTo.trans (closing.skipsTo (SymbolAt.skipsTo (by decide)))
    exact (hpath.trans hopened).trans hclosed

end Grammar

/-- A tag goes on over code of which nothing but white space is left when it is read. -/
theorem tagBody_code (h : SkipsTo s r) (hr : trim r = []) (after : List Char) :
    tagBody (s ++ after) = prepend s (tagBody after) := by
  have hblank : SkipsTo (r ++ []) [] := .of_quiet (fun c hc => quiet_of_blank (trim_eq_nil_iff.mp hr c hc)) []
  rw [List.append_nil] at hblank
  obtain ⟨w, rfl, hw⟩ := h.trans hblank
  rw [List.append_nil]
  exact hw after

/-- No tag ends inside of code that is read as an expression. -/
theorem tagBody_exprCode {line : Nat} {e : Expr} (h : Expr.ofCode line s = .ok e) (after : List Char) :
    tagBody (s ++ after) = prepend s (tagBody after) := by
  unfold Expr.ofCode at h
  split at h
  · cases h
  · split at h
    · next e rest hread =>
      split at h
      · next hrest => exact tagBody_code (Grammar.derives_of_read hread).skipsTo hrest after
      · cases h
    · cases h

/-- No tag ends inside of code that is read as a statement. -/
theorem tagBody_statementCode {line : Nat} {statement : Statement} (h : Statement.ofCode line s = .ok statement)
    (after : List Char) : tagBody (s ++ after) = prepend s (tagBody after) := by
  unfold Statement.ofCode at h
  split at h
  · cases h
  · split at h
    · next statement rest hread =>
      split at h
      · next hrest =>
        obtain ⟨wording, hspells, -⟩ := Grammar.spells_of_readBare hread
        exact tagBody_code ((Grammar.spaces_skipSpace s).skipsTo.trans hspells.skipsTo) hrest after
      · cases h
    · cases h
    · cases h

/-! ## Both readings -/

/-- The cut goes on behind a string that can be read, wherever in a tag it is. -/
theorem tagBody_quoted {text : String} (h : quoted s = some (text, rest)) :
    ∃ span, quotedSpan s = some (span, rest) ∧ s = span ++ rest
      ∧ ∀ front, TagText front → tagBody (front ++ s) = prepend (front ++ span) (tagBody rest) := by
  obtain ⟨span, hspan⟩ := quotedSpan_of_quoted h
  obtain ⟨mark, inner, hm, -, rfl, rfl⟩ := quotedSpan_eq_some.mp hspan
  refine ⟨_, hspan, rfl, ?_⟩
  intro front hfront
  rw [List.cons_append, tagBody_quotedSpan hfront hm, ← List.cons_append, hspan, Option.bind_some]

/-- **Strings end where the spans of the cut end, and no tag ends inside of one.** At every text, there is
neither a span nor a string, or there are both and the same is left of the text, or there is a span that is not
read as a string; that is so exactly if it is between double quotes and a backslash in it escapes nothing. The cut
skips just these spans. So it goes on behind every string that can be read, wherever in a tag it is, and behind
the whole code of a tag if that can be read. -/
theorem strings_end_with_spans (s : List Char) :
    (quotedSpan s = none ∧ quoted s = none
      ∨ (∃ span text rest, quotedSpan s = some (span, rest) ∧ quoted s = some (text, rest))
      ∨ ∃ inner rest, quotedSpan s = some ('"' :: (inner ++ ['"']), rest) ∧ quoted s = none
        ∧ StrayEscape inner)
    ∧ (∀ inner rest, quotedSpan s = some ('"' :: (inner ++ ['"']), rest) → StrayEscape inner →
      quoted s = none)
    ∧ (s.head? = some '\'' ∨ s.head? = some '"' → ∀ front, TagText front →
      tagBody (front ++ s) = (quotedSpan s).bind fun (span, rest) => prepend (front ++ span) (tagBody rest))
    ∧ (∀ text rest, quoted s = some (text, rest) → ∃ span, quotedSpan s = some (span, rest) ∧ s = span ++ rest
      ∧ ∀ front, TagText front → tagBody (front ++ s) = prepend (front ++ span) (tagBody rest))
    ∧ (∀ line e, Expr.ofCode line s = .ok e → ∀ after, tagBody (s ++ after) = prepend s (tagBody after))
    ∧ ∀ line statement, Statement.ofCode line s = .ok statement →
      ∀ after, tagBody (s ++ after) = prepend s (tagBody after) := by
  refine ⟨?_, fun inner rest => quoted_of_stray, ?_, fun text rest => tagBody_quoted,
    fun line e => tagBody_exprCode, fun line statement => tagBody_statementCode⟩
  · cases hspan : quotedSpan s with
    | none =>
      refine .inl ⟨rfl, ?_⟩
      cases hread : quoted s with
      | none => rfl
      | some taken =>
        obtain ⟨span, hsome⟩ := quotedSpan_of_quoted hread
        rw [hspan] at hsome
        cases hsome
    | some taken =>
      obtain ⟨span, rest⟩ := taken
      rcases quoted_of_quotedSpan hspan with ⟨text, hread⟩ | ⟨inner, rfl, hstray⟩
      · exact .inr (.inl ⟨span, text, rest, rfl, hread⟩)
      · exact .inr (.inr ⟨inner, rest, rfl, quoted_of_stray hspan hstray, hstray⟩)
  · intro hhead front hfront
    rcases hhead with hhead | hhead
    · obtain ⟨tail, rfl⟩ := List.head?_eq_some_iff.mp hhead
      exact tagBody_quotedSpan hfront (.inl rfl) tail
    · obtain ⟨tail, rfl⟩ := List.head?_eq_some_iff.mp hhead
      exact tagBody_quotedSpan hfront (.inr rfl) tail

/-- A string in single quotes with all kinds of backslashes and a `%>` in it, and the end of the tag. -/
def closerCode : List Char :=
  "'\\'\\\\%>\\n' %>".toList

/-- A span in double quotes with a backslash in front of a percent sign. -/
def strayCode : List Char :=
  "\"\\%>\" %>".toList

/-- The tag reaches over the string to the second `%>`, and the other span cannot be read as a string. -/
theorem strings_end_with_spans_closer :
    tagBody ('=' :: closerCode) = some ("='\\'\\\\%>\\n' ".toList, []) ∧ quoted strayCode = none := by
  have hread : quoted closerCode = some ("'\\%>\\n", [' ', '%', '>']) := by decide +kernel
  have hstray : quotedSpan strayCode = some ('"' :: (['\\', '%', '>'] ++ ['"']), [' ', '%', '>']) := by
    decide +kernel
  obtain ⟨-, -, -, hstring, -⟩ := strings_end_with_spans closerCode
  obtain ⟨-, hnone, -⟩ := strings_end_with_spans strayCode
  refine ⟨?_, hnone _ _ hstray ⟨[], '%', ['>'], rfl, .nil, by decide⟩⟩
  obtain ⟨span, -, hsource, htag⟩ := hstring _ _ hread
  have hspace : TagText [' '] := .of_quiet (by decide)
  have hend : tagBody [' ', '%', '>'] = some ([' '], []) := tagBody_tagText hspace []
  obtain rfl : span = "'\\'\\\\%>\\n'".toList :=
    List.append_cancel_right (hsource.symm.trans (by decide +kernel))
  rw [← List.singleton_append, htag ['='] (.of_quiet (by decide)), hend]
  decide +kernel

end Bindery.Template
