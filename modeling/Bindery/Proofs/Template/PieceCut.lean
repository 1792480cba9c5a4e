import Bindery.Proofs.Template.StatementReading
import Bindery.Template.Piece

/-!
# `Proofs.Template.PieceCut` — a source is cut where its pieces meet

A list of pieces can be told from the source it makes when each piece is what it claims to be (a text
without `<%`, a comment without `%>`, a tag in which every quote is closed and no `%>` is outside quotes)
and no two texts are side by side. Cutting such a source gives the pieces back (`split_sources`).

**Contents.**
* `QuotedText` and `TagText` — what may stand between quotes and inside a tag;
* `tagBody_text_append` — a tag goes on over such text;
* `Piece.Proper` and `Cut` — the lists of pieces that a source can be cut into;
* `split_sources` — the cut of their source;
* `print_tagText`, `statement_tagText` — printed code can stand inside a tag.
-/

namespace Bindery.Template

/-! ## Inside quotes and inside tags -/

/-- The text between two quotes: a backslash protects the character after it, and no other quote of
the same kind occurs. -/
inductive QuotedText (mark : Char) : List Char → Prop where
  | nil : QuotedText mark []
  | plain {c : Char} {rest : List Char} : c ≠ '\\' → c ≠ mark → QuotedText mark rest →
      QuotedText mark (c :: rest)
  | escaped {c : Char} {rest : List Char} : QuotedText mark rest → QuotedText mark ('\\' :: c :: rest)

/-- The text of a tag: every quote opens a span that is closed, and no `%>` is outside the spans. -/
inductive TagText : List Char → Prop where
  | nil : TagText []
  | plain {c : Char} {rest : List Char} : c ≠ '\'' → c ≠ '"' → ¬(c = '%' ∧ rest.head? = some '>') →
      TagText rest → TagText (c :: rest)
  | span {mark : Char} {inner rest : List Char} : mark = '\'' ∨ mark = '"' → QuotedText mark inner →
      TagText rest → TagText (mark :: (inner ++ mark :: rest))

/-- A quoted span ends at the quote that closes it. -/
theorem spanEnd_quotedText {mark : Char} (hm : mark ≠ '\\') {inner : List Char}
    (h : QuotedText mark inner) (rest : List Char) :
    spanEnd mark (inner ++ mark :: rest) = some (inner ++ [mark], rest) := by
  induction h with
  | nil => rw [List.nil_append, spanEnd.eq_def, List.nil_append]; simp only [if_neg hm, if_true]
  | plain hb hq _ ih =>
    rw [List.cons_append, spanEnd.eq_def]
    simp only [if_neg hb, if_neg hq, ih]
    rfl
  | escaped _ ih =>
    rw [List.cons_append, List.cons_append, spanEnd, if_pos rfl]
    simp only [ih]
    rfl

theorem prepend_nil (taken : Option (List Char × List Char)) : prepend [] taken = taken := by
  cases taken with
  | none => rfl
  | some pair => rfl

theorem prepend_prepend (front mid : List Char) (taken : Option (List Char × List Char)) :
    prepend front (prepend mid taken) = prepend (front ++ mid) taken := by
  cases taken with
  | none => rfl
  | some pair => simp [prepend]

/-- Over a quoted span a tag goes on, or it does not end if the span does not. -/
theorem tagBody_mark {mark : Char} (hm : mark = '\'' ∨ mark = '"') (rest : List Char) :
    tagBody (mark :: rest)
      = (spanEnd mark rest).bind fun (span, after) => prepend (mark :: span) (tagBody after) := by
  have hp : ¬(mark = '%' ∧ rest.head? = some '>') := by
    rintro ⟨rfl, -⟩
    exact absurd hm (by decide)
  rw [tagBody, if_neg hp, if_pos hm]
  split
  · next hnone => rw [hnone]; rfl
  · next hsome => rw [hsome]; rfl

/-- Over the text of a tag, a tag goes on; what comes next cannot complete a `%>` with it. -/
theorem tagBody_text_append {front : List Char} (h : TagText front) {s : List Char}
    (hs : s.head? ≠ some '>') : tagBody (front ++ s) = prepend front (tagBody s) := by
  induction h with
  | nil => rw [List.nil_append, prepend_nil]
  | @plain c tail hsingle hdouble hclose _ ih =>
    have hopen : ¬(c = '%' ∧ (tail ++ s).head? = some '>') := by
      rintro ⟨rfl, hhead⟩
      cases tail with
      | nil => exact hs hhead
      | cons d tail => exact hclose ⟨rfl, hhead⟩
    rw [List.cons_append, tagBody, if_neg hopen, if_neg (by simp [hsingle, hdouble]), ih, prepend_prepend]
    rfl
  | @span mark inner tail hm hi _ ih =>
    have hb : mark ≠ '\\' := by rcases hm with rfl | rfl <;> decide
    have hsplit : mark :: (inner ++ mark :: tail) ++ s = mark :: (inner ++ mark :: (tail ++ s)) := by simp
    rw [hsplit, tagBody_mark hm, spanEnd_quotedText hb hi, Option.bind_some]
    dsimp only
    rw [ih, prepend_prepend]
    simp

/-- A tag ends at the `%>` after its text. -/
theorem tagBody_tagText {chars : List Char} (h : TagText chars) (rest : List Char) :
    tagBody (chars ++ '%' :: '>' :: rest) = some (chars, rest) := by
  have hend : tagBody ('%' :: '>' :: rest) = some ([], rest) := by
    rw [tagBody, if_pos ⟨rfl, rfl⟩, List.tail_cons]
  rw [tagBody_text_append h (by simp), hend]
  simp [prepend]

/-- A comment ends at its first `%>`. -/
theorem commentBody_append_close {chars : List Char} (h : ¬['%', '>'] <:+: chars) (rest : List Char) :
    commentBody (chars ++ '%' :: '>' :: rest) = some (chars, rest) := by
  induction chars with
  | nil => rw [List.nil_append, commentBody, if_pos ⟨rfl, rfl⟩, List.tail_cons]
  | cons c tail ih =>
    have htail : ¬['%', '>'] <:+: tail := fun hi => h (hi.trans (List.suffix_cons c tail).isInfix)
    have hopen : ¬(c = '%' ∧ (tail ++ '%' :: '>' :: rest).head? = some '>') := by
      rintro ⟨rfl, hhead⟩
      cases tail with
      | nil => exact absurd hhead (by simp)
      | cons d tail =>
        obtain rfl : d = '>' := by simpa using hhead
        exact h ⟨[], tail, rfl⟩
    rw [List.cons_append, commentBody, if_neg hopen, ih htail]
    rfl

/-- What a text stops at: the end of the source or a tag. -/
def OpensTag (rest : List Char) : Prop :=
  rest = [] ∨ ∃ t, rest = '<' :: '%' :: t

/-- No `<%` starts inside a text, nor where it meets what it stops at. -/
theorem no_opener {c : Char} {tail rest : List Char} (h : ¬['<', '%'] <:+: c :: tail)
    (hr : OpensTag rest) : ¬(c = '<' ∧ (tail ++ rest).head? = some '%') := by
  rintro ⟨rfl, hhead⟩
  cases tail with
  | nil => rcases hr with rfl | ⟨t, rfl⟩ <;> exact absurd hhead (by simp)
  | cons d tail =>
    obtain rfl : d = '%' := by simpa using hhead
    exact h ⟨[], tail, rfl⟩

/-- A text reaches to the next tag. -/
theorem textRun_append_stop {chars rest : List Char} (h : ¬['<', '%'] <:+: chars)
    (hr : OpensTag rest) : textRun (chars ++ rest) = (chars, rest) := by
  induction chars with
  | nil =>
    rcases hr with rfl | ⟨t, rfl⟩
    · rfl
    · rw [List.nil_append, textRun, if_pos ⟨rfl, rfl⟩]
  | cons c tail ih =>
    have htail : ¬['<', '%'] <:+: tail := fun hi => h (hi.trans (List.suffix_cons c tail).isInfix)
    rw [List.cons_append, textRun, if_neg (no_opener h hr), ih htail]

/-! ## Lists of pieces -/

/-- A piece is what it claims to be. -/
def Piece.Proper : Piece → Prop
  | .text chars => chars ≠ [] ∧ ¬['<', '%'] <:+: chars
  | .escape => True
  | .comment chars => ¬['%', '>'] <:+: chars
  | .tag chars => TagText chars ∧ ∃ c t, chars = c :: t ∧ c ≠ '%' ∧ c ≠ '#'

/-- A piece of plain text. -/
def Piece.isText : Piece → Bool
  | .text _ => true
  | _ => false

/-- A source can be cut into these pieces: each is proper, and no two texts are side by side. -/
def Cut : List Piece → Prop
  | [] => True
  | piece :: rest =>
    piece.Proper ∧ (piece.isText = true → rest.head?.all (!·.isText) = true) ∧ Cut rest

/-- The source of a list of pieces. -/
def sources (pieces : List Piece) : List Char :=
  pieces.flatMap Piece.source

theorem sources_cons (piece : Piece) (rest : List Piece) :
    sources (piece :: rest) = piece.source ++ sources rest := List.flatMap_cons

theorem sources_append (front rest : List Piece) :
    sources (front ++ rest) = sources front ++ sources rest := List.flatMap_append

/-- Everything but a text starts with `<%`. -/
theorem opensTag_sources {pieces : List Piece} (h : pieces.head?.all (!·.isText) = true) :
    OpensTag (sources pieces) := by
  cases pieces with
  | nil => exact Or.inl rfl
  | cons piece rest =>
    rw [sources_cons]
    cases piece with
    | text chars => exact absurd h (by simp [Piece.isText])
    | escape => exact Or.inr ⟨_, rfl⟩
    | comment chars => exact Or.inr ⟨_, rfl⟩
    | tag chars => exact Or.inr ⟨_, rfl⟩

/-- A text is taken whole when a tag or nothing follows it. -/
theorem next?_text {chars rest : List Char} (h : (Piece.text chars).Proper) (hr : OpensTag rest) :
    Piece.next? (chars ++ rest) = some (.text chars, rest) := by
  obtain ⟨hne, hinfix⟩ := h
  obtain ⟨c, tail, rfl⟩ := List.exists_cons_of_ne_nil hne
  have htail : ¬['<', '%'] <:+: tail :=
    fun hi => hinfix (hi.trans (List.suffix_cons c tail).isInfix)
  -- the first characters are no opener, so the scan does not take a tag here
  have hopen : ∀ t, c :: (tail ++ rest) ≠ '<' :: '%' :: t := by
    intro t heq
    obtain ⟨hc, ht⟩ := List.cons.inj heq
    exact no_opener hinfix hr ⟨hc, by rw [ht]; rfl⟩
  rw [List.cons_append]
  unfold Piece.next?
  split
  · next heq => exact absurd heq (List.cons_ne_nil _ _)
  · next heq => exact absurd heq (hopen _)
  · next heq => exact absurd heq (hopen _)
  · next heq => exact absurd heq (hopen _)
  · next heq =>
    obtain ⟨rfl, rfl⟩ := List.cons.inj heq
    simp only [textRun_append_stop htail hr]

/-- A tag is taken up to its end. The first character behind the opener tells it from an escape and a comment. -/
theorem next?_tag {chars : List Char} (h : (Piece.tag chars).Proper) (rest : List Char) :
    Piece.next? ('<' :: '%' :: (chars ++ '%' :: '>' :: rest)) = some (.tag chars, rest) := by
  obtain ⟨htext, c, t, rfl, hp, hs⟩ := h
  have hbody := tagBody_tagText htext rest
  rw [List.cons_append]
  unfold Piece.next?
  split
  · next heq => exact absurd heq (List.cons_ne_nil _ _)
  · next heq => exact absurd (by simpa using heq) (fun h : c = '%' ∧ _ => hp h.1)
  · next heq => exact absurd (by simpa using heq) (fun h : c = '#' ∧ _ => hs h.1)
  · next heq =>
    obtain rfl := (List.cons.inj (List.cons.inj heq).2).2
    rw [← List.cons_append, hbody]
    rfl
  · next hother heq =>
    obtain ⟨rfl, rfl⟩ := List.cons.inj heq
    exact (hother _ rfl rfl).elim

/-- The first piece is taken off the source. -/
theorem next?_source {piece : Piece} {rest : List Char} (h : piece.Proper)
    (hr : piece.isText = true → OpensTag rest) :
    Piece.next? (piece.source ++ rest) = some (piece, rest) := by
  cases piece with
  | text chars => exact next?_text h (hr rfl)
  | escape => rfl
  | comment chars =>
    have hsource : (Piece.comment chars).source ++ rest
        = '<' :: '%' :: '#' :: (chars ++ '%' :: '>' :: rest) := by
      simp [Piece.source]
    rw [hsource, Piece.next?, commentBody_append_close h rest]
    rfl
  | tag chars =>
    have hsource : (Piece.tag chars).source ++ rest
        = '<' :: '%' :: (chars ++ '%' :: '>' :: rest) := by
      simp [Piece.source]
    rw [hsource]
    exact next?_tag h rest

/-- **Cutting the source of a list of pieces gives the pieces back.** -/
theorem split_sources {pieces : List Piece} (h : Cut pieces) (line : Nat) :
    Piece.split line (sources pieces) = .ok pieces := by
  induction pieces generalizing line with
  | nil => rw [Piece.split]; rfl
  | cons piece rest ih =>
    obtain ⟨hproper, hnext, hrest⟩ := h
    have htake : Piece.next? (sources (piece :: rest)) = some (piece, sources rest) := by
      rw [sources_cons]
      exact next?_source hproper fun ht => opensTag_sources (hnext ht)
    have hne : sources (piece :: rest) ≠ [] := by
      intro hnil
      rw [hnil] at htake
      exact absurd htake (by simp [Piece.next?])
    rw [Piece.split, if_neg hne]
    split
    · next hnone => rw [htake] at hnone; exact absurd hnone (by simp)
    · next piece' rest' hsome =>
      rw [htake] at hsome
      obtain ⟨rfl, rfl⟩ := Prod.mk.inj (Option.some.inj hsome)
      rw [ih hrest]
      rfl

/-! ## Printed code inside a tag -/

/-- A character that means nothing to the end of a tag: no quote and no percent sign. -/
def Quiet (c : Char) : Prop :=
  c ≠ '\'' ∧ c ≠ '"' ∧ c ≠ '%'
deriving Decidable

theorem quiet_of_nameChar {c : Char} (h : isNameChar c = true) : Quiet c :=
  ⟨nameChar_ne h (by decide), nameChar_ne h (by decide), nameChar_ne h (by decide)⟩

theorem TagText.cons_quiet {c : Char} {rest : List Char} (hc : Quiet c) (h : TagText rest) :
    TagText (c :: rest) :=
  .plain hc.1 hc.2.1 (fun hclose => hc.2.2 hclose.1) h

theorem TagText.append_quiet {front rest : List Char} (hf : ∀ c ∈ front, Quiet c)
    (h : TagText rest) : TagText (front ++ rest) := by
  induction front with
  | nil => exact h
  | cons c front ih =>
    exact .cons_quiet (hf c List.mem_cons_self) (ih fun d hd => hf d (List.mem_cons_of_mem _ hd))

theorem TagText.of_quiet {chars : List Char} (h : chars.all (decide <| Quiet ·) = true) :
    TagText chars := by
  have hquiet : ∀ c ∈ chars, Quiet c := fun c hc => of_decide_eq_true (List.all_eq_true.mp h c hc)
  have htext := TagText.append_quiet hquiet .nil
  rwa [List.append_nil] at htext

theorem TagText.append_spell {word : String} (hw : isName word = true) {rest : List Char}
    (h : TagText rest) : TagText (spell word ++ rest) :=
  .append_quiet (fun c hc => quiet_of_nameChar (nameChar_of_mem hw c hc)) h

theorem quotedText_escapeQuotes (text : List Char) : QuotedText '\'' (escapeQuotes text) := by
  induction text with
  | nil => exact .nil
  | cons c text ih =>
    rw [escapeQuotes]
    split
    · exact .escaped ih
    · next hc => exact .plain (fun h => hc (Or.inr h)) (fun h => hc (Or.inl h)) ih

theorem printFields_tagText {names : List String} (h : ∀ field ∈ names, isName field = true)
    {rest : List Char} (hr : TagText rest) : TagText (printFields names ++ rest) := by
  induction names with
  | nil => exact hr
  | cons field names ih =>
    rw [printFields, List.cons_append, List.cons_append, List.append_assoc]
    exact .cons_quiet (by decide) (.append_spell (h field List.mem_cons_self)
      (ih fun f hf => h f (List.mem_cons_of_mem _ hf)))

theorem grouped_tagText {lhs rhs : List Char} {a b : Char} (ha : Quiet a) (hb : Quiet b)
    (hl : ∀ {rest}, TagText rest → TagText (lhs ++ rest))
    (hr : ∀ {rest}, TagText rest → TagText (rhs ++ rest)) {rest : List Char} (h : TagText rest) :
    TagText (grouped lhs [a, b] rhs ++ rest) := by
  have hsplit : grouped lhs [a, b] rhs ++ rest
      = '(' :: (lhs ++ ' ' :: a :: b :: ' ' :: (rhs ++ ')' :: rest)) := by
    simp [grouped]
  have hright : TagText (' ' :: a :: b :: ' ' :: (rhs ++ ')' :: rest)) :=
    .cons_quiet (by decide) (.cons_quiet ha (.cons_quiet hb (.cons_quiet (by decide)
      (hr (.cons_quiet (by decide) h)))))
  rw [hsplit]
  exact .cons_quiet (by decide) (hl hright)

/-- **Printed expressions can stand inside a tag.** A `%>` in a string is between quotes. -/
theorem print_tagText {e : Expr} (h : e.Normal) {rest : List Char} (hr : TagText rest) :
    TagText (e.print ++ rest) := by
  induction e generalizing rest with
  | str text =>
    have hsplit : (Expr.str text).print ++ rest
        = '\'' :: (escapeQuotes text.toList ++ '\'' :: rest) := by
      simp [Expr.print, quote]
    rw [hsplit]
    exact .span (Or.inl rfl) (quotedText_escapeQuotes _) hr
  | bool b => exact .append_spell (by cases b <;> decide) hr
  | nil => exact .append_spell (by decide) hr
  | var head names =>
    rw [Expr.print, List.append_assoc]
    exact .append_spell (isVariable_iff.mp h.1).1 (printFields_tagText h.2 hr)
  | imported path ih =>
    rw [Expr.print, List.append_assoc, List.append_assoc]
    exact .append_spell (by decide) (.cons_quiet (by decide) (ih h (.cons_quiet (by decide) hr)))
  | not inner ih =>
    have hinner : TagText (inner.print ++ ([')'] ++ rest)) := ih h (.cons_quiet (by decide) hr)
    rw [Expr.print, List.cons_append, List.cons_append, List.append_assoc]
    exact .cons_quiet (by decide) (.cons_quiet (by decide) hinner)
  | eq lhs rhs ihl ihr => exact grouped_tagText (by decide) (by decide) (ihl h.1) (ihr h.2) hr
  | ne lhs rhs ihl ihr => exact grouped_tagText (by decide) (by decide) (ihl h.1) (ihr h.2) hr
  | and lhs rhs ihl ihr => exact grouped_tagText (by decide) (by decide) (ihl h.1) (ihr h.2) hr
  | or lhs rhs ihl ihr => exact grouped_tagText (by decide) (by decide) (ihl h.1) (ihr h.2) hr

theorem statement_tagText {statement : Statement} (h : statement.Normal) {rest : List Char}
    (hr : TagText rest) : TagText (statement.print ++ rest) := by
  cases statement with
  | test condition =>
    rw [Statement.print, List.append_assoc]
    exact .append_spell (by decide) (.cons_quiet (by decide) (print_tagText h hr))
  | retest condition =>
    rw [Statement.print, List.append_assoc]
    exact .append_spell (by decide) (.cons_quiet (by decide) (print_tagText h hr))
  | otherwise => exact .append_spell (by decide) hr
  | close => exact .append_spell (by decide) hr
  | loop name items =>
    have hsplit : (Statement.loop name items).print ++ rest
        = spell "for" ++ ' ' :: (spell name ++ ' ' :: (spell "in" ++ ' ' :: (items.print ++ rest))) := by
      simp [Statement.print]
    rw [hsplit]
    exact .append_spell (by decide) (.cons_quiet (by decide)
      (.append_spell (isVariable_iff.mp h.1).1 (.cons_quiet (by decide)
        (.append_spell (by decide) (.cons_quiet (by decide) (print_tagText h.2 hr))))))

end Bindery.Template
