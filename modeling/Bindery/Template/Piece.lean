import Bindery.Template.Syntax

/-!
# `Bindery.Template.Piece` — a source cut at its tags

A source is cut into literal text, escapes `<%%`, comments `<%# … %>` and tags `<% … %>`, and nothing
of it is lost: the pieces put together again are the source.

A tag ends at the first `%>` outside quotes. Inside a quoted span a backslash protects the character
after it, so a `%>` in a string does not end the tag. Comments are free text and end at the first `%>`.

**Contents.** `Piece` and `Piece.source`; `spanEnd`, the end of a quoted span; `tagBody`,
`commentBody` and `textRun`, which take characters off the front; `Piece.next?`, which takes a piece;
`Piece.split`, the whole cut.
-/

namespace Bindery.Template

/-- A part of a source. -/
inductive Piece where
  /-- characters without `<%` among them -/
  | text (chars : List Char)
  /-- `<%%`, which stands for `<%` -/
  | escape
  /-- a comment, without its delimiters -/
  | comment (chars : List Char)
  /-- a tag, without its delimiters -/
  | tag (chars : List Char)
deriving DecidableEq, Repr

/-- The source of a piece. -/
def Piece.source : Piece → List Char
  | text chars => chars
  | escape => ['<', '%', '%']
  | comment chars => ['<', '%', '#'] ++ chars ++ ['%', '>']
  | tag chars => ['<', '%'] ++ chars ++ ['%', '>']

/-- Puts characters in front of what a reader took. -/
def prepend (front : List Char) (taken : Option (List Char × List Char)) :
    Option (List Char × List Char) :=
  taken.map fun (chars, rest) => (front ++ chars, rest)

/-- After an opening `quote`: the span up to and with the closing one, and the rest. A backslash takes
the next character with it. -/
def spanEnd (quote : Char) : List Char → Option (List Char × List Char)
  | [] => none
  | c :: rest =>
    if c = '\\' then
      match rest with
      | [] => none
      | d :: rest => prepend [c, d] (spanEnd quote rest)
    else if c = quote then some ([c], rest)
    else prepend [c] (spanEnd quote rest)

theorem prepend_eq_some {front : List Char} {taken : Option (List Char × List Char)}
    {chars rest : List Char} :
    prepend front taken = some (chars, rest) ↔
      ∃ inner, taken = some (inner, rest) ∧ chars = front ++ inner := by
  cases taken with
  | none => simp [prepend]
  | some pair =>
    obtain ⟨inner, rest'⟩ := pair
    simp only [prepend, Option.map_some, Option.some.injEq, Prod.mk.injEq]
    constructor
    · rintro ⟨rfl, rfl⟩; exact ⟨inner, ⟨rfl, rfl⟩, rfl⟩
    · rintro ⟨inner', ⟨rfl, rfl⟩, rfl⟩; exact ⟨rfl, rfl⟩

/-- A span and the rest are the text they were taken from. -/
theorem spanEnd_append {quote : Char} {s span rest : List Char}
    (h : spanEnd quote s = some (span, rest)) : span ++ rest = s := by
  fun_induction spanEnd quote s generalizing span with
  | case1 => simp at h
  | case2 => simp at h
  | case3 d tail ih =>
    obtain ⟨inner, taken, rfl⟩ := prepend_eq_some.1 h
    simp [ih taken]
  | case4 => simp at h; obtain ⟨rfl, rfl⟩ := h; rfl
  | case5 c tail _ _ ih =>
    obtain ⟨inner, taken, rfl⟩ := prepend_eq_some.1 h
    simp [ih taken]

theorem length_lt_of_spanEnd {quote : Char} {s span rest : List Char}
    (h : spanEnd quote s = some (span, rest)) : rest.length < s.length + 1 := by
  have := congrArg List.length (spanEnd_append h)
  simp at this
  omega

/-- After `<%`: the characters of a tag up to its `%>`, and the rest. -/
def tagBody : List Char → Option (List Char × List Char)
  | [] => none
  | c :: rest =>
    if c = '%' ∧ rest.head? = some '>' then some ([], rest.tail)
    else if c = '\'' ∨ c = '"' then
      match _taken : spanEnd c rest with
      | none => none
      | some (span, after) => prepend (c :: span) (tagBody after)
    else prepend [c] (tagBody rest)
termination_by s => s.length
decreasing_by
  · have := length_lt_of_spanEnd _taken
    simpa using this
  · simp

/-- After `<%#`: the characters of a comment up to the first `%>`, and the rest. -/
def commentBody : List Char → Option (List Char × List Char)
  | [] => none
  | c :: rest =>
    if c = '%' ∧ rest.head? = some '>' then some ([], rest.tail)
    else prepend [c] (commentBody rest)

/-- The characters before the first `<%`, and the rest. -/
def textRun : List Char → List Char × List Char
  | [] => ([], [])
  | c :: rest =>
    if c = '<' ∧ rest.head? = some '%' then ([], c :: rest)
    else
      let run := textRun rest
      (c :: run.1, run.2)

/-! ## What the readers take -/

theorem tagBody_append {s chars rest : List Char} (h : tagBody s = some (chars, rest)) :
    chars ++ ['%', '>'] ++ rest = s := by
  fun_induction tagBody s generalizing chars with
  | case1 => simp at h
  | case2 c tail close =>
    obtain ⟨rfl, follows⟩ := close
    simp at h
    obtain ⟨rfl, rfl⟩ := h
    cases tail with
    | nil => simp at follows
    | cons d tail => simp at follows; simp [follows]
  | case3 => simp at h
  | case4 c tail _ _ span after taken ih =>
    obtain ⟨inner, body, rfl⟩ := prepend_eq_some.1 h
    have := ih body
    simp [← spanEnd_append taken, ← this]
  | case5 c tail _ _ ih =>
    obtain ⟨inner, body, rfl⟩ := prepend_eq_some.1 h
    have := ih body
    simp [← this]

theorem commentBody_append {s chars rest : List Char} (h : commentBody s = some (chars, rest)) :
    chars ++ ['%', '>'] ++ rest = s := by
  fun_induction commentBody s generalizing chars with
  | case1 => simp at h
  | case2 c tail close =>
    obtain ⟨rfl, follows⟩ := close
    simp at h
    obtain ⟨rfl, rfl⟩ := h
    cases tail with
    | nil => simp at follows
    | cons d tail => simp at follows; simp [follows]
  | case3 c tail _ ih =>
    obtain ⟨inner, body, rfl⟩ := prepend_eq_some.1 h
    have := ih body
    simp [← this]

theorem textRun_append (s : List Char) : (textRun s).1 ++ (textRun s).2 = s := by
  induction s with
  | nil => rfl
  | cons c rest ih => rw [textRun]; split <;> simp [ih]

/-! ## The cut -/

/-- How many newlines a text holds. -/
def newlines (s : List Char) : Nat :=
  s.count '\n'

/-- The first piece of a source and the rest; nothing if the source is empty or starts with a tag that
does not end. -/
def Piece.next? (s : List Char) : Option (Piece × List Char) :=
  match s with
  | [] => none
  | '<' :: '%' :: '%' :: rest => some (.escape, rest)
  | '<' :: '%' :: '#' :: rest => (commentBody rest).map fun (chars, rest) => (.comment chars, rest)
  | '<' :: '%' :: rest => (tagBody rest).map fun (chars, rest) => (.tag chars, rest)
  | c :: rest =>
    let run := textRun rest
    some (.text (c :: run.1), run.2)

/-- The first piece is taken off the front and nothing of it is lost. -/
theorem Piece.source_append_of_next? {s rest : List Char} {piece : Piece}
    (h : Piece.next? s = some (piece, rest)) : piece.source ++ rest = s := by
  unfold Piece.next? at h
  split at h
  · simp at h
  · simp at h; obtain ⟨rfl, rfl⟩ := h; rfl
  · simp at h
    obtain ⟨chars, taken, rfl⟩ := h
    simp [Piece.source, ← commentBody_append taken]
  · simp at h
    obtain ⟨chars, taken, rfl⟩ := h
    simp [Piece.source, ← tagBody_append taken]
  · simp at h
    obtain ⟨rfl, rfl⟩ := h
    simp [Piece.source, textRun_append]

theorem Piece.source_ne_nil {s rest : List Char} {piece : Piece}
    (h : Piece.next? s = some (piece, rest)) : piece.source ≠ [] := by
  unfold Piece.next? at h
  split at h <;> simp at h
  · obtain ⟨rfl, -⟩ := h; simp [Piece.source]
  · obtain ⟨chars, -, rfl⟩ := h; simp [Piece.source]
  · obtain ⟨chars, -, rfl⟩ := h; simp [Piece.source]
  · obtain ⟨rfl, -⟩ := h; simp [Piece.source]

theorem Piece.length_lt_of_next? {s rest : List Char} {piece : Piece}
    (h : Piece.next? s = some (piece, rest)) : rest.length < s.length := by
  have whole := congrArg List.length (Piece.source_append_of_next? h)
  have := List.length_pos_iff.2 (Piece.source_ne_nil h)
  simp at whole
  omega

/-- Cuts a source into its pieces, or tells the line of the first tag that does not end; the source
starts on line `line`. -/
def Piece.split (line : Nat) (s : List Char) : Except SyntaxError (List Piece) :=
  if s = [] then .ok []
  else match _taken : Piece.next? s with
    | none => .error ⟨line, .unterminatedTag⟩
    | some (piece, rest) =>
      (Piece.split (line + newlines piece.source) rest).map (piece :: ·)
termination_by s.length
decreasing_by exact Piece.length_lt_of_next? _taken

end Bindery.Template
