import Bindery.Proofs.Template.PieceCut

/-!
# `Proofs.Template.PieceReading` — what a cut gives

The other direction of `PieceCut`: whatever the readers take off the front of a source is a piece as it
should be, and a text is only ever followed by a tag. So a cut that succeeds gives a list of pieces that
can be told from its source (`cut_of_split`), and there is one such list at most (`cut_unique`); a cut
that fails stops at a tag that does not end (`split_error`).

**Contents.**
* `quotedText_of_spanEnd`, `tagText_of_tagBody`, `no_closer_of_commentBody`, `no_opener_of_textRun` —
  one lemma for each reader;
* `proper_of_next?` — the first piece of a source;
* `cut_of_split`, `cut_unique` and `split_error` — the whole cut.
-/

namespace Bindery.Template

/-! ## The readers -/

/-- What is taken up to the closing quote is quoted text and that quote. -/
theorem quotedText_of_spanEnd {mark : Char} {s span rest : List Char}
    (h : spanEnd mark s = some (span, rest)) :
    ∃ inner, QuotedText mark inner ∧ span = inner ++ [mark] := by
  fun_induction spanEnd mark s generalizing span with
  | case1 => simp at h
  | case2 => simp at h
  | case3 d tail ih =>
    obtain ⟨taken, htaken, rfl⟩ := prepend_eq_some.1 h
    obtain ⟨inner, hinner, rfl⟩ := ih htaken
    exact ⟨'\\' :: d :: inner, .escaped hinner, rfl⟩
  | case4 tail =>
    obtain ⟨rfl, -⟩ : [mark] = span ∧ tail = rest := by simpa using h
    exact ⟨[], .nil, rfl⟩
  | case5 c tail hb hq ih =>
    obtain ⟨taken, htaken, rfl⟩ := prepend_eq_some.1 h
    obtain ⟨inner, hinner, rfl⟩ := ih htaken
    exact ⟨c :: inner, .plain hb hq hinner, rfl⟩

/-- No `%>` starts at a character that is taken, if none starts at it in the source. -/
theorem not_close_of_append {c : Char} {inner rest tail : List Char}
    (h : ¬(c = '%' ∧ tail.head? = some '>')) (hs : inner ++ ['%', '>'] ++ rest = tail) :
    ¬(c = '%' ∧ inner.head? = some '>') := by
  rintro ⟨hc, hhead⟩
  apply h
  refine ⟨hc, ?_⟩
  rw [← hs, List.append_assoc, List.head?_append, hhead]
  rfl

/-- What is taken up to the end of a tag is the text of a tag. -/
theorem tagText_of_tagBody {s chars rest : List Char} (h : tagBody s = some (chars, rest)) :
    TagText chars := by
  fun_induction tagBody s generalizing chars with
  | case1 => simp at h
  | case2 =>
    obtain ⟨rfl, -⟩ : [] = chars ∧ _ = rest := by simpa using h
    exact .nil
  | case3 => simp at h
  | case4 mark tail _ hmark span after htaken ih =>
    obtain ⟨body, hbody, rfl⟩ := prepend_eq_some.1 h
    obtain ⟨inner, hinner, rfl⟩ := quotedText_of_spanEnd htaken
    have hsplit : mark :: (inner ++ [mark]) ++ body = mark :: (inner ++ mark :: body) := by simp
    rw [hsplit]
    exact .span hmark hinner (ih hbody)
  | case5 c tail hclose hmark ih =>
    obtain ⟨body, hbody, rfl⟩ := prepend_eq_some.1 h
    exact .plain (fun hc => hmark (Or.inl hc)) (fun hc => hmark (Or.inr hc))
      (not_close_of_append hclose (tagBody_append hbody)) (ih hbody)

/-- What is taken up to the end of a comment holds no `%>`. -/
theorem no_closer_of_commentBody {s chars rest : List Char}
    (h : commentBody s = some (chars, rest)) : ¬['%', '>'] <:+: chars := by
  fun_induction commentBody s generalizing chars with
  | case1 => simp at h
  | case2 =>
    obtain ⟨rfl, -⟩ : [] = chars ∧ _ = rest := by simpa using h
    simp
  | case3 c tail hclose ih =>
    obtain ⟨body, hbody, rfl⟩ := prepend_eq_some.1 h
    have hmeet := not_close_of_append hclose (commentBody_append hbody)
    intro hfree
    rcases List.infix_cons_iff.mp hfree with hp | hi
    · obtain ⟨hc, t, rfl⟩ := List.cons_prefix_cons.mp hp
      exact hmeet ⟨hc.symm, rfl⟩
    · exact ih hbody hi

/-- What is taken up to the next tag holds no `<%`, and stops at a tag or at the end. -/
theorem no_opener_of_textRun (s : List Char) :
    ¬['<', '%'] <:+: (textRun s).1 ∧ OpensTag (textRun s).2 := by
  induction s with
  | nil => exact ⟨by simp [textRun], Or.inl rfl⟩
  | cons c tail ih =>
    obtain ⟨hfree, hstop⟩ := ih
    rw [textRun]
    split
    · next hopen =>
      obtain ⟨rfl, hhead⟩ := hopen
      obtain ⟨t, rfl⟩ := List.head?_eq_some_iff.mp hhead
      exact ⟨by simp, Or.inr ⟨t, rfl⟩⟩
    · next hopen =>
      refine ⟨fun hi => ?_, hstop⟩
      rcases List.infix_cons_iff.mp hi with hp | hi
      · obtain ⟨hc, t, ht⟩ := List.cons_prefix_cons.mp hp
        apply hopen
        refine ⟨hc.symm, ?_⟩
        rw [← textRun_append tail, ← ht]
        rfl
      · exact hfree hi

/-! ## The first piece -/

/-- The first piece of a source is what it claims to be, and a text stops at a tag or at the end. -/
theorem proper_of_next? {s rest : List Char} {piece : Piece}
    (h : Piece.next? s = some (piece, rest)) :
    piece.Proper ∧ (piece.isText = true → OpensTag rest) := by
  unfold Piece.next? at h
  split at h
  · simp at h
  · obtain ⟨rfl, -⟩ := Prod.mk.inj (Option.some.inj h)
    exact ⟨trivial, fun ht => absurd ht (by simp [Piece.isText])⟩
  · obtain ⟨⟨chars, rest'⟩, hbody, hpair⟩ := Option.map_eq_some_iff.mp h
    obtain ⟨rfl, -⟩ := Prod.mk.inj hpair
    exact ⟨no_closer_of_commentBody hbody, fun ht => absurd ht (by simp [Piece.isText])⟩
  · next tail hescape hcomment =>
    obtain ⟨⟨chars, rest'⟩, hbody, hpair⟩ := Option.map_eq_some_iff.mp h
    obtain ⟨rfl, rfl⟩ := Prod.mk.inj hpair
    have hsource := tagBody_append hbody
    refine ⟨⟨tagText_of_tagBody hbody, ?_⟩, fun ht => absurd ht (by simp [Piece.isText])⟩
    cases chars with
    | nil => exact (hescape _ (by rw [← hsource]; rfl)).elim
    | cons c t =>
      refine ⟨c, t, rfl, ?_, ?_⟩
      · rintro rfl
        exact hescape _ (by rw [← hsource]; rfl)
      · rintro rfl
        exact hcomment _ (by rw [← hsource]; rfl)
  · next c tail _ _ hopen =>
    obtain ⟨rfl, rfl⟩ := Prod.mk.inj (Option.some.inj h)
    obtain ⟨hfree, hstop⟩ := no_opener_of_textRun tail
    refine ⟨⟨List.cons_ne_nil _ _, fun hi => ?_⟩, fun _ => hstop⟩
    -- an opener right at the front would have been taken for a tag
    rcases List.infix_cons_iff.mp hi with hp | hi
    · obtain ⟨hc, t, ht⟩ := List.cons_prefix_cons.mp hp
      have hsplit := textRun_append tail
      rw [← ht] at hsplit
      exact hopen (t ++ (textRun tail).2) hc.symm hsplit.symm
    · exact hfree hi

/-- A source that opens a tag does not start with a text. -/
theorem isText_of_opener {tail rest : List Char} {piece : Piece}
    (h : Piece.next? ('<' :: '%' :: tail) = some (piece, rest)) : piece.isText = false := by
  unfold Piece.next? at h
  split at h
  · simp at h
  · obtain ⟨rfl, -⟩ := Prod.mk.inj (Option.some.inj h)
    rfl
  · obtain ⟨_, -, hpair⟩ := Option.map_eq_some_iff.mp h
    obtain ⟨rfl, -⟩ := Prod.mk.inj hpair
    rfl
  · obtain ⟨_, -, hpair⟩ := Option.map_eq_some_iff.mp h
    obtain ⟨rfl, -⟩ := Prod.mk.inj hpair
    rfl
  · next hopen heq =>
    obtain ⟨rfl, rfl⟩ := List.cons.inj heq
    exact (hopen _ rfl rfl).elim

/-- Only a tag that does not end stops the cut. -/
theorem opener_of_next?_eq_none {s : List Char} (hne : s ≠ []) (h : Piece.next? s = none) :
    ∃ tail, s = '<' :: '%' :: tail := by
  unfold Piece.next? at h
  split at h
  · exact absurd rfl hne
  · simp at h
  · exact ⟨_, rfl⟩
  · exact ⟨_, rfl⟩
  · simp at h

/-! ## The whole cut -/

theorem OpensTag.append {front rest : List Char} (hf : OpensTag front) (hr : OpensTag rest) :
    OpensTag (front ++ rest) := by
  rcases hf with rfl | ⟨tail, rfl⟩
  · exact hr
  · exact Or.inr ⟨_, rfl⟩

/-- Where a text stops, the next piece is no text. -/
theorem head_of_stop {pieces : List Piece} {rest : List Char} (hcut : Cut pieces)
    (hrest : OpensTag rest) (hstop : OpensTag (sources pieces ++ rest)) :
    pieces.head?.all (!·.isText) = true := by
  cases pieces with
  | nil => rfl
  | cons piece more =>
    have hfollow : piece.isText = true → OpensTag (sources more ++ rest) := fun ht =>
      (opensTag_sources (hcut.2.1 ht)).append hrest
    have hnext := next?_source hcut.1 hfollow
    rw [← List.append_assoc, ← sources_cons] at hnext
    rcases hstop with hnil | ⟨tail, hopen⟩
    · rw [hnil] at hnext
      simp [Piece.next?] at hnext
    · rw [hopen] at hnext
      simp [isText_of_opener hnext]

/-- **What a cut gives can be cut, and is the source.** -/
theorem cut_of_split {line : Nat} {s : List Char} {pieces : List Piece}
    (h : Piece.split line s = .ok pieces) : Cut pieces ∧ sources pieces = s := by
  fun_induction Piece.split line s generalizing pieces with
  | case1 line =>
    obtain rfl : [] = pieces := by simpa using h
    exact ⟨trivial, rfl⟩
  | case2 => simp at h
  | case3 line s _ piece rest htaken ih =>
    obtain ⟨hproper, hstop⟩ := proper_of_next? htaken
    cases hsplit : Piece.split (line + newlines piece.source) rest with
    | error e => rw [hsplit] at h; simp [Except.map] at h
    | ok more =>
      rw [hsplit] at h
      obtain rfl : piece :: more = pieces := by simpa [Except.map] using h
      obtain ⟨hcut, hsources⟩ := ih hsplit
      refine ⟨⟨hproper, fun ht => ?_, hcut⟩, ?_⟩
      · have hstop' := hstop ht
        rw [← List.append_nil rest, ← hsources] at hstop'
        exact head_of_stop hcut (Or.inl rfl) hstop'
      · rw [sources_cons, hsources, Piece.source_append_of_next? htaken]

/-- A source can be cut in one way at most. -/
theorem cut_unique {pieces others : List Piece} (h : Cut pieces) (ho : Cut others)
    (hs : sources pieces = sources others) : pieces = others := by
  have heq := split_sources h 1
  rw [hs, split_sources ho] at heq
  exact (Except.ok.inj heq).symm

/-- **A cut fails at a tag that does not end**, behind pieces as they should be. -/
theorem split_error {line : Nat} {s : List Char} {e : SyntaxError}
    (h : Piece.split line s = .error e) :
    ∃ front tail, Cut front ∧ s = sources front ++ '<' :: '%' :: tail
      ∧ Piece.next? ('<' :: '%' :: tail) = none
      ∧ e = ⟨line + newlines (sources front), .unterminatedTag⟩ := by
  fun_induction Piece.split line s with
  | case1 => simp at h
  | case2 line s hne hnone =>
    obtain ⟨tail, rfl⟩ := opener_of_next?_eq_none hne hnone
    obtain rfl : _ = e := Except.error.inj h
    exact ⟨[], tail, trivial, rfl, hnone, rfl⟩
  | case3 line s _ piece rest htaken ih =>
    obtain ⟨hproper, hstop⟩ := proper_of_next? htaken
    cases hsplit : Piece.split (line + newlines piece.source) rest with
    | ok more => rw [hsplit] at h; simp [Except.map] at h
    | error e' =>
      rw [hsplit] at h
      obtain rfl : e' = e := by simpa [Except.map] using h
      obtain ⟨front, tail, hcut, rfl, hnone, rfl⟩ := ih hsplit
      refine ⟨piece :: front, tail, ⟨hproper, fun ht => ?_, hcut⟩, ?_, hnone, ?_⟩
      · exact head_of_stop hcut (Or.inr ⟨tail, rfl⟩) (hstop ht)
      · rw [sources_cons, List.append_assoc, Piece.source_append_of_next? htaken]
      · rw [sources_cons, newlines, newlines, newlines, List.count_append, Nat.add_assoc]

end Bindery.Template
