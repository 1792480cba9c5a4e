import Bindery.Proofs.Template.PieceReading
import Bindery.Template.Segment
import Mathlib.Data.List.DropRight
import Mathlib.Data.List.TakeWhile

/-!
# `Proofs.Template.Segmentation` — what the segments of a source are

The scan walks over the pieces with a text in the making and a flag. Here its result is described
without either: `Yields` cuts the pieces into runs of literal pieces with a comment or a tag behind each,
and a run gives its text, less one line break if the tag in front of it trims. What connects the two is
that the scan, having walked over a run, has gathered the text of that run (`ofPieces_run_append`).

**Contents.**
* `Piece.literal`, `Piece.isLiteral` and `runText` — the text of a run;
* `Yields` — the segments of a list of pieces;
* `ofPieces_run_append` and `yields_iff` — the scan yields them and nothing else;
* `trimmed_of_scan` — tags have no white space at the ends of their code;
* `scan_exactly` — **every source is scanned in exactly one way, or ends inside a tag**.
-/

namespace Bindery.Template

open Bindery.Text

/-! ## Runs -/

/-- What a piece contributes to a text: an escape stands for `<%`. -/
def Piece.literal : Piece → List Char
  | .text chars => chars
  | .escape => ['<', '%']
  | .comment _ => []
  | .tag _ => []

/-- A piece that a text is made from. -/
def Piece.isLiteral : Piece → Bool
  | .text _ => true
  | .escape => true
  | .comment _ => false
  | .tag _ => false

/-- The text of a run of literal pieces; `after` holds behind a tag that trims. -/
def runText (after : Bool) (run : List Piece) : List Char :=
  if after then dropLineBreak (run.flatMap Piece.literal) else run.flatMap Piece.literal

/-- The segments of a list of pieces that starts on line `line`; `after` holds behind a tag that trims.
Every comment and every tag ends a run of literal pieces, and so does the end of the list. -/
inductive Yields : Nat → Bool → List Piece → List Segment → Prop where
  | done {line : Nat} {after : Bool} {run : List Piece} : (∀ piece ∈ run, piece.isLiteral = true) →
      Yields line after run (flush (runText after run))
  | comment {line : Nat} {after : Bool} {run rest : List Piece} {chars : List Char}
      {segments : List Segment} : (∀ piece ∈ run, piece.isLiteral = true) →
      Yields (line + newlines (sources (run ++ [.comment chars]))) (trims chars) rest segments →
      Yields line after (run ++ .comment chars :: rest) (flush (runText after run) ++ segments)
  | output {line : Nat} {after : Bool} {run rest : List Piece} {code : List Char}
      {segments : List Segment} : (∀ piece ∈ run, piece.isLiteral = true) →
      Yields (line + newlines (sources (run ++ [.tag ('=' :: code)]))) (trims ('=' :: code)) rest
        segments →
      Yields line after (run ++ .tag ('=' :: code) :: rest)
        (flush (runText after run)
          ++ .output (line + newlines (sources run)) (trim (dropDash code)) :: segments)
  | statement {line : Nat} {after : Bool} {run rest : List Piece} {code : List Char}
      {segments : List Segment} : (∀ piece ∈ run, piece.isLiteral = true) → code.head? ≠ some '=' →
      Yields (line + newlines (sources (run ++ [.tag code]))) (trims code) rest segments →
      Yields line after (run ++ .tag code :: rest)
        (flush (runText after run)
          ++ .statement (line + newlines (sources run)) (trim (dropDash code)) :: segments)

/-! ## Tags -/

/-- A dash at the end of `=` and code is a dash at the end of the code. -/
theorem dropDash_equals (code : List Char) : dropDash ('=' :: code) = '=' :: dropDash code := by
  cases code with
  | nil => rfl
  | cons c code =>
    have htrims : trims ('=' :: c :: code) = trims (c :: code) := by simp [trims]
    rw [dropDash, dropDash, htrims]
    split <;> rfl

theorem ofTag_equals (line : Nat) (code : List Char) :
    Segment.ofTag line ('=' :: code) = .output line (trim (dropDash code)) := by
  unfold Segment.ofTag
  rw [dropDash_equals]
  rfl

/-- Without its dash, a tag starts as it does with it. -/
theorem head?_dropDash {code : List Char} (h : code.head? ≠ some '=') :
    (dropDash code).head? ≠ some '=' := by
  rw [dropDash]
  split
  · cases code with
    | nil => exact h
    | cons c code =>
      cases code with
      | nil => simp
      | cons d code => exact h
  · exact h

theorem ofTag_code {code : List Char} (h : code.head? ≠ some '=') (line : Nat) :
    Segment.ofTag line code = .statement line (trim (dropDash code)) := by
  have hhead := head?_dropDash h
  unfold Segment.ofTag
  split
  · next heq => rw [heq] at hhead; exact absurd rfl hhead
  · rfl

/-! ## The scan of a run -/

theorem newlines_append (front rest : List Char) :
    newlines (front ++ rest) = newlines front + newlines rest := List.count_append

theorem newlines_sources_cons (line : Nat) (piece : Piece) (rest : List Piece) :
    line + newlines (sources (piece :: rest)) = line + newlines piece.source + newlines (sources rest) := by
  rw [sources_cons, newlines_append, Nat.add_assoc]

theorem newlines_sources_concat (line : Nat) (run : List Piece) (piece : Piece) :
    line + newlines (sources (run ++ [piece]))
      = line + newlines (sources run) + newlines piece.source := by
  rw [sources_append, newlines_append, Nat.add_assoc, sources_cons]
  simp [sources]

/-- Over literal pieces the scan gathers their text. -/
theorem ofPieces_gather {run : List Piece} (h : ∀ piece ∈ run, piece.isLiteral = true) (line : Nat)
    (text : List Char) (rest : List Piece) :
    Segment.ofPieces line text false (run ++ rest)
      = Segment.ofPieces (line + newlines (sources run)) (text ++ run.flatMap Piece.literal) false
          rest := by
  induction run generalizing line text with
  | nil => simp [sources, newlines]
  | cons piece run ih =>
    have hrun : ∀ piece ∈ run, piece.isLiteral = true := fun p hp => h p (List.mem_cons_of_mem _ hp)
    have hpiece := h piece List.mem_cons_self
    rw [newlines_sources_cons, List.flatMap_cons, ← List.append_assoc]
    cases piece with
    | text chars => exact ih hrun _ _
    | escape => exact ih hrun _ _
    | comment chars => exact absurd hpiece (by simp [Piece.isLiteral])
    | tag chars => exact absurd hpiece (by simp [Piece.isLiteral])

/-- A run of literal pieces that does not start with a text starts with an escape. -/
theorem literal_head {run : List Piece} (h : ∀ piece ∈ run, piece.isLiteral = true)
    (ht : run.head?.all (!·.isText) = true) : OpensTag (run.flatMap Piece.literal) := by
  cases run with
  | nil => exact Or.inl rfl
  | cons piece run =>
    have hpiece := h piece List.mem_cons_self
    cases piece with
    | text chars => exact absurd ht (by simp [Piece.isText])
    | escape => exact Or.inr ⟨_, rfl⟩
    | comment chars => exact absurd hpiece (by simp [Piece.isLiteral])
    | tag chars => exact absurd hpiece (by simp [Piece.isLiteral])

/-- A line break at the start of a text is in its first piece: a carriage return at the end of a text
has no newline behind it. -/
theorem dropLineBreak_append {chars rest : List Char} (hne : chars ≠ []) (hr : OpensTag rest) :
    dropLineBreak (chars ++ rest) = dropLineBreak chars ++ rest := by
  obtain ⟨c, tail, rfl⟩ := List.exists_cons_of_ne_nil hne
  cases tail with
  | nil =>
    rcases hr with rfl | ⟨t, rfl⟩
    · simp
    · by_cases hc : c = '\n'
      · subst hc; rfl
      · simp [dropLineBreak, hc]
  | cons d tail =>
    by_cases hr : c = '\r' ∧ d = '\n'
    · obtain ⟨rfl, rfl⟩ := hr; rfl
    · by_cases hc : c = '\n'
      · subst hc; rfl
      · have hkeep : ∀ t : List Char, dropLineBreak (c :: d :: t) = c :: d :: t := by
          intro t
          unfold dropLineBreak
          split
          · next heq => simp at heq; exact absurd ⟨heq.1, heq.2.1⟩ hr
          · next heq => simp at heq; exact absurd heq.1 hc
          · rfl
        rw [List.cons_append, List.cons_append, hkeep, hkeep]
        rfl

/-- **Over a run the scan gathers the text of the run**, and the flag is spent on it. -/
theorem ofPieces_run_append {run rest : List Piece} (h : ∀ piece ∈ run, piece.isLiteral = true)
    (hcut : Cut (run ++ rest)) (line : Nat) (after : Bool) :
    Segment.ofPieces line [] after (run ++ rest)
      = Segment.ofPieces (line + newlines (sources run)) (runText after run) (after && run.isEmpty)
          rest := by
  cases run with
  | nil => cases after <;> rfl
  | cons piece run =>
    have hrun : ∀ piece ∈ run, piece.isLiteral = true := fun p hp => h p (List.mem_cons_of_mem _ hp)
    have hpiece := h piece List.mem_cons_self
    rw [newlines_sources_cons, List.isEmpty_cons, Bool.and_false]
    cases piece with
    | text chars =>
      obtain ⟨⟨hne, -⟩, hnext, -⟩ := hcut
      have hstop : OpensTag (run.flatMap Piece.literal) := by
        apply literal_head hrun
        cases run with
        | nil => rfl
        | cons next run => exact hnext rfl
      -- a line break that is dropped lies within the first text, since what follows begins with an opener
      have htext : runText after (.text chars :: run)
          = (if after then dropLineBreak chars else chars) ++ run.flatMap Piece.literal := by
        cases after with
        | false => rfl
        | true => exact dropLineBreak_append hne hstop
      rw [htext]
      exact ofPieces_gather hrun _ _ rest
    | escape =>
      have htext : runText after (.escape :: run) = ['<', '%'] ++ run.flatMap Piece.literal := by
        cases after <;> rfl
      rw [htext]
      exact ofPieces_gather hrun _ _ rest
    | comment chars => exact absurd hpiece (by simp [Piece.isLiteral])
    | tag chars => exact absurd hpiece (by simp [Piece.isLiteral])

/-! ## The scan of a list of pieces -/

theorem Cut.right {front rest : List Piece} (h : Cut (front ++ rest)) : Cut rest := by
  induction front with
  | nil => exact h
  | cons piece front ih => exact ih h.2.2

theorem Cut.append_nil {pieces : List Piece} (h : Cut pieces) : Cut (pieces ++ []) := by
  rwa [List.append_nil]

/-- Every list of pieces starts with a run, which a comment, a tag or the end of the list ends. -/
theorem exists_run (pieces : List Piece) :
    ∃ run rest, pieces = run ++ rest ∧ (∀ piece ∈ run, piece.isLiteral = true)
      ∧ ∀ piece ∈ rest.head?, piece.isLiteral = false := by
  refine ⟨pieces.takeWhile Piece.isLiteral, pieces.dropWhile Piece.isLiteral,
    List.takeWhile_append_dropWhile.symm, fun _ => List.mem_takeWhile_imp, ?_⟩
  intro piece hpiece
  have := List.head?_dropWhile_not Piece.isLiteral pieces
  rw [Option.mem_def.mp hpiece] at this
  simpa using this

/-- The scan of pieces that can be cut yields what `Yields` tells. -/
theorem yields_ofPieces {pieces : List Piece} (hcut : Cut pieces) (line : Nat) (after : Bool) :
    Yields line after pieces (Segment.ofPieces line [] after pieces) := by
  obtain ⟨run, rest, rfl, hrun, hend⟩ := exists_run pieces
  rw [ofPieces_run_append hrun hcut]
  -- the run goes as far as it can, so what stops it is a comment or a tag
  cases rest with
  | nil =>
    rw [List.append_nil]
    exact .done hrun
  | cons piece rest =>
    have hpiece : piece.isLiteral = false := hend piece rfl
    have hrest : Cut rest := hcut.right.2.2
    have hline := (newlines_sources_concat line run piece).symm
    cases piece with
    | text chars => exact absurd hpiece (by simp [Piece.isLiteral])
    | escape => exact absurd hpiece (by simp [Piece.isLiteral])
    | comment chars =>
      rw [Segment.ofPieces, hline]
      exact .comment hrun (yields_ofPieces hrest _ _)
    | tag chars =>
      rw [Segment.ofPieces, hline]
      by_cases hout : chars.head? = some '='
      · obtain ⟨code, rfl⟩ := List.head?_eq_some_iff.mp hout
        rw [ofTag_equals]
        exact .output hrun (yields_ofPieces hrest _ _)
      · rw [ofTag_code hout]
        exact .statement hrun hout (yields_ofPieces hrest _ _)
termination_by pieces.length
decreasing_by all_goals simp_all; omega

/-- Nothing else is yielded. -/
theorem eq_ofPieces_of_yields {line : Nat} {after : Bool} {pieces : List Piece}
    {segments : List Segment} (h : Yields line after pieces segments) (hcut : Cut pieces) :
    segments = Segment.ofPieces line [] after pieces := by
  induction h with
  | @done line after run hrun =>
    have hend := ofPieces_run_append hrun hcut.append_nil line after
    rw [List.append_nil] at hend
    rw [hend]
    rfl
  | comment hrun _ ih =>
    rw [ofPieces_run_append hrun hcut, ih hcut.right.2.2, newlines_sources_concat]
    rfl
  | output hrun _ ih =>
    rw [ofPieces_run_append hrun hcut, ih hcut.right.2.2, newlines_sources_concat, ← ofTag_equals]
    rfl
  | statement hrun hout _ ih =>
    rw [ofPieces_run_append hrun hcut, ih hcut.right.2.2, newlines_sources_concat,
      ← ofTag_code hout]
    rfl

/-- **The scan yields what `Yields` tells, and nothing else.** -/
theorem yields_iff {pieces : List Piece} (hcut : Cut pieces) (line : Nat) (after : Bool)
    (segments : List Segment) :
    Yields line after pieces segments ↔ segments = Segment.ofPieces line [] after pieces := by
  constructor
  · intro h
    exact eq_ofPieces_of_yields h hcut
  · rintro rfl
    exact yields_ofPieces hcut line after

/-! ## The scan of a source -/

/-- The source of pieces that can be cut is scanned into their segments. -/
theorem scan_sources {pieces : List Piece} (hcut : Cut pieces) :
    Segment.scan (sources pieces) = .ok (Segment.ofPieces 1 [] false pieces) := by
  rw [Segment.scan, split_sources hcut]
  rfl

/-- A source that is scanned is the source of pieces that can be cut. -/
theorem cut_of_scan {source : List Char} {segments : List Segment}
    (h : Segment.scan source = .ok segments) : ∃ pieces, Cut pieces ∧ sources pieces = source := by
  rw [Segment.scan] at h
  cases hsplit : Piece.split 1 source with
  | error e => rw [hsplit] at h; simp [Except.map] at h
  | ok pieces => exact ⟨pieces, cut_of_split hsplit⟩

/-- A source that is not scanned ends inside a tag, and the fault is on the line where that starts. -/
theorem scan_error {source : List Char} {e : SyntaxError} (h : Segment.scan source = .error e) :
    ∃ front tail, Cut front ∧ source = sources front ++ '<' :: '%' :: tail
      ∧ e = ⟨1 + newlines (sources front), .unterminatedTag⟩ := by
  rw [Segment.scan] at h
  cases hsplit : Piece.split 1 source with
  | ok pieces => rw [hsplit] at h; simp [Except.map] at h
  | error e' =>
    rw [hsplit] at h
    obtain rfl : e' = e := by simpa [Except.map] using h
    obtain ⟨front, tail, hcut, hsource, -, he⟩ := split_error hsplit
    exact ⟨front, tail, hcut, hsource, he⟩

/-- The code of the tag has no white space at its ends. -/
def Segment.Trimmed : Segment → Prop
  | .text _ => True
  | .output _ code => trim code = code
  | .statement _ code => trim code = code

/-- Nothing is left to trim. -/
theorem trim_trim (s : List Char) : trim (trim s) = trim s := by
  have hstart : (trimStart s).dropWhile isBlank = trimStart s := List.dropWhile_idempotent isBlank s
  have hend : trimEnd (trim s) = trim s := List.rdropWhile_idempotent isBlank (trimStart s)
  -- the text starts with the same character, whatever is taken off its end
  have hprefix : trim s <+: trimStart s := List.rdropWhile_prefix isBlank (trimStart s)
  have hfirst : trimStart (trim s) = trim s := by
    rw [trimStart, List.dropWhile_eq_self_iff]
    intro hne
    have hhead := List.dropWhile_eq_self_iff.mp hstart (Nat.lt_of_lt_of_le hne hprefix.length_le)
    rwa [← hprefix.getElem hne] at hhead
  rw [trim, hfirst, hend]

theorem ofTag_trimmed (line : Nat) (chars : List Char) : (Segment.ofTag line chars).Trimmed := by
  unfold Segment.ofTag
  split
  · exact trim_trim _
  · exact trim_trim _

theorem trimmed_of_flush {run : List Char} {segment : Segment} (h : segment ∈ flush run) :
    segment.Trimmed := by
  unfold flush at h
  split at h
  · cases h
  · obtain rfl := List.mem_singleton.mp h
    trivial

theorem trimmed_ofPieces (pieces : List Piece) (line : Nat) (run : List Char) (after : Bool) :
    ∀ segment ∈ Segment.ofPieces line run after pieces, segment.Trimmed := by
  induction pieces generalizing line run after with
  | nil => exact fun segment => trimmed_of_flush
  | cons piece pieces ih =>
    intro segment hmem
    cases piece with
    | text chars => exact ih _ _ _ segment hmem
    | escape => exact ih _ _ _ segment hmem
    | comment chars =>
      rcases List.mem_append.mp hmem with hmem | hmem
      · exact trimmed_of_flush hmem
      · exact ih _ _ _ segment hmem
    | tag chars =>
      rcases List.mem_append.mp hmem with hmem | hmem
      · exact trimmed_of_flush hmem
      · rcases List.mem_cons.mp hmem with rfl | hmem
        · exact ofTag_trimmed line chars
        · exact ih _ _ _ segment hmem

/-- The tags of a source have no white space at the ends of their code. -/
theorem trimmed_of_scan {source : List Char} {segments : List Segment}
    (h : Segment.scan source = .ok segments) : ∀ segment ∈ segments, segment.Trimmed := by
  obtain ⟨pieces, hcut, rfl⟩ := cut_of_scan h
  obtain rfl := Except.ok.inj ((scan_sources hcut).symm.trans h)
  exact trimmed_ofPieces pieces 1 [] false

/-- **Every source is scanned in exactly one way, or ends inside a tag.** The source of pieces that can
be cut yields their segments; a source that is scanned is the source of one such list; and on any other
source the scan reports the tag that does not end. -/
theorem scan_exactly :
    (∀ pieces, Cut pieces → ∃ segments, Segment.scan (sources pieces) = .ok segments
      ∧ ∀ other, Yields 1 false pieces other ↔ other = segments)
    ∧ (∀ source segments, Segment.scan source = .ok segments →
      ∃! pieces, Cut pieces ∧ sources pieces = source)
    ∧ (∀ source, (¬∃ pieces, Cut pieces ∧ sources pieces = source) →
      ∃ front tail, Cut front ∧ source = sources front ++ '<' :: '%' :: tail
        ∧ Segment.scan source = .error ⟨1 + newlines (sources front), .unterminatedTag⟩) := by
  refine ⟨?_, ?_, ?_⟩
  · intro pieces hcut
    exact ⟨_, scan_sources hcut, yields_iff hcut 1 false⟩
  · intro source segments h
    obtain ⟨pieces, hcut, hsource⟩ := cut_of_scan h
    refine ⟨pieces, ⟨hcut, hsource⟩, ?_⟩
    rintro other ⟨hother, hsame⟩
    exact cut_unique hother hcut (hsame.trans hsource.symm)
  · intro source hnone
    cases h : Segment.scan source with
    | ok segments => exact absurd (cut_of_scan h) hnone
    | error e =>
      obtain ⟨front, tail, hcut, hsource, rfl⟩ := scan_error h
      exact ⟨front, tail, hcut, hsource, rfl⟩

/-- Pieces of every kind that meet at their delimiters: an escape beside a `<`, a quote in a comment, a
closing delimiter in a string, and line breaks of both kinds behind tags that trim. -/
def Piece.medley : List Piece :=
  [.text ['a', '<'], .escape, .comment ['\'', '-'], .text ['\n', '\n', 'b'],
   .tag ['=', ' ', '\'', '%', '>', '\'', '-'], .escape, .text ['\n'], .tag ['e', 'n', 'd', ' ', '-'],
   .comment [], .text ['\r', '\n'], .tag ['-'], .text ['\r', '\n']]

theorem medley_cut : Cut Piece.medley := by
  have hstring : TagText ['=', ' ', '\'', '%', '>', '\'', '-'] := by
    have hquoted : QuotedText '\'' ['%', '>'] :=
      .plain (by decide) (by decide) (.plain (by decide) (by decide) .nil)
    have hspan : TagText ('\'' :: (['%', '>'] ++ '\'' :: ['-'])) :=
      .span (Or.inl rfl) hquoted (.cons_quiet (by decide) .nil)
    exact .cons_quiet (by decide) (.cons_quiet (by decide) hspan)
  have hcomment : (Piece.comment ['\'', '-']).Proper := by
    show ¬['%', '>'] <:+: ['\'', '-']
    decide
  have hempty : (Piece.comment []).Proper := by
    show ¬['%', '>'] <:+: []
    decide
  exact ⟨⟨by decide, by decide⟩, fun _ => rfl, trivial, nofun, hcomment, nofun,
    ⟨by decide, by decide⟩, fun _ => rfl, ⟨hstring, '=', _, rfl, by decide, by decide⟩, nofun,
    trivial, nofun, ⟨by decide, by decide⟩, fun _ => rfl,
    ⟨.of_quiet (by decide), 'e', _, rfl, by decide, by decide⟩, nofun, hempty, nofun,
    ⟨by decide, by decide⟩, fun _ => rfl, ⟨.of_quiet (by decide), '-', _, rfl, by decide, by decide⟩,
    nofun, ⟨by decide, by decide⟩, fun _ => rfl, trivial⟩

/-- The medley is scanned as it was put together. -/
theorem scan_exactly_medley :
    Cut Piece.medley ∧ Segment.scan (sources Piece.medley)
      = .ok [.text ['a', '<', '<', '%'], .text ['\n', 'b'], .output 3 ['\'', '%', '>', '\''],
        .text ['<', '%', '\n'], .statement 4 ['e', 'n', 'd'], .text ['\r', '\n'], .statement 5 []] := by
  obtain ⟨segments, hscan, -⟩ := scan_exactly.1 Piece.medley medley_cut
  refine ⟨medley_cut, ?_⟩
  have hsegments : _ = segments := Except.ok.inj ((scan_sources medley_cut).symm.trans hscan)
  rw [hscan, ← hsegments]
  rfl

end Bindery.Template
