import Bindery.Proofs.Outcome
import Bindery.Proofs.Template.GrammarReading
import Bindery.Proofs.Template.Segmentation
import Bindery.Template.Block

/-!
# `Proofs.Template.FaultLines` — which tag a syntax error is about

A source that is no template has one tag that is responsible for it. If a tag never ends, it is the first such
tag, whatever is wrong in front of it. Otherwise it is the first tag whose content does not parse, or that does
not fit the blocks that are open there; and if there is none, it is the tag that opens the innermost of the
blocks that never end. The error is on the line where that tag starts.

The blocks that are open are described here without the tree that is built in them: by the source in front of
the tag that opens each, and by what it may still take (`Opening`). The invariant of the reader is that its
frames and the openings match one by one (`AllOpen`), so that a frame knows the line of its opening tag; it goes
over a list of pieces by induction on what the pieces pass (`run_of_passes`), whatever text has been gathered.

**Contents.**
* `Opening`, `Fits`, `Piece.meaning`, `Passes` — the blocks that are open behind some pieces;
* `Stops`, `NeverEnds`, `Responsible` — the tag that an error is about;
* `passes_or_stops` — pieces are passed, or there is a first one that is not;
* `AllOpen`, `apply_fits`, `run_of_passes` — the reader keeps the lines of the open blocks;
* `split_append` — the cut in front of what comes later;
* `parse_error_iff` — **a parse fails exactly at its responsible tag, and tells its line**.
-/

namespace Bindery.Template

open Bindery.Text Blocks

/-! ## Open blocks -/

/-- What an open block may still take. -/
inductive Stage where
  /-- a conditional that may get another test, or its `else` -/
  | tests
  /-- a conditional behind its `else` -/
  | otherwise
  | loop
deriving DecidableEq

/-- A block that is open: the source in front of its opening tag, and what it may still take. -/
structure Opening where
  before : List Char
  stage : Stage

/-- What is wrong when the block never ends. -/
def Opening.unclosed (opening : Opening) : SyntaxCause :=
  match opening.stage with
  | .tests | .otherwise => .unclosedIf
  | .loop => .unclosedLoop

/-- A statement behind some source fits the open blocks, innermost first, and leaves others open. -/
inductive Fits (before : List Char) : Statement → List Opening → List Opening → Prop
  | test {condition : Expr} {opened : List Opening} :
    Fits before (.test condition) opened (⟨before, .tests⟩ :: opened)
  | loop {name : String} {items : Expr} {opened : List Opening} :
    Fits before (.loop name items) opened (⟨before, .loop⟩ :: opened)
  | retest {condition : Expr} {first : List Char} {outer : List Opening} :
    Fits before (.retest condition) (⟨first, .tests⟩ :: outer) (⟨first, .tests⟩ :: outer)
  | otherwise {first : List Char} {outer : List Opening} :
    Fits before .otherwise (⟨first, .tests⟩ :: outer) (⟨first, .otherwise⟩ :: outer)
  | close {opening : Opening} {outer : List Opening} : Fits before .close (opening :: outer) outer

/-- What is wrong with a statement that does not fit. -/
def Statement.stray? : Statement → Option SyntaxCause
  | .test _ | .loop .. => none
  | .retest _ => some .strayElsif
  | .otherwise => some .strayElse
  | .close => some .strayEnd

/-- The line on which a source goes on. -/
def lineAfter (before : List Char) : Nat :=
  1 + newlines before

/-- The statement of a segment, if it has one. -/
def Segment.meaning : Segment → Except SyntaxError (Option Statement)
  | .text _ => .ok none
  | .output line code => (Expr.ofCode line code).map fun _ => none
  | .statement line code => (Statement.ofCode line code).map some

/-- The statement of a piece on a line, if it is a tag and has one. -/
def Piece.meaning (line : Nat) : Piece → Except SyntaxError (Option Statement)
  | .tag chars => (Segment.ofTag line chars).meaning
  | _ => .ok none

/-- Behind some source, every tag of the pieces is read and fits, and takes the blocks that are open in front of
them to those that are open behind them. -/
inductive Passes : List Char → List Opening → List Piece → List Opening → Prop
  | done {before : List Char} {opened : List Opening} : Passes before opened [] opened
  | silent {before : List Char} {opened opened' : List Opening} {piece : Piece} {rest : List Piece}
    (read : piece.meaning (lineAfter before) = .ok none)
    (more : Passes (before ++ piece.source) opened rest opened') : Passes before opened (piece :: rest) opened'
  | statement {before : List Char} {opened next opened' : List Opening} {piece : Piece} {rest : List Piece}
    {statement : Statement} (read : piece.meaning (lineAfter before) = .ok (some statement))
    (fits : Fits before statement opened next)
    (more : Passes (before ++ piece.source) next rest opened') : Passes before opened (piece :: rest) opened'

/-! ## The responsible tag -/

/-- Behind some source, a piece does not parse, or does not fit the open blocks. -/
inductive Stops (before : List Char) (opened : List Opening) (piece : Piece) : SyntaxCause → Prop
  | misread {cause : SyntaxCause} (wrong : piece.meaning (lineAfter before) = .error ⟨lineAfter before, cause⟩) :
    Stops before opened piece cause
  | misfit {statement : Statement} {cause : SyntaxCause}
    (read : piece.meaning (lineAfter before) = .ok (some statement)) (stray : statement.stray? = some cause)
    (unfit : ∀ next, ¬Fits before statement opened next) : Stops before opened piece cause

/-- What starts here is a tag or a comment, but it has no end. -/
def NeverEnds (s : List Char) : Prop :=
  (∃ tail, s = '<' :: '%' :: tail) ∧
    ∀ piece : Piece, piece.Proper → piece.isText = false → ∀ rest, s ≠ piece.source ++ rest

/-- The tag behind `before` is responsible for the source being no template. -/
inductive Responsible (source : List Char) : (before : List Char) → SyntaxCause → Prop
  /-- the first tag that never ends, whatever is in front of it -/
  | unterminated {front : List Piece} {tail : List Char} (cut : Cut front) (whole : source = sources front ++ tail)
    (unended : NeverEnds tail) : Responsible source (sources front) .unterminatedTag
  /-- the first tag that does not parse or does not fit, if all tags end -/
  | wrong {front back : List Piece} {piece : Piece} {opened : List Opening} {cause : SyntaxCause}
    (cut : Cut (front ++ piece :: back)) (whole : source = sources (front ++ piece :: back))
    (passes : Passes [] [] front opened) (stops : Stops (sources front) opened piece cause) :
    Responsible source (sources front) cause
  /-- the tag that opens the innermost block that never ends, if there is nothing else wrong -/
  | unclosed {pieces : List Piece} {opening : Opening} {outer : List Opening} (cut : Cut pieces)
    (whole : source = sources pieces) (passes : Passes [] [] pieces (opening :: outer)) :
    Responsible source opening.before opening.unclosed

variable {before : List Char} {opened opened' next : List Opening} {piece : Piece} {front pieces : List Piece}
  {statement : Statement} {blocks blocks' : Blocks} {line : Nat} {cause : SyntaxCause}

/-! ## Pieces are passed, or one of them stops -/

/-- A fault in a statement is one of the tag that holds it. -/
theorem line_of_statementCode {code : List Char} {fault : SyntaxError}
    (h : Statement.ofCode line code = .error fault) : fault.line = line := by
  unfold Statement.ofCode at h
  split at h
  · cases h
    rfl
  · split at h
    · split at h
      · cases h
      · cases h
        rfl
    · cases h
      rfl
    · cases h
      rfl

/-- A tag is an output or a statement on its line. -/
theorem ofTag_cases (line : Nat) (chars : List Char) :
    (∃ code, Segment.ofTag line chars = .output line code) ∨
      ∃ code, Segment.ofTag line chars = .statement line code := by
  unfold Segment.ofTag
  split
  · exact .inl ⟨_, rfl⟩
  · exact .inr ⟨_, rfl⟩

/-- A piece that cannot be read is at fault on its own line. -/
theorem line_of_meaning {fault : SyntaxError} (h : piece.meaning line = .error fault) : fault.line = line := by
  cases piece with
  | tag chars =>
    obtain ⟨code, hcode⟩ | ⟨code, hcode⟩ := ofTag_cases line chars
    · rw [Piece.meaning, hcode, Segment.meaning] at h
      cases hread : Expr.ofCode line code with
      | error fault' =>
        rw [hread] at h
        cases h
        exact Grammar.line_of_ofCode hread
      | ok e =>
        rw [hread] at h
        cases h
    · rw [Piece.meaning, hcode, Segment.meaning] at h
      cases hread : Statement.ofCode line code with
      | error fault' =>
        rw [hread] at h
        cases h
        exact line_of_statementCode hread
      | ok statement =>
        rw [hread] at h
        cases h
  | text _ | escape | comment _ => cases h

/-- Only a tag holds a statement. -/
theorem tag_of_statement (h : piece.meaning line = .ok (some statement)) : ∃ chars, piece = .tag chars := by
  cases piece with
  | tag chars => exact ⟨chars, rfl⟩
  | text _ | escape | comment _ => cases h

/-- Only a tag cannot be read. -/
theorem tag_of_error {fault : SyntaxError} (h : piece.meaning line = .error fault) : ∃ chars, piece = .tag chars := by
  cases piece with
  | tag chars => exact ⟨chars, rfl⟩
  | text _ | escape | comment _ => cases h

/-- A statement fits, or is a stray one. -/
theorem fits_or_stray (before : List Char) (statement : Statement) (opened : List Opening) :
    (∃ next, Fits before statement opened next) ∨
      ∃ cause, statement.stray? = some cause ∧ ∀ next, ¬Fits before statement opened next := by
  cases statement with
  | test condition => exact .inl ⟨_, .test⟩
  | loop name items => exact .inl ⟨_, .loop⟩
  | retest condition =>
    match opened with
    | ⟨first, .tests⟩ :: outer => exact .inl ⟨_, .retest⟩
    | [] | ⟨_, .otherwise⟩ :: _ | ⟨_, .loop⟩ :: _ => exact .inr ⟨_, rfl, nofun⟩
  | otherwise =>
    match opened with
    | ⟨first, .tests⟩ :: outer => exact .inl ⟨_, .otherwise⟩
    | [] | ⟨_, .otherwise⟩ :: _ | ⟨_, .loop⟩ :: _ => exact .inr ⟨_, rfl, nofun⟩
  | close =>
    match opened with
    | opening :: outer => exact .inl ⟨_, .close⟩
    | [] => exact .inr ⟨_, rfl, nofun⟩

/-- Pieces are passed, or there is a first one that is not. -/
theorem passes_or_stops (pieces : List Piece) : ∀ (before : List Char) (opened : List Opening),
    (∃ opened', Passes before opened pieces opened') ∨
      ∃ front piece back opened' cause, pieces = front ++ piece :: back ∧ Passes before opened front opened' ∧
        Stops (before ++ sources front) opened' piece cause := by
  induction pieces with
  | nil => exact fun before opened => .inl ⟨opened, .done⟩
  | cons piece rest ih =>
    intro before opened
    have stopped : ∀ cause, Stops before opened piece cause →
        ∃ front piece' back opened' cause, piece :: rest = front ++ piece' :: back ∧
          Passes before opened front opened' ∧ Stops (before ++ sources front) opened' piece' cause := by
      intro cause stops
      refine ⟨[], piece, rest, opened, cause, rfl, .done, ?_⟩
      rwa [sources, List.flatMap_nil, List.append_nil]
    -- what is found behind the piece is found behind the piece and what comes before it
    have later : ∀ next, (∀ {front opened'}, Passes (before ++ piece.source) next front opened' →
          Passes before opened (piece :: front) opened') →
        (∃ opened', Passes before opened (piece :: rest) opened') ∨
          ∃ front piece' back opened' cause, piece :: rest = front ++ piece' :: back ∧
            Passes before opened front opened' ∧ Stops (before ++ sources front) opened' piece' cause := by
      intro next extend
      obtain ⟨opened', passes⟩ | ⟨front, piece', back, opened', cause, rfl, passes, stops⟩ :=
        ih (before ++ piece.source) next
      · exact .inl ⟨opened', extend passes⟩
      · rw [List.append_assoc, ← sources_cons] at stops
        exact .inr ⟨piece :: front, piece', back, opened', cause, rfl, extend passes, stops⟩
    cases hread : piece.meaning (lineAfter before) with
    | error fault =>
      have hline := line_of_meaning hread
      exact .inr (stopped fault.cause (.misread (by rw [hread, ← hline])))
    | ok meant =>
      cases meant with
      | none => exact later opened (.silent hread)
      | some statement =>
        obtain ⟨next, fits⟩ | ⟨cause, stray, unfit⟩ := fits_or_stray before statement opened
        · exact later next (.statement hread fits)
        · exact .inr (stopped cause (.misfit hread stray unfit))

/-- Every block that is open behind some pieces was open in front of them, or a tag among them opens it. -/
theorem opening_of_passes (h : Passes before opened pieces opened') {opening : Opening}
    (hmem : opening ∈ opened') (hopened : ∀ first ∈ opened, ∃ tail,
      before ++ sources pieces = first.before ++ '<' :: '%' :: tail) :
    ∃ tail, before ++ sources pieces = opening.before ++ '<' :: '%' :: tail := by
  induction h with
  | done => exact hopened opening hmem
  | silent read more ih =>
    rw [sources_cons, ← List.append_assoc] at hopened ⊢
    exact ih hmem hopened
  | @statement before opened next opened' piece rest statement read fits more ih =>
    obtain ⟨chars, rfl⟩ := tag_of_statement read
    have hbefore : ∃ tail, before ++ sources (.tag chars :: rest) = before ++ '<' :: '%' :: tail := by
      rw [sources_cons, Piece.source]
      exact ⟨_, rfl⟩
    rw [sources_cons, ← List.append_assoc] at hopened hbefore ⊢
    refine ih hmem fun first hfirst => ?_
    cases fits with
    | test | loop =>
      obtain rfl | hfirst := List.mem_cons.mp hfirst
      · exact hbefore
      · exact hopened first hfirst
    | retest => exact hopened first hfirst
    | @otherwise opener outer =>
      -- the block goes on in another stage, but its opening tag is where it was
      obtain rfl | hfirst := List.mem_cons.mp hfirst
      · exact hopened ⟨opener, .tests⟩ List.mem_cons_self
      · exact hopened first (List.mem_cons_of_mem _ hfirst)
    | close => exact hopened first (List.mem_cons_of_mem _ hfirst)

/-- What is responsible is a tag, or a comment that never ends. -/
theorem opens_of_responsible {source : List Char} (h : Responsible source before cause) :
    ∃ tail, source = before ++ '<' :: '%' :: tail := by
  cases h with
  | unterminated cut whole unended =>
    obtain ⟨⟨tail, rfl⟩, -⟩ := unended
    exact ⟨tail, whole⟩
  | @wrong front back piece opened cause cut whole passes stops =>
    obtain ⟨chars, rfl⟩ : ∃ chars, piece = .tag chars := by
      cases stops with
      | misread wrong => exact tag_of_error wrong
      | misfit read => exact tag_of_statement read
    rw [whole, sources_append, sources_cons, Piece.source]
    exact ⟨_, rfl⟩
  | unclosed cut whole passes =>
    have hopening := opening_of_passes passes List.mem_cons_self fun _ h => absurd h List.not_mem_nil
    rw [whole]
    exact hopening

/-! ## The reader and the open blocks -/

/-- What the block may still take. -/
def Frame.stage : Frame → Stage
  | .branch .. => .tests
  | .otherwise .. => .otherwise
  | .loop .. => .loop

/-- The line of the tag that opens the block. -/
def Frame.openedOn : Frame → Nat
  | .branch line .. | .otherwise line .. | .loop line .. => line

@[simp] theorem Frame.stage_push (node : Node) (frame : Frame) : (frame.push node).stage = frame.stage := by
  cases frame <;> rfl

@[simp] theorem Frame.openedOn_push (node : Node) (frame : Frame) : (frame.push node).openedOn = frame.openedOn := by
  cases frame <;> rfl

/-- The opening is the one of the frame. -/
def Opens (frame : Frame) (opening : Opening) : Prop :=
  frame.stage = opening.stage ∧ frame.openedOn = lineAfter opening.before

/-- The open blocks of the reader are these, one by one. -/
def AllOpen (blocks : Blocks) (opened : List Opening) : Prop :=
  List.Forall₂ Opens blocks.stack opened

/-- At the start, no block is open. -/
theorem allOpen_start : AllOpen ⟨[], []⟩ [] := .nil

/-- A block that never ends is at fault on the line where it was opened. -/
theorem unclosed_of_opens {frame : Frame} {opening : Opening} (h : Opens frame opening) :
    frame.unclosed = ⟨lineAfter opening.before, opening.unclosed⟩ := by
  obtain ⟨first, stage⟩ := opening
  obtain ⟨hstage, hline⟩ := h
  cases frame <;> obtain rfl : _ = stage := hstage <;> obtain rfl : _ = lineAfter first := hline <;> rfl

/-- A node opens and closes nothing. -/
theorem AllOpen.push (h : AllOpen blocks opened) (node : Node) : AllOpen (blocks.push node) opened := by
  obtain ⟨done, stack⟩ := blocks
  cases h with
  | nil => exact .nil
  | cons hopens houter =>
    refine .cons ?_ houter
    simpa only [Opens, Frame.stage_push, Frame.openedOn_push] using hopens

/-- A statement that fits does to the open blocks what is said of it. -/
theorem apply_fits (h : AllOpen blocks opened) (fits : Fits before statement opened next) :
    ∃ blocks', blocks.apply (lineAfter before) statement = .ok blocks' ∧ AllOpen blocks' next := by
  obtain ⟨done, stack⟩ := blocks
  cases fits with
  | test => exact ⟨_, rfl, .cons ⟨rfl, rfl⟩ h⟩
  | loop => exact ⟨_, rfl, .cons ⟨rfl, rfl⟩ h⟩
  | retest =>
    cases h with
    | @cons frame _ outer _ hopens houter =>
      cases frame with
      | branch => exact ⟨_, rfl, .cons ⟨rfl, hopens.2⟩ houter⟩
      | otherwise | loop => cases hopens.1
  | otherwise =>
    cases h with
    | @cons frame _ outer _ hopens houter =>
      cases frame with
      | branch => exact ⟨_, rfl, .cons ⟨rfl, hopens.2⟩ houter⟩
      | otherwise | loop => cases hopens.1
  | close =>
    cases h with
    | @cons frame _ outer _ hopens houter =>
      have hrest : AllOpen ⟨done, outer⟩ next := houter
      exact ⟨_, rfl, hrest.push frame.node⟩

/-- A statement that does not fit is an error on its own line. -/
theorem apply_misfit (h : AllOpen blocks opened) (stray : statement.stray? = some cause)
    (unfit : ∀ next, ¬Fits before statement opened next) :
    blocks.apply line statement = .error ⟨line, cause⟩ := by
  obtain ⟨done, stack⟩ := blocks
  cases statement with
  | test | loop => cases stray
  | retest condition =>
    obtain rfl := Option.some.inj stray
    cases h with
    | nil => rfl
    | @cons frame opening outer _ hopens houter =>
      obtain ⟨first, stage⟩ := opening
      -- only a conditional that may still get tests could take it, and there it would fit
      cases frame with
      | branch =>
        obtain rfl : _ = stage := hopens.1
        exact absurd .retest (unfit _)
      | otherwise | loop => rfl
  | otherwise =>
    obtain rfl := Option.some.inj stray
    cases h with
    | nil => rfl
    | @cons frame opening outer _ hopens houter =>
      obtain ⟨first, stage⟩ := opening
      cases frame with
      | branch =>
        obtain rfl : _ = stage := hopens.1
        exact absurd .otherwise (unfit _)
      | otherwise | loop => rfl
  | close =>
    obtain rfl := Option.some.inj stray
    cases h with
    | nil => rfl
    | cons => exact absurd .close (unfit _)

/-! ## A run of the reader -/

/-- The step at a tag: what it says is read first, and then put to the open blocks. An output is a node there. -/
theorem step_ofTag (blocks : Blocks) (line : Nat) (chars : List Char) :
    ∃ node, blocks.step (Segment.ofTag line chars) =
      (Piece.tag chars).meaning line >>= fun meant => meant.elim (.ok (blocks.push node)) (blocks.apply line) := by
  obtain ⟨code, hcode⟩ | ⟨code, hcode⟩ := ofTag_cases line chars
  · rw [Piece.meaning, hcode, Segment.meaning, Blocks.step]
    cases Expr.ofCode line code with
    | error fault => exact ⟨.text "", rfl⟩
    | ok e => exact ⟨.output e, rfl⟩
  · rw [Piece.meaning, hcode, Segment.meaning, Blocks.step]
    refine ⟨.text "", ?_⟩
    cases Statement.ofCode line code <;> rfl

/-- A gathered text opens and closes nothing. -/
theorem exists_flush (h : AllOpen blocks opened) (run : List Char) :
    ∃ blocks', AllOpen blocks' opened ∧
      ∀ segments, (flush run ++ segments).foldlM step blocks = segments.foldlM step blocks' := by
  unfold flush
  split
  · exact ⟨blocks, h, fun _ => rfl⟩
  · exact ⟨blocks.push (.text (String.ofList run)), h.push _, fun _ => rfl⟩

/-- A piece that says nothing is read, and the reader goes on behind it. -/
theorem run_silent (h : AllOpen blocks opened) (read : piece.meaning line = .ok none) (run : List Char)
    (after : Bool) (back : List Piece) :
    ∃ blocks' run' after', AllOpen blocks' opened ∧
      (Segment.ofPieces line run after (piece :: back)).foldlM step blocks
        = (Segment.ofPieces (line + newlines piece.source) run' after' back).foldlM step blocks' := by
  cases piece with
  | text chars => exact ⟨blocks, _, false, h, rfl⟩
  | escape => exact ⟨blocks, _, false, h, rfl⟩
  | comment chars =>
    obtain ⟨blocks', h', hflush⟩ := exists_flush h run
    exact ⟨blocks', [], trims chars, h', hflush _⟩
  | tag chars =>
    obtain ⟨blocks', h', hflush⟩ := exists_flush h run
    obtain ⟨node, hstep⟩ := step_ofTag blocks' line chars
    refine ⟨blocks'.push node, [], trims chars, h'.push node, ?_⟩
    rw [Segment.ofPieces, hflush, List.foldlM_cons, hstep, read]
    rfl

/-- At a statement, the reader comes to the open blocks with it. -/
theorem run_statement (h : AllOpen blocks opened) (read : piece.meaning line = .ok (some statement))
    (run : List Char) (after : Bool) (back : List Piece) :
    ∃ blocks' after', AllOpen blocks' opened ∧
      (Segment.ofPieces line run after (piece :: back)).foldlM step blocks
        = blocks'.apply line statement >>=
          (Segment.ofPieces (line + newlines piece.source) [] after' back).foldlM step := by
  obtain ⟨chars, rfl⟩ := tag_of_statement read
  obtain ⟨blocks', h', hflush⟩ := exists_flush h run
  obtain ⟨node, hstep⟩ := step_ofTag blocks' line chars
  refine ⟨blocks', trims chars, h', ?_⟩
  rw [Segment.ofPieces, hflush, List.foldlM_cons, hstep, read]
  rfl

/-- **Over pieces that pass, the reader keeps the lines of the open blocks.** -/
theorem run_of_passes (passes : Passes before opened front opened') (back : List Piece) :
    ∀ {blocks}, AllOpen blocks opened → ∀ run after, ∃ blocks' run' after', AllOpen blocks' opened' ∧
      (Segment.ofPieces (lineAfter before) run after (front ++ back)).foldlM step blocks
        = (Segment.ofPieces (lineAfter (before ++ sources front)) run' after' back).foldlM step blocks' := by
  induction passes with
  | @done before opened =>
    intro blocks h run after
    rw [sources, List.flatMap_nil, List.append_nil]
    exact ⟨blocks, run, after, h, rfl⟩
  | @silent before opened opened' piece rest read more ih =>
    intro blocks h run after
    obtain ⟨blocks', run', after', h', hpiece⟩ := run_silent h read run after (rest ++ back)
    obtain ⟨blocks'', run'', after'', h'', hrest⟩ := ih h' run' after'
    refine ⟨blocks'', run'', after'', h'', ?_⟩
    rw [List.cons_append, hpiece, sources_cons, ← List.append_assoc, ← hrest, lineAfter, lineAfter,
      newlines_append, Nat.add_assoc]
  | @statement before opened next opened' piece rest statement read fits more ih =>
    intro blocks h run after
    -- whatever has been gathered is flushed at the tag, before the blocks change
    obtain ⟨blocks', after', h', hpiece⟩ := run_statement h read run after (rest ++ back)
    obtain ⟨blocks'', happly, h''⟩ := apply_fits h' fits
    obtain ⟨blocks₃, run₃, after₃, h₃, hrest⟩ := ih h'' [] after'
    refine ⟨blocks₃, run₃, after₃, h₃, ?_⟩
    rw [List.cons_append, hpiece, happly, sources_cons, ← List.append_assoc, ← hrest, lineAfter, lineAfter,
      newlines_append, Nat.add_assoc]
    rfl

/-- At a piece that stops, the reader stops. -/
theorem run_of_stops (stops : Stops before opened piece cause) (h : AllOpen blocks opened) (run : List Char)
    (after : Bool) (back : List Piece) :
    (Segment.ofPieces (lineAfter before) run after (piece :: back)).foldlM step blocks
      = .error ⟨lineAfter before, cause⟩ := by
  cases stops with
  | misread wrong =>
    obtain ⟨chars, rfl⟩ := tag_of_error wrong
    obtain ⟨blocks', -, hflush⟩ := exists_flush h run
    obtain ⟨node, hstep⟩ := step_ofTag blocks' (lineAfter before) chars
    rw [Segment.ofPieces, hflush, List.foldlM_cons, hstep, wrong]
    rfl
  | misfit read stray unfit =>
    obtain ⟨blocks', after', h', hpiece⟩ := run_statement h read run after back
    rw [hpiece, apply_misfit h' stray unfit]
    rfl

/-! ## Sources that end inside a tag -/

/-- The cut of pieces and of what comes behind them. -/
theorem split_append (cut : Cut front) {rest : List Char} (hrest : OpensTag rest) :
    ∀ line, Piece.split line (sources front ++ rest)
      = (Piece.split (line + newlines (sources front)) rest).map (front ++ ·) := by
  induction front with
  | nil =>
    intro line
    show Piece.split line rest = (Piece.split line rest).map id
    cases Piece.split line rest <;> rfl
  | cons piece front ih =>
    intro line
    obtain ⟨hproper, hnext, hfront⟩ := cut
    -- what comes behind begins a tag, so it cannot lengthen the piece in front
    have htake : Piece.next? (sources (piece :: front) ++ rest) = some (piece, sources front ++ rest) := by
      rw [sources_cons, List.append_assoc]
      exact next?_source hproper fun ht => (opensTag_sources (hnext ht)).append hrest
    have hne : sources (piece :: front) ++ rest ≠ [] := by
      intro hnil
      rw [hnil] at htake
      cases htake
    rw [Piece.split, if_neg hne]
    split
    · next hnone =>
      rw [htake] at hnone
      cases hnone
    · next piece' rest' hsome =>
      rw [htake] at hsome
      obtain ⟨rfl, rfl⟩ := Prod.mk.inj (Option.some.inj hsome)
      rw [ih hfront, newlines_sources_cons]
      cases Piece.split (line + newlines piece.source + newlines (sources front)) rest <;> rfl

/-- What never ends is what the cut stops at. -/
theorem neverEnds_iff {tail : List Char} :
    NeverEnds ('<' :: '%' :: tail) ↔ Piece.next? ('<' :: '%' :: tail) = none := by
  constructor
  · rintro ⟨-, unended⟩
    cases htake : Piece.next? ('<' :: '%' :: tail) with
    | none => rfl
    | some taken =>
      obtain ⟨piece, rest⟩ := taken
      exact absurd (Piece.source_append_of_next? htake).symm
        (unended piece (proper_of_next? htake).1 (isText_of_opener htake) rest)
  · intro hnone
    refine ⟨⟨tail, rfl⟩, fun piece proper htext rest whole => ?_⟩
    have hno : ¬piece.isText = true := Bool.eq_false_iff.mp htext
    rw [whole, next?_source proper fun ht => absurd ht hno] at hnone
    cases hnone

/-- A source with a tag that never ends fails there, whatever is in front of it. -/
theorem split_unterminated (cut : Cut front) {tail : List Char} (unended : NeverEnds tail) :
    Piece.split 1 (sources front ++ tail) = .error ⟨lineAfter (sources front), .unterminatedTag⟩ := by
  obtain ⟨tail, rfl⟩ := unended.1
  rw [split_append cut (.inr ⟨tail, rfl⟩), Piece.split, if_neg (List.cons_ne_nil _ _)]
  split
  · rfl
  · next hsome =>
    rw [neverEnds_iff.mp unended] at hsome
    cases hsome

/-! ## Syntax errors -/

/-- A cut source is read piece by piece. -/
theorem parse_of_cut {source : String} (cut : Cut pieces) (whole : source.toList = sources pieces) :
    parse source = ((Segment.ofPieces 1 [] false pieces).foldlM step ⟨[], []⟩) >>= Blocks.finish := by
  rw [parse, whole, scan_sources cut]
  rfl

/-- A source whose pieces all pass is a template if no block is open at its end. -/
theorem parse_of_passes {source : String} (cut : Cut pieces) (whole : source.toList = sources pieces)
    (passes : Passes [] [] pieces opened) :
    (opened = [] → ∃ nodes, parse source = .ok nodes) ∧
      ∀ opening outer, opened = opening :: outer →
        parse source = .error ⟨lineAfter opening.before, opening.unclosed⟩ := by
  obtain ⟨blocks, run, after, h, hrun⟩ := run_of_passes passes [] allOpen_start [] false
  rw [List.append_nil] at hrun
  obtain ⟨⟨done, stack⟩, h', hflush⟩ := exists_flush h run
  have hparse : parse source = Blocks.finish ⟨done, stack⟩ := by
    rw [parse_of_cut cut whole]
    have hlast := hflush []
    rw [List.append_nil] at hlast
    rw [show (1 : Nat) = lineAfter [] from rfl, hrun, Segment.ofPieces, hlast]
    rfl
  rw [hparse]
  constructor
  · rintro rfl
    cases h'
    exact ⟨_, rfl⟩
  · rintro opening outer rfl
    cases h' with
    | cons hopens =>
      rw [← unclosed_of_opens hopens]
      rfl

/-- What is responsible makes the parse fail, on the line where it starts. -/
theorem parse_of_responsible {source : String} (h : Responsible source.toList before cause) :
    parse source = .error ⟨lineAfter before, cause⟩ := by
  cases h with
  | unterminated cut whole unended =>
    rw [parse, Segment.scan, whole, split_unterminated cut unended]
    rfl
  | wrong cut whole passes stops =>
    obtain ⟨blocks, run, after, h, hrun⟩ := run_of_passes passes _ allOpen_start [] false
    rw [parse_of_cut cut whole, show (1 : Nat) = lineAfter [] from rfl, hrun, List.nil_append,
      run_of_stops stops h]
    rfl
  | unclosed cut whole passes => exact (parse_of_passes cut whole passes).2 _ _ rfl

/-- **A parse fails exactly at its responsible tag, and tells its line.** Something is wrong with a source if
and only if one of its tags is responsible for that, and the error is on the line where this tag starts. -/
theorem parse_error_iff (source : String) (fault : SyntaxError) :
    parse source = .error fault ↔
      ∃ before tail, source.toList = before ++ '<' :: '%' :: tail ∧
        Responsible source.toList before fault.cause ∧ fault.line = 1 + before.count '\n' := by
  constructor
  · intro hfault
    -- some tag is responsible, and the error that it makes is the one there is
    obtain ⟨before, cause, h⟩ : ∃ before cause, Responsible source.toList before cause := by
      cases hsplit : Piece.split 1 source.toList with
      | error e =>
        obtain ⟨front, tail, cut, whole, hnone, -⟩ := split_error hsplit
        exact ⟨_, _, .unterminated cut whole (neverEnds_iff.mpr hnone)⟩
      | ok pieces =>
        obtain ⟨cut, whole⟩ := cut_of_split hsplit
        obtain ⟨opened, passes⟩ | ⟨front, piece, back, opened, cause, rfl, passes, stops⟩ :=
          passes_or_stops pieces [] []
        · cases opened with
          | nil =>
            obtain ⟨nodes, hparse⟩ := (parse_of_passes cut whole.symm passes).1 rfl
            rw [hparse] at hfault
            cases hfault
          | cons opening outer => exact ⟨_, _, .unclosed cut whole.symm passes⟩
        · exact ⟨_, cause, .wrong cut whole.symm passes stops⟩
    obtain ⟨tail, hopens⟩ := opens_of_responsible h
    rw [parse_of_responsible h] at hfault
    cases hfault
    exact ⟨before, tail, hopens, h, rfl⟩
  · rintro ⟨before, tail, -, h, hline⟩
    rw [parse_of_responsible h, lineAfter, newlines, ← hline]

/-- A source with a tag that closes nothing, and behind it one that never ends. -/
def ajar : String :=
  "a\n<% end %>\n<%= b"

/-- The tag that never ends is responsible, and the one in front of it is not. -/
theorem parse_error_iff_ajar : parse ajar = .error ⟨3, .unterminatedTag⟩ := by
  have cut : Cut [.text ['a', '\n'], .tag [' ', 'e', 'n', 'd', ' '], .text ['\n']] :=
    ⟨⟨by decide, by decide⟩, fun _ => rfl, ⟨.of_quiet (by decide), ' ', _, rfl, by decide, by decide⟩, nofun,
      ⟨by decide, by decide⟩, fun _ => rfl, trivial⟩
  have unended : NeverEnds ['<', '%', '=', ' ', 'b'] := neverEnds_iff.mpr (by simp [Piece.next?, tagBody, prepend])
  have whole : ajar.toList = sources [.text ['a', '\n'], .tag [' ', 'e', 'n', 'd', ' '], .text ['\n']] ++
      ['<', '%', '=', ' ', 'b'] := by
    decide +kernel
  exact (parse_error_iff ajar _).mpr ⟨_, _, whole, .unterminated cut whole unended, rfl⟩

end Bindery.Template
