import Bindery.Template.Piece
import Bindery.Text.Blank

/-!
# `Bindery.Template.Segment` — the text and the tags of a source

What the block structure is built from. Adjacent text and escapes make one text, comments vanish, and
a tag or comment that ends in `-%>` takes the line break after it away.

**Contents.** `Segment`; `dropLineBreak` and `trims`, the `-%>` rule; `Segment.ofTag`, which tells
output from statements; `Segment.ofPieces` and `Segment.scan`.
-/

namespace Bindery.Template

open Bindery.Text

/-- A part of a source with its tag read off; tags carry their line. -/
inductive Segment where
  | text (chars : List Char)
  | output (line : Nat) (code : List Char)
  | statement (line : Nat) (code : List Char)
deriving DecidableEq, Repr

/-- The text less one line break at its start, if there is one there. -/
def dropLineBreak : List Char → List Char
  | '\r' :: '\n' :: rest => rest
  | '\n' :: rest => rest
  | s => s

/-- A tag or comment with these characters takes the line break after it away. -/
def trims (chars : List Char) : Bool :=
  chars.getLast? == some '-'

/-- The characters of a tag less one dash at the end. -/
def dropDash (chars : List Char) : List Char :=
  if trims chars then chars.dropLast else chars

/-- What a tag holds: an expression after `=`, otherwise a statement. -/
def Segment.ofTag (line : Nat) (chars : List Char) : Segment :=
  match dropDash chars with
  | '=' :: code => .output line (trim code)
  | code => .statement line (trim code)

/-- A gathered text as a segment, if there is any. -/
def flush (run : List Char) : List Segment :=
  if run = [] then [] else [.text run]

/-- Joins text, drops comments and reads tags. `run` is the text gathered so far, and `after` holds
right after a piece that takes the next line break away. -/
def Segment.ofPieces (line : Nat) (run : List Char) (after : Bool) : List Piece → List Segment
  | [] => flush run
  | piece :: rest =>
    let line' := line + newlines piece.source
    match piece with
    | .text chars =>
      Segment.ofPieces line' (run ++ if after then dropLineBreak chars else chars) false rest
    | .escape => Segment.ofPieces line' (run ++ ['<', '%']) false rest
    | .comment chars => flush run ++ Segment.ofPieces line' [] (trims chars) rest
    | .tag chars =>
      flush run ++ Segment.ofTag line chars :: Segment.ofPieces line' [] (trims chars) rest

/-- The segments of a source, or the line of its first tag that does not end. -/
def Segment.scan (source : List Char) : Except SyntaxError (List Segment) :=
  (Piece.split 1 source).map (Segment.ofPieces 1 [] false)

end Bindery.Template
