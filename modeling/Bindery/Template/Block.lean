import Bindery.Template.Segment
import Bindery.Template.Statement

/-!
# `Bindery.Template.Block` — from segments to a tree

Statement tags bracket blocks. The reader keeps the open blocks on a stack, innermost first, and puts
each finished node into the innermost open block.

**Contents.** `Frame`, an open block, and `Blocks`, the nodes finished so far with the blocks that are
still open; the effect of one statement and of one segment; `parse`, from source to tree.
-/

namespace Bindery.Template

/-- A block whose end has not come yet. Nodes and clauses are kept last first. -/
inductive Frame where
  /-- a conditional that is gathering the body of `test` -/
  | branch (line : Nat) (clauses : List (Expr × List Node)) (test : Expr) (body : List Node)
  /-- a conditional that is gathering what comes after its `else` -/
  | otherwise (line : Nat) (clauses : List (Expr × List Node)) (body : List Node)
  | loop (line : Nat) (name : String) (items : Expr) (body : List Node)

namespace Frame

/-- Puts a node into an open block. -/
def push (node : Node) : Frame → Frame
  | branch line clauses test body => .branch line clauses test (node :: body)
  | otherwise line clauses body => .otherwise line clauses (node :: body)
  | loop line name items body => .loop line name items (node :: body)

/-- The node of a block that ends here. -/
def node : Frame → Node
  | branch _ clauses test body => .branch ((test, body.reverse) :: clauses).reverse []
  | otherwise _ clauses body => .branch clauses.reverse body.reverse
  | loop _ name items body => .loop name items body.reverse

/-- What is wrong when a block never ends. -/
def unclosed : Frame → SyntaxError
  | branch line .. => ⟨line, .unclosedIf⟩
  | otherwise line .. => ⟨line, .unclosedIf⟩
  | loop line .. => ⟨line, .unclosedLoop⟩

end Frame

/-- A tree in the making. -/
structure Blocks where
  /-- the finished nodes outside of every open block, last first -/
  done : List Node
  /-- the open blocks, innermost first -/
  stack : List Frame

namespace Blocks

/-- Puts a finished node into the innermost open block. -/
def push (node : Node) (blocks : Blocks) : Blocks :=
  match blocks.stack with
  | [] => { blocks with done := node :: blocks.done }
  | frame :: outer => { blocks with stack := frame.push node :: outer }

/-- The effect of a statement on line `line`. -/
def apply (line : Nat) (statement : Statement) (blocks : Blocks) : Except SyntaxError Blocks :=
  match statement, blocks.stack with
  | .test condition, stack => .ok { blocks with stack := .branch line [] condition [] :: stack }
  | .loop name items, stack => .ok { blocks with stack := .loop line name items [] :: stack }
  | .retest condition, .branch opened clauses test body :: outer =>
    .ok { blocks with
      stack := .branch opened ((test, body.reverse) :: clauses) condition [] :: outer }
  | .retest _, _ => .error ⟨line, .strayElsif⟩
  | .otherwise, .branch opened clauses test body :: outer =>
    .ok { blocks with stack := .otherwise opened ((test, body.reverse) :: clauses) [] :: outer }
  | .otherwise, _ => .error ⟨line, .strayElse⟩
  | .close, frame :: outer => .ok (push frame.node { blocks with stack := outer })
  | .close, [] => .error ⟨line, .strayEnd⟩

/-- The effect of one segment. -/
def step (blocks : Blocks) : Segment → Except SyntaxError Blocks
  | .text chars => .ok (blocks.push (.text (String.ofList chars)))
  | .output line code => do return blocks.push (.output (← Expr.ofCode line code))
  | .statement line code => do blocks.apply line (← Statement.ofCode line code)

/-- The tree, if every block has ended; otherwise the innermost open block is at fault. -/
def finish (blocks : Blocks) : Except SyntaxError (List Node) :=
  match blocks.stack with
  | [] => .ok blocks.done.reverse
  | frame :: _ => .error frame.unclosed

/-- The tree of segments. -/
def ofSegments (segments : List Segment) : Except SyntaxError (List Node) := do
  (← segments.foldlM step ⟨[], []⟩).finish

end Blocks

/-- Reads a template's source. -/
def parse (source : String) : Except SyntaxError (List Node) := do
  Blocks.ofSegments (← Segment.scan source.toList)

end Bindery.Template
