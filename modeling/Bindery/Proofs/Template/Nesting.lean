import Bindery.Proofs.Outcome
import Bindery.Proofs.Template.RoundTrip
import Bindery.Proofs.Template.Segmentation
import Bindery.Proofs.Template.StatementGrammar

/-!
# `Proofs.Template.Nesting` — blocks are read exactly if they are well nested

The block reader keeps a stack of open blocks. That stack is described by what may still come: `Completes`
tells which tokens close the open blocks, innermost first, each with the grammar of its own rest. A step
of the reader forwards becomes a rule of the grammar backwards, so whatever is read to the end is well
nested (`completes_of_run`). In the other direction the induction is on the grammar, and its invariant
gives the nodes that well-nested tokens put into the innermost open block (`builds_of_nested`).

```text
items   = (text | output | block)*
block   = ('if' | 'unless') items clauses ending | ('for' | 'each') items 'end'
clauses = ('elsif' items)*
ending  = 'end' | 'else' items 'end'
```

**Contents.**
* `Token` and `Segment.Spells` — what the segments of a source say, in their wording;
* `Nested` — the grammar of blocks;
* `dropEmptyElse` — the one thing that a tree does not keep;
* `Builds` and `builds_of_nested`, `Completes` and `completes_of_run` — the two directions;
* `parse_iff_nested` — **a template is read exactly if it is well nested, and nothing of it is lost**.
-/

namespace Bindery.Template

open Bindery.Text Grammar Blocks

/-! ## Tokens -/

/-- What one tag or one run of text says, in its wording. -/
inductive Token where
  | text (text : String)
  | output (value : Expr)
  | statement (wording : Wording)

/-- What a token contributes to a template, whatever its wording. -/
def Token.item : Token → Item
  | text s => .text s
  | output e => .output e
  | statement w => .statement w.statement

/-- The segment spells the token, from the first character of its code to the last. -/
def Segment.Spells : Segment → Token → Prop
  | .text chars, .text s => String.ofList chars = s
  | .output _ code, .output e => Derives .disjunction code e []
  | .statement _ code, .statement w => Grammar.Spells w code []
  | _, _ => False

/-- The tag can be read on its own. -/
def Segment.Parses : Segment → Prop
  | .text _ => True
  | .output line code => ∃ e, Expr.ofCode line code = .ok e
  | .statement line code => ∃ st, Statement.ofCode line code = .ok st

/-- Trimmed code that is read on its own spells a token. -/
theorem spells_of_parses {segment : Segment} (ht : segment.Trimmed) (h : segment.Parses) :
    ∃ token, segment.Spells token := by
  cases segment with
  | text chars => exact ⟨.text (String.ofList chars), rfl⟩
  | output line code =>
    obtain ⟨e, he⟩ := h
    exact ⟨.output e, (ofCode_eq_ok line ht).mp he⟩
  | statement line code =>
    obtain ⟨st, hst⟩ := h
    obtain ⟨w, hw, -⟩ := (statementCode_eq_ok line ht st).mp hst
    exact ⟨.statement w, hw⟩

/-- What a segment spells is what it says. -/
theorem says_of_spells {segment : Segment} {token : Token} (ht : segment.Trimmed)
    (h : segment.Spells token) : segment.Says token.item := by
  cases segment with
  | text chars =>
    cases token with
    | text s => exact h
    | output e => exact h.elim
    | statement w => exact h.elim
  | output line code =>
    cases token with
    | text s => exact h.elim
    | output e => exact (ofCode_eq_ok line ht).mpr h
    | statement w => exact h.elim
  | statement line code =>
    cases token with
    | text s => exact h.elim
    | output e => exact h.elim
    | statement w => exact (statementCode_eq_ok line ht _).mpr ⟨w, h, rfl⟩

/-- A tag that cannot be read on its own is the same error for all blocks. -/
theorem step_broken {segment : Segment} (h : ¬segment.Parses) :
    ∃ fault, ∀ blocks : Blocks, blocks.step segment = .error fault := by
  cases segment with
  | text chars => exact absurd trivial h
  | output line code =>
    cases hread : Expr.ofCode line code with
    | ok e => exact absurd ⟨e, hread⟩ h
    | error fault =>
      refine ⟨fault, fun blocks => ?_⟩
      rw [Blocks.step, hread]
      rfl
  | statement line code =>
    cases hread : Statement.ofCode line code with
    | ok statement => exact absurd ⟨statement, hread⟩ h
    | error fault =>
      refine ⟨fault, fun blocks => ?_⟩
      rw [Blocks.step, hread]
      rfl

/-- Tags over which the reader has gone can all be read on their own. -/
theorem parses_of_run {segments : List Segment} {blocks last : Blocks}
    (h : segments.foldlM step blocks = .ok last) : ∀ segment ∈ segments, segment.Parses := by
  induction segments generalizing blocks with
  | nil => exact fun segment hmem => absurd hmem List.not_mem_nil
  | cons first rest ih =>
    rw [List.foldlM_cons, bind_eq_ok] at h
    obtain ⟨next, hstep, hrest⟩ := h
    intro segment hmem
    rcases List.mem_cons.mp hmem with rfl | hmem
    · by_contra hbroken
      obtain ⟨fault, hfault⟩ := step_broken hbroken
      rw [hfault] at hstep
      cases hstep
    · exact ih hrest segment hmem

theorem exists_tokens {segments : List Segment} (ht : ∀ segment ∈ segments, segment.Trimmed)
    (h : ∀ segment ∈ segments, segment.Parses) :
    ∃ tokens, List.Forall₂ Segment.Spells segments tokens := by
  induction segments with
  | nil => exact ⟨[], .nil⟩
  | cons segment segments ih =>
    obtain ⟨token, htoken⟩ :=
      spells_of_parses (ht segment List.mem_cons_self) (h segment List.mem_cons_self)
    obtain ⟨tokens, htokens⟩ := ih (fun s hs => ht s (List.mem_cons_of_mem _ hs))
      fun s hs => h s (List.mem_cons_of_mem _ hs)
    exact ⟨token :: tokens, .cons htoken htokens⟩

theorem says_tokens {segments : List Segment} {tokens : List Token}
    (h : List.Forall₂ Segment.Spells segments tokens) (ht : ∀ segment ∈ segments, segment.Trimmed) :
    List.Forall₂ (fun segment token => segment.Says token.item) segments tokens := by
  induction h with
  | nil => exact .nil
  | cons hspells _ ih =>
    exact .cons (says_of_spells (ht _ List.mem_cons_self) hspells)
      (ih fun s hs => ht s (List.mem_cons_of_mem _ hs))

/-! ## Well-nested tokens -/

/-- The wording opens a conditional block. -/
def Grammar.Wording.OpensTest : Wording → Prop
  | ifTest _ => True
  | unlessTest _ => True
  | _ => False

/-- The wording opens a loop. -/
def Grammar.Wording.OpensLoop : Wording → Prop
  | forLoop _ _ => True
  | eachLoop _ _ _ => True
  | _ => False

/-- The parts of the grammar of blocks. -/
inductive Part where
  | items
  | clauses
  | ending

/-- The tokens are well nested, as that part of the grammar. -/
inductive Nested : Part → List Token → Prop
  | nil : Nested .items []
  | text {s : String} {rest : List Token} (more : Nested .items rest) : Nested .items (.text s :: rest)
  | output {e : Expr} {rest : List Token} (more : Nested .items rest) :
    Nested .items (.output e :: rest)
  | conditional {w : Wording} {body clauses ending rest : List Token} (opening : w.OpensTest)
    (inner : Nested .items body) (others : Nested .clauses clauses) (last : Nested .ending ending)
    (more : Nested .items rest) :
    Nested .items (.statement w :: (body ++ (clauses ++ (ending ++ rest))))
  | loop {w : Wording} {body rest : List Token} (opening : w.OpensLoop) (inner : Nested .items body)
    (more : Nested .items rest) :
    Nested .items (.statement w :: (body ++ .statement .endWord :: rest))
  | done : Nested .clauses []
  | clause {e : Expr} {body clauses : List Token} (inner : Nested .items body)
    (others : Nested .clauses clauses) :
    Nested .clauses (.statement (.elsifTest e) :: (body ++ clauses))
  | close : Nested .ending [.statement .endWord]
  | otherwise {body : List Token} (inner : Nested .items body) :
    Nested .ending (.statement .elseWord :: (body ++ [.statement .endWord]))

/-- The items without every `else` that an `end` follows directly. -/
def dropEmptyElse : List Item → List Item
  | .statement .otherwise :: .statement .close :: rest => .statement .close :: dropEmptyElse rest
  | item :: rest => item :: dropEmptyElse rest
  | [] => []

/-! ## Well-nested tokens are read -/

/-- The items of tokens. -/
def itemsOf (tokens : List Token) : List Item :=
  tokens.map Token.item

theorem itemsOf_append (front rest : List Token) :
    itemsOf (front ++ rest) = itemsOf front ++ itemsOf rest := List.map_append

/-- What well-nested tokens become: nodes in the innermost open block, clauses of the open conditional,
or its end; and the items of that are the items of the tokens. -/
def Builds : Part → List Token → Prop
  | .items, tokens => ∃ nodes : List Node,
    (∀ blocks, Reads (itemsOf tokens) blocks (· = pushAll nodes blocks))
    ∧ (∀ tail, dropEmptyElse (itemsOf tokens ++ tail) = itemsAll nodes ++ dropEmptyElse tail)
    ∧ (nodes = [] ↔ tokens = [])
  | .clauses, tokens => ∃ clauses : List (Expr × List Node),
    (∀ done outer line front test body,
      Reads (itemsOf tokens) ⟨done, .branch line front test body :: outer⟩ fun blocks =>
        ∃ front' test' body', blocks = ⟨done, .branch line front' test' body' :: outer⟩
          ∧ ((test', body'.reverse) :: front').reverse
            = ((test, body.reverse) :: front).reverse ++ clauses)
    ∧ ∀ tail, dropEmptyElse (itemsOf tokens ++ tail)
      = itemsClauses Statement.retest clauses ++ dropEmptyElse tail
  | .ending, tokens => ∃ otherwise : List Node,
    (∀ done outer line clauses test body,
      Reads (itemsOf tokens) ⟨done, .branch line clauses test body :: outer⟩
        (· = Blocks.push (.branch ((test, body.reverse) :: clauses).reverse otherwise) ⟨done, outer⟩))
    ∧ ∀ tail, dropEmptyElse (itemsOf tokens ++ tail)
      = (if otherwise.isEmpty then [] else .statement .otherwise :: itemsAll otherwise)
        ++ .statement .close :: dropEmptyElse tail

theorem opensTest_statement {w : Wording} (h : w.OpensTest) : ∃ test, w.statement = .test test := by
  cases w with
  | ifTest e => exact ⟨e, rfl⟩
  | unlessTest e => exact ⟨.not e, rfl⟩
  | _ => exact h.elim

theorem opensLoop_statement {w : Wording} (h : w.OpensLoop) :
    ∃ name items, w.statement = .loop name items := by
  cases w with
  | forLoop name items => exact ⟨name, items, rfl⟩
  | eachLoop name head fields => exact ⟨name, .var head fields, rfl⟩
  | _ => exact h.elim

/-- A token that is a node of its own. -/
theorem builds_leaf {token : Token} {rest : List Token} {node : Node}
    (hread : ∀ line blocks, take line token.item blocks = .ok (blocks.push node))
    (hitems : node.items = [token.item])
    (hkeep : ∀ tail, dropEmptyElse (token.item :: tail) = token.item :: dropEmptyElse tail)
    (h : Builds .items rest) : Builds .items (token :: rest) := by
  obtain ⟨nodes, hnodes, htail, -⟩ := h
  refine ⟨node :: nodes, ?_, ?_, by simp⟩
  · intro blocks
    exact Reads.cons fun line => ⟨_, hread line blocks, hnodes _⟩
  · intro tail
    show dropEmptyElse (token.item :: (itemsOf rest ++ tail)) = _
    rw [hkeep, htail, itemsAll, hitems]
    rfl

/-- A conditional with all its parts. -/
theorem builds_conditional {w : Wording} {body clauses ending rest : List Token} (hw : w.OpensTest)
    (hbody : Builds .items body) (hclauses : Builds .clauses clauses) (hending : Builds .ending ending)
    (hrest : Builds .items rest) :
    Builds .items (.statement w :: (body ++ (clauses ++ (ending ++ rest)))) := by
  obtain ⟨test, htest⟩ := opensTest_statement hw
  obtain ⟨bodyNodes, hbody, hbodyTail, -⟩ := hbody
  obtain ⟨others, hclauses, hclausesTail⟩ := hclauses
  obtain ⟨otherwise, hending, hendingTail⟩ := hending
  obtain ⟨nodes, hnodes, htail, -⟩ := hrest
  have hsplit : itemsOf (.statement w :: (body ++ (clauses ++ (ending ++ rest))))
      = .statement (.test test)
        :: (itemsOf body ++ (itemsOf clauses ++ (itemsOf ending ++ itemsOf rest))) := by
    rw [← htest, ← itemsOf_append, ← itemsOf_append, ← itemsOf_append]
    rfl
  refine ⟨.branch ((test, bodyNodes) :: others) otherwise :: nodes, ?_, ?_, by simp⟩
  -- part by part: each leaves the frame on the stack that the next one expects
  · rintro ⟨done, outer⟩
    rw [hsplit]
    refine Reads.cons fun line => ⟨_, rfl, ?_⟩
    refine Reads.append (hbody _) ?_
    rintro blocks rfl
    rw [pushAll_open, Frame.gather, List.append_nil]
    refine Reads.append (hclauses done outer line [] test bodyNodes.reverse) ?_
    rintro blocks ⟨front, last, lastBody, rfl, hfront⟩
    refine Reads.append (hending done outer line front last lastBody) ?_
    rintro blocks rfl
    rw [hfront, List.reverse_reverse]
    exact hnodes _
  · intro tail
    rw [hsplit]
    show Item.statement (.test test) :: dropEmptyElse (itemsOf body ++ _ ++ tail) = _
    rw [List.append_assoc, List.append_assoc, List.append_assoc, hbodyTail, hclausesTail, hendingTail,
      htail]
    simp [itemsAll, Node.items, itemsClauses]

/-- A loop. -/
theorem builds_loop {w : Wording} {body rest : List Token} (hw : w.OpensLoop)
    (hbody : Builds .items body) (hrest : Builds .items rest) :
    Builds .items (.statement w :: (body ++ .statement .endWord :: rest)) := by
  obtain ⟨name, items, hloop⟩ := opensLoop_statement hw
  obtain ⟨bodyNodes, hbody, hbodyTail, -⟩ := hbody
  obtain ⟨nodes, hnodes, htail, -⟩ := hrest
  have hsplit : itemsOf (.statement w :: (body ++ .statement .endWord :: rest))
      = .statement (.loop name items) :: (itemsOf body ++ .statement .close :: itemsOf rest) := by
    rw [← hloop]
    exact congrArg (List.cons _) (itemsOf_append body _)
  refine ⟨.loop name items bodyNodes :: nodes, ?_, ?_, by simp⟩
  · rintro ⟨done, outer⟩
    rw [hsplit]
    refine Reads.cons fun line => ⟨_, rfl, ?_⟩
    refine Reads.append (hbody _) ?_
    rintro blocks rfl
    refine Reads.cons fun line' => ?_
    rw [pushAll_open, Frame.gather, List.append_nil]
    refine ⟨_, rfl, ?_⟩
    have hnode : Frame.node (.loop line name items bodyNodes.reverse) = .loop name items bodyNodes := by
      rw [Frame.node, List.reverse_reverse]
    rw [hnode]
    exact hnodes _
  · intro tail
    rw [hsplit]
    show Item.statement (.loop name items) :: dropEmptyElse (itemsOf body ++ _ ++ tail) = _
    rw [List.append_assoc, hbodyTail]
    show _ :: (itemsAll bodyNodes ++ .statement .close :: dropEmptyElse (itemsOf rest ++ tail)) = _
    rw [htail]
    simp [itemsAll, Node.items]

/-- One more clause. -/
theorem builds_clause {e : Expr} {body clauses : List Token} (hbody : Builds .items body)
    (hclauses : Builds .clauses clauses) :
    Builds .clauses (.statement (.elsifTest e) :: (body ++ clauses)) := by
  obtain ⟨bodyNodes, hbody, hbodyTail, -⟩ := hbody
  obtain ⟨others, hclauses, hclausesTail⟩ := hclauses
  have hsplit : itemsOf (.statement (.elsifTest e) :: (body ++ clauses))
      = .statement (.retest e) :: (itemsOf body ++ itemsOf clauses) :=
    congrArg (List.cons _) (itemsOf_append body clauses)
  refine ⟨(e, bodyNodes) :: others, ?_, ?_⟩
  · intro done outer line front test inner
    rw [hsplit]
    refine Reads.cons fun line' => ⟨_, rfl, ?_⟩
    refine Reads.append (hbody _) ?_
    rintro blocks rfl
    rw [pushAll_open, Frame.gather, List.append_nil]
    have hmore := hclauses done outer line ((test, inner.reverse) :: front) e bodyNodes.reverse
    simpa using hmore
  · intro tail
    rw [hsplit]
    show Item.statement (.retest e) :: dropEmptyElse (itemsOf body ++ _ ++ tail) = _
    rw [List.append_assoc, hbodyTail, hclausesTail]
    simp [itemsClauses]

/-- An `end` without an `else`. -/
theorem builds_close : Builds .ending [.statement .endWord] := by
  refine ⟨[], ?_, fun tail => rfl⟩
  intro done outer line clauses test body
  exact Reads.item fun line' => ⟨_, rfl, rfl⟩

/-- Well-nested items do not start with an `end`. -/
theorem dropEmptyElse_otherwise {body : List Token} (h : Nested .items body) (hne : body ≠ [])
    (tail : List Item) : dropEmptyElse (.statement .otherwise :: (itemsOf body ++ tail))
      = .statement .otherwise :: dropEmptyElse (itemsOf body ++ tail) := by
  cases h with
  | nil => exact absurd rfl hne
  | text _ => rfl
  | output _ => rfl
  | @conditional w _ _ _ _ hw _ _ _ _ =>
    obtain ⟨test, htest⟩ := opensTest_statement hw
    rw [itemsOf, List.map_cons, Token.item, htest]
    rfl
  | @loop w _ _ hw _ _ =>
    obtain ⟨name, items, hloop⟩ := opensLoop_statement hw
    rw [itemsOf, List.map_cons, Token.item, hloop]
    rfl

/-- An `else` with what comes after it. -/
theorem builds_otherwise {body : List Token} (hnested : Nested .items body)
    (hbody : Builds .items body) :
    Builds .ending (.statement .elseWord :: (body ++ [.statement .endWord])) := by
  obtain ⟨nodes, hnodes, htail, hempty⟩ := hbody
  have hsplit : itemsOf (.statement .elseWord :: (body ++ [.statement .endWord]))
      = .statement .otherwise :: (itemsOf body ++ [.statement .close]) :=
    congrArg (List.cons _) (itemsOf_append body _)
  refine ⟨nodes, ?_, ?_⟩
  · intro done outer line clauses test inner
    rw [hsplit]
    refine Reads.cons fun line' => ⟨_, rfl, ?_⟩
    refine Reads.append (hnodes _) ?_
    rintro blocks rfl
    refine Reads.item fun line'' => ?_
    rw [pushAll_open, Frame.gather, List.append_nil]
    refine ⟨_, rfl, ?_⟩
    show Blocks.push (.branch _ nodes.reverse.reverse) ⟨done, outer⟩ = _
    rw [List.reverse_reverse]
  · intro tail
    rw [hsplit, List.cons_append, List.append_assoc]
    -- an `else` without a body is dropped from the items, since the node does not have it
    cases body with
    | nil =>
      obtain rfl := hempty.mpr rfl
      rfl
    | cons token body =>
      have hne : nodes ≠ [] := fun hnil => List.cons_ne_nil token body (hempty.mp hnil)
      have hfull : nodes.isEmpty = false := by simpa using hne
      rw [dropEmptyElse_otherwise hnested (List.cons_ne_nil token body), htail, hfull]
      rfl

/-- **Well-nested tokens are read**, and what they become has their items. -/
theorem builds_of_nested {part : Part} {tokens : List Token} (h : Nested part tokens) :
    Builds part tokens := by
  induction h with
  | nil => exact ⟨[], fun blocks => Reads.nil rfl, fun tail => rfl, by simp⟩
  | text _ ih => exact builds_leaf (fun line blocks => rfl) rfl (fun tail => rfl) ih
  | output _ ih => exact builds_leaf (fun line blocks => rfl) rfl (fun tail => rfl) ih
  | conditional hw _ _ _ _ ihbody ihclauses ihending ihrest =>
    exact builds_conditional hw ihbody ihclauses ihending ihrest
  | loop hw _ _ ihbody ihrest => exact builds_loop hw ihbody ihrest
  | done =>
    refine ⟨[], ?_, fun tail => rfl⟩
    intro done outer line front test body
    exact Reads.nil ⟨front, test, body, rfl, (List.append_nil _).symm⟩
  | clause _ _ ihbody ihclauses => exact builds_clause ihbody ihclauses
  | close => exact builds_close
  | otherwise hnested ih => exact builds_otherwise hnested ih

/-! ## What is read is well nested -/

/-- The tokens complete the open blocks: the rest of the innermost one with its end, and so on outwards. -/
def Completes : List Frame → List Token → Prop
  | [], tokens => Nested .items tokens
  | .branch .. :: outer, tokens => ∃ body clauses ending rest,
    tokens = body ++ (clauses ++ (ending ++ rest)) ∧ Nested .items body ∧ Nested .clauses clauses
      ∧ Nested .ending ending ∧ Completes outer rest
  | .otherwise .. :: outer, tokens => ∃ body rest,
    tokens = body ++ .statement .endWord :: rest ∧ Nested .items body ∧ Completes outer rest
  | .loop .. :: outer, tokens => ∃ body rest,
    tokens = body ++ .statement .endWord :: rest ∧ Nested .items body ∧ Completes outer rest

/-- A node in an open block changes nothing about what completes it. -/
theorem completes_push {node : Node} {blocks : Blocks} {tokens : List Token}
    (h : Completes (blocks.push node).stack tokens) : Completes blocks.stack tokens := by
  obtain ⟨done, stack⟩ := blocks
  cases stack with
  | nil => exact h
  | cons frame outer => cases frame <;> exact h

/-- What may stand in front of well-nested items may stand in front of what completes the open blocks. -/
theorem completes_append (front : List Token) {tokens : List Token}
    (hfront : ∀ rest, Nested .items rest → Nested .items (front ++ rest)) {stack : List Frame}
    (h : Completes stack tokens) : Completes stack (front ++ tokens) := by
  cases stack with
  | nil => exact hfront tokens h
  | cons frame outer =>
    cases frame with
    | branch line done test inner =>
      obtain ⟨body, clauses, ending, rest, rfl, hbody, hmore⟩ := h
      exact ⟨front ++ body, clauses, ending, rest, (List.append_assoc _ _ _).symm, hfront body hbody,
        hmore⟩
    | otherwise line done inner =>
      obtain ⟨body, rest, rfl, hbody, hmore⟩ := h
      exact ⟨front ++ body, rest, (List.append_assoc _ _ _).symm, hfront body hbody, hmore⟩
    | loop line name items inner =>
      obtain ⟨body, rest, rfl, hbody, hmore⟩ := h
      exact ⟨front ++ body, rest, (List.append_assoc _ _ _).symm, hfront body hbody, hmore⟩

theorem completes_conditional {w : Wording} (hw : w.OpensTest) {line : Nat}
    {done : List (Expr × List Node)} {test : Expr} {inner : List Node} {stack : List Frame}
    {tokens : List Token} (h : Completes (.branch line done test inner :: stack) tokens) :
    Completes stack (.statement w :: tokens) := by
  obtain ⟨body, clauses, ending, rest, rfl, hbody, hclauses, hending, hrest⟩ := h
  have hblock := completes_append (.statement w :: (body ++ (clauses ++ ending)))
    (fun more hmore => by simpa using Nested.conditional hw hbody hclauses hending hmore) hrest
  simpa using hblock

theorem completes_loop {w : Wording} (hw : w.OpensLoop) {line : Nat} {name : String} {items : Expr}
    {inner : List Node} {stack : List Frame} {tokens : List Token}
    (h : Completes (.loop line name items inner :: stack) tokens) :
    Completes stack (.statement w :: tokens) := by
  obtain ⟨body, rest, rfl, hbody, hrest⟩ := h
  have hblock := completes_append (.statement w :: (body ++ [.statement .endWord]))
    (fun more hmore => by simpa using Nested.loop hw hbody hmore) hrest
  simpa using hblock

/-- An `elsif` goes on with the clauses of the innermost block. -/
theorem completes_clause {line line' : Nat} {done done' : List (Expr × List Node)} {test test' e : Expr}
    {inner inner' : List Node} {outer : List Frame} {tokens : List Token}
    (h : Completes (.branch line done test inner :: outer) tokens) :
    Completes (.branch line' done' test' inner' :: outer) (.statement (.elsifTest e) :: tokens) := by
  obtain ⟨body, clauses, ending, rest, rfl, hbody, hclauses, hrest⟩ := h
  refine ⟨[], .statement (.elsifTest e) :: (body ++ clauses), ending, rest, ?_, .nil,
    .clause hbody hclauses, hrest⟩
  simp

/-- An `else` is the ending of the innermost block, which has no further clauses. -/
theorem completes_otherwise {line line' : Nat} {done done' : List (Expr × List Node)} {test : Expr}
    {inner inner' : List Node} {outer : List Frame} {tokens : List Token}
    (h : Completes (.otherwise line done inner :: outer) tokens) :
    Completes (.branch line' done' test inner' :: outer) (.statement .elseWord :: tokens) := by
  obtain ⟨body, rest, rfl, hbody, hrest⟩ := h
  refine ⟨[], [], _, rest, ?_, .nil, .done, .otherwise hbody, hrest⟩
  simp

/-- An `end` completes the innermost block. -/
theorem completes_end {frame : Frame} {outer : List Frame} {tokens : List Token}
    (h : Completes outer tokens) : Completes (frame :: outer) (.statement .endWord :: tokens) := by
  cases frame with
  | branch line done test inner => exact ⟨[], [], _, tokens, rfl, .nil, .done, .close, h⟩
  | otherwise line done inner => exact ⟨[], tokens, rfl, .nil, h⟩
  | loop line name items inner => exact ⟨[], tokens, rfl, .nil, h⟩

/-- **A step of the reader is a rule of the grammar**, read backwards. -/
theorem completes_of_take {line : Nat} {token : Token} {blocks blocks' : Blocks}
    {tokens : List Token} (h : take line token.item blocks = .ok blocks')
    (hc : Completes blocks'.stack tokens) : Completes blocks.stack (token :: tokens) := by
  obtain ⟨done, stack⟩ := blocks
  -- the statement names the rule, and the frame on top of the stack says whether it applies
  cases token with
  | text s =>
    cases h
    exact completes_append [.text s] (fun _ hmore => .text hmore) (completes_push hc)
  | output e =>
    cases h
    exact completes_append [.output e] (fun _ hmore => .output hmore) (completes_push hc)
  | statement w =>
    cases w with
    | ifTest e =>
      cases h
      have hw : (Wording.ifTest e).OpensTest := trivial
      exact completes_conditional hw hc
    | unlessTest e =>
      cases h
      have hw : (Wording.unlessTest e).OpensTest := trivial
      exact completes_conditional hw hc
    | forLoop name items =>
      cases h
      have hw : (Wording.forLoop name items).OpensLoop := trivial
      exact completes_loop hw hc
    | eachLoop name head fields =>
      cases h
      have hw : (Wording.eachLoop name head fields).OpensLoop := trivial
      exact completes_loop hw hc
    | elsifTest e =>
      cases stack with
      | nil => cases h
      | cons frame outer =>
        cases frame with
        | branch opened clauses test inner =>
          cases h
          exact completes_clause hc
        | otherwise opened clauses inner => cases h
        | loop opened name items inner => cases h
    | elseWord =>
      cases stack with
      | nil => cases h
      | cons frame outer =>
        cases frame with
        | branch opened clauses test inner =>
          cases h
          exact completes_otherwise hc
        | otherwise opened clauses inner => cases h
        | loop opened name items inner => cases h
    | endWord =>
      cases stack with
      | nil => cases h
      | cons frame outer =>
        cases h
        exact completes_end (completes_push hc)

/-- **Whatever is read to the end of every block completes the blocks that were open.** -/
theorem completes_of_run {segments : List Segment} {tokens : List Token}
    (hs : List.Forall₂ (fun segment token => segment.Says token.item) segments tokens)
    {blocks blocks' : Blocks} (h : segments.foldlM step blocks = .ok blocks')
    (hend : blocks'.stack = []) : Completes blocks.stack tokens := by
  induction hs generalizing blocks with
  | nil =>
    cases h
    rw [hend]
    exact .nil
  | @cons segment token segments tokens htold _ ih =>
    obtain ⟨line, hstep⟩ := step_says htold
    rw [List.foldlM_cons, hstep] at h
    cases htake : take line token.item blocks with
    | error e => rw [htake] at h; cases h
    | ok next =>
      rw [htake] at h
      exact completes_of_take htake (ih h)

/-! ## Templates -/

theorem finish_eq_ok {blocks : Blocks} {nodes : List Node} :
    blocks.finish = .ok nodes ↔ blocks.stack = [] ∧ nodes = blocks.done.reverse := by
  unfold Blocks.finish
  cases blocks.stack with
  | nil => simp [eq_comm]
  | cons frame outer => simp

/-- A source whose segments are known is read segment by segment. -/
theorem parse_eq_ok_iff {source : String} {segments : List Segment}
    (h : Segment.scan source.toList = .ok segments) {nodes : List Node} :
    parse source = .ok nodes ↔
      ∃ blocks, segments.foldlM step ⟨[], []⟩ = .ok blocks ∧ blocks.stack = []
        ∧ nodes = blocks.done.reverse := by
  have hparse : parse source = Blocks.ofSegments segments := by
    rw [parse, h]
    rfl
  rw [hparse, Blocks.ofSegments, bind_eq_ok]
  simp only [finish_eq_ok]

/-- Well-nested tokens are read as nodes with the same items. -/
theorem parse_of_nested {source : String} {segments : List Segment} {tokens : List Token}
    (hscan : Segment.scan source.toList = .ok segments)
    (htold : List.Forall₂ (fun segment token => segment.Says token.item) segments tokens)
    (h : Nested .items tokens) :
    ∃ nodes, parse source = .ok nodes ∧ itemsAll nodes = dropEmptyElse (itemsOf tokens) := by
  obtain ⟨nodes, hread, hitems, -⟩ := builds_of_nested h
  have htold' : List.Forall₂ Segment.Says segments (itemsOf tokens) :=
    List.forall₂_map_right_iff.mpr htold
  obtain ⟨blocks, hrun, rfl⟩ := hread ⟨[], []⟩ segments htold'
  refine ⟨nodes, (parse_eq_ok_iff hscan).mpr ⟨_, hrun, ?_⟩, ?_⟩
  · rw [pushAll_done, List.append_nil, List.reverse_reverse]
    exact ⟨rfl, rfl⟩
  · have hwhole := hitems []
    rw [List.append_nil] at hwhole
    rw [hwhole]
    exact (List.append_nil _).symm

/-- **A template is read exactly if it is well nested, and nothing of it is lost.** When a source can be
scanned and each of its tags can be read on its own, its segments spell tokens; it is read if and only if
these are well nested, and the items of the nodes are those of the tokens, in their order, but for an
`else` that nothing comes after. -/
theorem parse_iff_nested {source : String} {segments : List Segment}
    (hscan : Segment.scan source.toList = .ok segments)
    (htags : ∀ segment ∈ segments, segment.Parses) :
    (∃ tokens, List.Forall₂ Segment.Spells segments tokens)
    ∧ ∀ tokens, List.Forall₂ Segment.Spells segments tokens →
      ((∃ nodes, parse source = .ok nodes) ↔ Nested .items tokens)
      ∧ ∀ nodes, parse source = .ok nodes → itemsAll nodes = dropEmptyElse (itemsOf tokens) := by
  have htrim := trimmed_of_scan hscan
  constructor
  · exact exists_tokens htrim htags
  · intro tokens hspells
    have htold := says_tokens hspells htrim
    have hnested : ∀ nodes, parse source = .ok nodes → Nested .items tokens := by
      intro nodes hparse
      obtain ⟨blocks, hrun, hend, -⟩ := (parse_eq_ok_iff hscan).mp hparse
      exact completes_of_run htold hrun hend
    refine ⟨⟨?_, ?_⟩, ?_⟩
    · rintro ⟨nodes, hparse⟩
      exact hnested nodes hparse
    · intro h
      obtain ⟨nodes, hparse, -⟩ := parse_of_nested hscan htold h
      exact ⟨nodes, hparse⟩
    · intro nodes hparse
      obtain ⟨nodes', hparse', hitems⟩ := parse_of_nested hscan htold (hnested nodes hparse)
      obtain rfl := Except.ok.inj (hparse'.symm.trans hparse)
      exact hitems

/-- A conditional that is worded with `unless` and has an `else` that nothing comes after. -/
def unlessSource : String :=
  "<% unless a %>x<% else %><%end%>"

/-- The pieces of that source. -/
def unlessPieces : List Piece :=
  [.tag [' ', 'u', 'n', 'l', 'e', 's', 's', ' ', 'a', ' '], .text ['x'],
   .tag [' ', 'e', 'l', 's', 'e', ' '], .tag ['e', 'n', 'd']]

/-- The segments of that source. -/
def unlessSegments : List Segment :=
  [.statement 1 ['u', 'n', 'l', 'e', 's', 's', ' ', 'a'], .text ['x'],
   .statement 1 ['e', 'l', 's', 'e'], .statement 1 ['e', 'n', 'd']]

/-- The tokens of that source. -/
def unlessTokens : List Token :=
  [.statement (.unlessTest (.var "a" [])), .text "x", .statement .elseWord, .statement .endWord]

theorem scan_unlessSource : Segment.scan unlessSource.toList = .ok unlessSegments := by
  have hcut : Cut unlessPieces :=
    ⟨⟨.of_quiet (by decide), ' ', _, rfl, by decide, by decide⟩, nofun, ⟨by decide, by decide⟩,
      fun _ => rfl, ⟨.of_quiet (by decide), ' ', _, rfl, by decide, by decide⟩, nofun,
      ⟨.of_quiet (by decide), 'e', _, rfl, by decide, by decide⟩, nofun, trivial⟩
  have hsource : unlessSource.toList = sources unlessPieces := by decide
  rw [hsource, scan_sources hcut]
  rfl

/-- The items that are left of it are an `if` with its condition negated and no `else`. -/
theorem parse_iff_nested_unless :
    (Segment.scan unlessSource.toList = .ok unlessSegments ∧ ∀ segment ∈ unlessSegments, segment.Parses)
    ∧ ∃ nodes, parse unlessSource = .ok nodes
      ∧ itemsAll nodes = [.statement (.test (.not (.var "a" []))), .text "x", .statement .close] := by
  have htags : ∀ segment ∈ unlessSegments, segment.Parses := by
    intro segment hmem
    simp only [unlessSegments, List.mem_cons, List.not_mem_nil, or_false] at hmem
    rcases hmem with rfl | rfl | rfl | rfl
    · exact ⟨.test (.not (.var "a" [])), by decide +kernel⟩
    · trivial
    · exact ⟨.otherwise, by decide +kernel⟩
    · exact ⟨.close, by decide +kernel⟩
  obtain ⟨-, hall⟩ := parse_iff_nested scan_unlessSource htags
  have hvariable : Derives .disjunction [' ', 'a'] (.var "a" []) [] :=
    .conjunction (.negation (.comparison (.primary (.spaced ⟨[' '], by simp [isSpace], rfl⟩
      (.var ⟨[], ['a'], by simp, rfl, ⟨by decide, by decide, by decide⟩, by decide⟩ .nil) (.refl _)))))
  have hunless : Grammar.Spells (.unlessTest (.var "a" [])) ['u', 'n', 'l', 'e', 's', 's', ' ', 'a'] [] :=
    .unlessTest ⟨by decide, by decide, by decide⟩ hvariable
  have helse : Grammar.Spells .elseWord ['e', 'l', 's', 'e'] [] :=
    .elseWord ⟨by decide, by decide, by decide⟩
  have hend : Grammar.Spells .endWord ['e', 'n', 'd'] [] := .endWord ⟨by decide, by decide, by decide⟩
  have htext : String.ofList ['x'] = "x" := by decide
  have hspells : List.Forall₂ Segment.Spells unlessSegments unlessTokens :=
    .cons hunless (.cons htext (.cons helse (.cons hend .nil)))
  have hnested : Nested .items unlessTokens := by
    have hw : (Wording.unlessTest (.var "a" [])).OpensTest := trivial
    exact .conditional hw (.text .nil) .done (.otherwise .nil) .nil
  obtain ⟨hiff, hitems⟩ := hall unlessTokens hspells
  obtain ⟨nodes, hparse⟩ := hiff.mpr hnested
  exact ⟨⟨scan_unlessSource, htags⟩, nodes, hparse, hitems nodes hparse⟩

end Bindery.Template
