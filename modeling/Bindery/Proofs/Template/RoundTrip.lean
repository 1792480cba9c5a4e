import Bindery.Proofs.Template.ItemScan

/-!
# `Proofs.Template.RoundTrip` — reading a printed tree gives the tree back

The block reader sees the items of a tree one after another and keeps the open blocks on a stack. What
carries the induction is that the items of a node, whatever follows them, do the same as pushing the
node (`read_node`, `read_nodes`); for the clauses of a conditional, whose node only comes into being at
its end, that they do the same as putting the clauses into the open frame (`read_clauses`).

**Contents.**
* `Blocks.take` — what an item does to a tree in the making;
* `read_node`, `read_clauses`, `read_nodes` — the mutual induction over trees;
* `parse_source` — **parsing undoes printing**, with a tree that exercises it.
-/

namespace Bindery.Template

/-! ## Items and blocks -/

namespace Frame

/-- Puts nodes in front of those that an open block has gathered, last first. -/
def gather (nodes : List Node) : Frame → Frame
  | branch line clauses test body => branch line clauses test (nodes.reverse ++ body)
  | otherwise line clauses body => otherwise line clauses (nodes.reverse ++ body)
  | loop line name items body => loop line name items (nodes.reverse ++ body)

theorem gather_nil (frame : Frame) : frame.gather [] = frame := by
  cases frame <;> rfl

theorem gather_push (node : Node) (nodes : List Node) (frame : Frame) :
    (frame.push node).gather nodes = frame.gather (node :: nodes) := by
  cases frame <;> simp [push, gather]

end Frame

namespace Blocks

/-- What an item does to a tree in the making; `line` is where its tag is. -/
def take (line : Nat) : Item → Blocks → Except SyntaxError Blocks
  | .text s, blocks => .ok (blocks.push (.text s))
  | .output e, blocks => .ok (blocks.push (.output e))
  | .statement st, blocks => blocks.apply line st

/-- Puts nodes into the innermost open block, one after another. -/
def pushAll (nodes : List Node) (blocks : Blocks) : Blocks :=
  nodes.foldl (fun blocks node => blocks.push node) blocks

/-- Nodes that are pushed go into the innermost open block. -/
theorem pushAll_open (nodes done : List Node) (frame : Frame) (outer : List Frame) :
    pushAll nodes ⟨done, frame :: outer⟩ = ⟨done, frame.gather nodes :: outer⟩ := by
  induction nodes generalizing frame with
  | nil => rw [frame.gather_nil, pushAll, List.foldl_nil]
  | cons node nodes ih => exact (ih (frame.push node)).trans (by rw [frame.gather_push])

/-- Outside of every block, nodes that are pushed are finished. -/
theorem pushAll_done (nodes done : List Node) :
    pushAll nodes ⟨done, []⟩ = ⟨nodes.reverse ++ done, []⟩ := by
  induction nodes generalizing done with
  | nil => rfl
  | cons node nodes ih =>
    rw [List.reverse_cons, List.append_assoc]
    exact ih (node :: done)

end Blocks

open Blocks

/-- A segment does to a tree in the making what its item does. -/
theorem step_says {segment : Segment} {item : Item} (h : segment.Says item) :
    ∃ line, ∀ blocks, step blocks segment = take line item blocks := by
  cases segment with
  | text chars =>
    cases item with
    | text s => exact ⟨0, fun blocks => by rw [← show String.ofList chars = s from h]; rfl⟩
    | output e => exact h.elim
    | statement st => exact h.elim
  | output line code =>
    cases item with
    | text s => exact h.elim
    | output e =>
      refine ⟨line, fun blocks => ?_⟩
      rw [step, show Expr.ofCode line code = .ok e from h]
      rfl
    | statement st => exact h.elim
  | statement line code =>
    cases item with
    | text s => exact h.elim
    | output e => exact h.elim
    | statement st =>
      refine ⟨line, fun blocks => ?_⟩
      rw [step, show Statement.ofCode line code = .ok st from h]
      rfl

/-- Reading segments that say `items`, on whatever lines, leads from `blocks` to where `post` holds. -/
def Reads (items : List Item) (blocks : Blocks) (post : Blocks → Prop) : Prop :=
  ∀ segments, List.Forall₂ Segment.Says segments items →
    ∃ blocks', segments.foldlM step blocks = .ok blocks' ∧ post blocks'

theorem Reads.nil {blocks : Blocks} {post : Blocks → Prop} (h : post blocks) :
    Reads [] blocks post := by
  intro segments hs
  cases hs
  exact ⟨blocks, rfl, h⟩

/-- One item, wherever its tag is. -/
theorem Reads.item {item : Item} {blocks : Blocks} {post : Blocks → Prop}
    (h : ∀ line, ∃ blocks', take line item blocks = .ok blocks' ∧ post blocks') :
    Reads [item] blocks post := by
  intro segments hs
  obtain ⟨segment, rest, hsays, hrest, rfl⟩ := List.forall₂_cons_right_iff.mp hs
  cases hrest
  obtain ⟨line, hstep⟩ := step_says hsays
  obtain ⟨blocks', htake, hpost⟩ := h line
  refine ⟨blocks', ?_, hpost⟩
  rw [List.foldlM_cons, hstep, htake]
  rfl

/-- Items after other items. -/
theorem Reads.append {front rest : List Item} {blocks : Blocks} {mid post : Blocks → Prop}
    (hf : Reads front blocks mid) (hr : ∀ blocks', mid blocks' → Reads rest blocks' post) :
    Reads (front ++ rest) blocks post := by
  intro segments hs
  obtain ⟨blocks', hfront, hmid⟩ := hf _ (List.forall₂_take_append segments front rest hs)
  obtain ⟨blocks'', hrest, hpost⟩ := hr blocks' hmid _ (List.forall₂_drop_append segments front rest hs)
  refine ⟨blocks'', ?_, hpost⟩
  rw [← List.take_append_drop front.length segments, List.foldlM_append, hfront]
  exact hrest

theorem Reads.cons {item : Item} {rest : List Item} {blocks : Blocks} {post : Blocks → Prop}
    (h : ∀ line, ∃ blocks', take line item blocks = .ok blocks' ∧ Reads rest blocks' post) :
    Reads (item :: rest) blocks post := by
  have hitem : Reads [item] blocks fun blocks' => Reads rest blocks' post := Reads.item h
  exact hitem.append fun _ hrest => hrest

/-! ## Trees -/

/-- The `else` part and the `end` of a conditional make its node. -/
theorem read_ending {otherwise : List Node}
    (hread : ∀ blocks, Reads (itemsAll otherwise) blocks (· = pushAll otherwise blocks))
    (done : List Node) (outer : List Frame) (line : Nat) (clauses : List (Expr × List Node))
    (test : Expr) (body : List Node) :
    Reads ((if otherwise.isEmpty then [] else .statement .otherwise :: itemsAll otherwise)
        ++ [.statement .close])
      ⟨done, .branch line clauses test body :: outer⟩
      (· = Blocks.push (.branch ((test, body.reverse) :: clauses).reverse otherwise) ⟨done, outer⟩) := by
  cases otherwise with
  | nil => exact Reads.item fun line' => ⟨_, rfl, rfl⟩
  | cons node nodes =>
    refine Reads.cons fun line' => ⟨_, rfl, ?_⟩
    refine Reads.append (hread _) ?_
    rintro blocks' rfl
    refine Reads.item fun line'' => ?_
    rw [pushAll_open, Frame.gather, List.append_nil]
    refine ⟨_, rfl, ?_⟩
    show Blocks.push (.branch _ (node :: nodes).reverse.reverse) ⟨done, outer⟩ = _
    rw [List.reverse_reverse]

mutual

/-- **The items of a node push the node.** -/
theorem read_node : ∀ (node : Node), node.Normal → ∀ blocks : Blocks,
    Reads node.items blocks (· = blocks.push node)
  | .text text, _, blocks => Reads.item fun line => ⟨_, rfl, rfl⟩
  | .output e, _, blocks => Reads.item fun line => ⟨_, rfl, rfl⟩
  | .branch [] otherwise, h, blocks => absurd rfl h.1
  | .branch ((test, body) :: rest) otherwise, h, ⟨done, outer⟩ => by
    obtain ⟨-, ⟨-, hbody, hrest⟩, hotherwise⟩ := h
    rw [Node.items, itemsClauses, List.append_assoc, List.append_assoc]
    refine Reads.cons fun line => ⟨_, rfl, ?_⟩
    refine Reads.append (read_nodes body hbody _) ?_
    rintro blocks' rfl
    rw [pushAll_open, Frame.gather, List.append_nil]
    refine Reads.append (read_clauses rest hrest done outer line [] test body.reverse) ?_
    rintro blocks' ⟨clauses, last, lastBody, rfl, hclauses⟩
    have hend := read_ending (read_nodes otherwise hotherwise) done outer line clauses last lastBody
    rw [hclauses, List.reverse_reverse] at hend
    exact hend
  | .loop name items body, h, ⟨done, outer⟩ => by
    refine Reads.cons fun line => ⟨_, rfl, ?_⟩
    refine Reads.append (read_nodes body h.2.2 _) ?_
    rintro blocks' rfl
    refine Reads.item fun line' => ?_
    rw [pushAll_open, Frame.gather, List.append_nil]
    refine ⟨_, rfl, ?_⟩
    show Blocks.push (.loop name items body.reverse.reverse) ⟨done, outer⟩ = _
    rw [List.reverse_reverse]

/-- The items of further clauses put them into the open conditional. -/
theorem read_clauses : ∀ (rest : List (Expr × List Node)), NormalClauses rest →
    ∀ (done : List Node) (outer : List Frame) (line : Nat) (clauses : List (Expr × List Node))
      (test : Expr) (body : List Node),
    Reads (itemsClauses Statement.retest rest) ⟨done, .branch line clauses test body :: outer⟩
      fun blocks' => ∃ clauses' test' body',
        blocks' = ⟨done, .branch line clauses' test' body' :: outer⟩
          ∧ ((test', body'.reverse) :: clauses').reverse
            = ((test, body.reverse) :: clauses).reverse ++ rest
  | [], _, done, outer, line, clauses, test, body =>
    Reads.nil ⟨clauses, test, body, rfl, (List.append_nil _).symm⟩
  | (next, nextBody) :: rest, ⟨_, hbody, hrest⟩, done, outer, line, clauses, test, body => by
    refine Reads.cons fun line' => ⟨_, rfl, ?_⟩
    refine Reads.append (read_nodes nextBody hbody _) ?_
    rintro blocks' rfl
    rw [pushAll_open, Frame.gather, List.append_nil]
    have hmore := read_clauses rest hrest done outer line ((test, body.reverse) :: clauses) next
      nextBody.reverse
    simpa using hmore

/-- The items of a list of nodes push the nodes. -/
theorem read_nodes : ∀ (nodes : List Node), AllNormal nodes → ∀ blocks : Blocks,
    Reads (itemsAll nodes) blocks (· = pushAll nodes blocks)
  | [], _, blocks => Reads.nil rfl
  | node :: rest, ⟨hnode, _, hrest⟩, blocks => by
    refine Reads.append (read_node node hnode blocks) ?_
    rintro blocks' rfl
    exact read_nodes rest hrest (blocks.push node)

end

/-! ## Parsing undoes printing -/

/-- A source with the characters of a printed tree in normal form is read as that tree. -/
theorem parse_eq_ok {source : String} {nodes : List Node} (h : AllNormal nodes)
    (hs : source.toList = printAll nodes) : parse source = .ok nodes := by
  obtain ⟨segments, hscan, hsays⟩ := scan_items (itemsAll_normal h)
  obtain ⟨blocks, hread, rfl⟩ := read_nodes nodes h ⟨[], []⟩ segments hsays
  rw [parse, hs, printAll_eq_items, hscan]
  show (segments.foldlM step ⟨[], []⟩ >>= fun blocks => blocks.finish) = _
  rw [hread, pushAll_done, List.append_nil]
  show Except.ok nodes.reverse.reverse = _
  rw [List.reverse_reverse]

/-- **Parsing undoes printing.** The canonical source of every tree in normal form is read as exactly
that tree, whatever its texts and strings hold. -/
theorem parse_source {nodes : List Node} (h : AllNormal nodes) :
    parse (Node.source nodes) = .ok nodes := by
  refine parse_eq_ok h ?_
  rw [Node.source, String.toList_ofList]

/-- A tree in which texts hold tags, strings hold delimiters and quotes, and names start with reserved
words. -/
def Node.thicket : List Node :=
  [.text "a<%<<%%-%>\n",
   .output (.str "it's %> <% \\ -"),
   .branch
     [(.not (.eq (.var "truely" ["end", "b"]) (.imported (.str "q"))), [.text "<"]),
      (.or (.and .nil (.bool true)) (.var "b" []), [])]
     [.text "%", .loop "x" (.imported (.imported (.var "a" []))) [.text "\n"]],
   .output (.bool false),
   .text "<"]

theorem thicket_normal : AllNormal Node.thicket := by
  simp [AllNormal, NormalClauses, Node.Normal, Expr.Normal, Node.thicket, Node.isText]
  decide

/-- A tree of every kind of node survives. -/
theorem parse_source_thicket :
    AllNormal Node.thicket ∧ parse (Node.source Node.thicket) = .ok Node.thicket :=
  ⟨thicket_normal, parse_source thicket_normal⟩

end Bindery.Template
