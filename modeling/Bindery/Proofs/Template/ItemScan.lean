import Bindery.Proofs.Template.PieceCut
import Bindery.Template.Block
import Mathlib.Data.List.Forall2

/-!
# `Proofs.Template.ItemScan` — the printed items of a tree are scanned back

Flattened, a tree is a list of items: texts, expressions to output and statements. Between its source
and its items lie the pieces, where a text with `<%` in it falls into several, and the segments, where
it is one again. Here a list of items goes the whole way: from its source through pieces and segments to
the items themselves (`scan_items`).

**Contents.**
* `Item` with `Item.print` and `Item.Normal`, `Node.items` and `itemsAll`;
* `printAll_eq_items` and `itemsAll_normal` — the source and the normal form of a tree by its items;
* `textPieces` — the pieces of a text;
* `Segment.Says` and `scan_items` — the segments of a printed list of items.
-/

namespace Bindery.Template

open Bindery.Text

/-! ## Items -/

/-- What one tag or one run of text contributes to a template. -/
inductive Item where
  | text (text : String)
  | output (value : Expr)
  | statement (statement : Statement)

namespace Item

/-- The source of an item. -/
def print : Item → List Char
  | .text s => escapeTags s.toList
  | .output e => outputTag e
  | .statement st => statementTag st

/-- A text that is not empty, or a tag whose code is in normal form. -/
def Normal : Item → Prop
  | .text s => s ≠ ""
  | .output e => e.Normal
  | .statement st => st.Normal

/-- A text. -/
def isText : Item → Bool
  | .text _ => true
  | _ => false

end Item

/-- Every item is in normal form, and no two texts are side by side. -/
def ItemsNormal : List Item → Prop
  | [] => True
  | item :: rest =>
    item.Normal ∧ (item.isText = true → rest.head?.all (!·.isText) = true) ∧ ItemsNormal rest

mutual

/-- The items of a node, in order. -/
def Node.items : Node → List Item
  | .text text => [.text text]
  | .output e => [.output e]
  | .branch clauses otherwise =>
    itemsClauses Statement.test clauses
      ++ (if otherwise.isEmpty then [] else .statement .otherwise :: itemsAll otherwise)
      ++ [.statement .close]
  | .loop name items body => .statement (.loop name items) :: itemsAll body ++ [.statement .close]

/-- The items of the clauses of a conditional. -/
def itemsClauses (opening : Expr → Statement) : List (Expr × List Node) → List Item
  | [] => []
  | (test, body) :: rest =>
    .statement (opening test) :: itemsAll body ++ itemsClauses Statement.retest rest

/-- The items of a list of nodes. -/
def itemsAll : List Node → List Item
  | [] => []
  | node :: rest => node.items ++ itemsAll rest

end

mutual

/-- A node is printed item by item. -/
theorem print_eq_items : ∀ node : Node, node.print = node.items.flatMap Item.print
  | .text text => by simp [Node.print, Node.items, Item.print]
  | .output e => by simp [Node.print, Node.items, Item.print]
  | .branch clauses otherwise => by
    rw [Node.print, Node.items, printClauses_eq_items, printAll_eq_items]
    split <;> simp [Item.print]
  | .loop name items body => by
    rw [Node.print, Node.items, printAll_eq_items]
    simp [Item.print]

theorem printClauses_eq_items (opening : Expr → Statement) :
    ∀ clauses, printClauses opening clauses = (itemsClauses opening clauses).flatMap Item.print
  | [] => rfl
  | (test, body) :: rest => by
    rw [printClauses, itemsClauses, printAll_eq_items, printClauses_eq_items]
    simp [Item.print]

theorem printAll_eq_items : ∀ nodes, printAll nodes = (itemsAll nodes).flatMap Item.print
  | [] => rfl
  | node :: rest => by
    rw [printAll, itemsAll, print_eq_items, printAll_eq_items, List.flatMap_append]

end

/-! ## Normal form, item by item -/

/-- Items in front of others: only where they meet can two texts be side by side. -/
theorem itemsNormal_append {front rest : List Item} (hf : ItemsNormal front) (hr : ItemsNormal rest)
    (hmeet : ∀ item ∈ front.getLast?, item.isText = true → rest.head?.all (!·.isText) = true) :
    ItemsNormal (front ++ rest) := by
  induction front with
  | nil => exact hr
  | cons item front ih =>
    obtain ⟨hitem, hnext, hfront⟩ := hf
    cases front with
    | nil => exact ⟨hitem, hmeet item rfl, hr⟩
    | cons other front => exact ⟨hitem, hnext, ih hfront hmeet⟩

/-- A tag may stand in front of any items. -/
theorem itemsNormal_cons {rest : List Item} {statement : Statement} (hs : statement.Normal)
    (hr : ItemsNormal rest) : ItemsNormal (.statement statement :: rest) :=
  ⟨hs, fun h => absurd h (by simp [Item.isText]), hr⟩

/-- A tag between two lists of items keeps their texts apart. -/
theorem itemsNormal_tag {front rest : List Item} {statement : Statement} (hf : ItemsNormal front)
    (hs : statement.Normal) (hr : ItemsNormal rest) :
    ItemsNormal (front ++ .statement statement :: rest) :=
  itemsNormal_append hf (itemsNormal_cons hs hr) fun _ _ _ => rfl

/-- A node that is no text starts and ends with a tag. -/
theorem items_ends {node : Node} (h : node.Normal) (ht : node.isText = false) :
    (∃ item rest, node.items = item :: rest ∧ item.isText = false)
      ∧ ∃ front item, node.items = front ++ [item] ∧ item.isText = false := by
  cases node with
  | text text => exact absurd ht (by simp [Node.isText])
  | output e => exact ⟨⟨_, _, rfl, rfl⟩, [], _, rfl, rfl⟩
  | branch clauses otherwise =>
    obtain ⟨⟨test, body⟩, rest, rfl⟩ := List.exists_cons_of_ne_nil h.1
    exact ⟨⟨_, _, rfl, rfl⟩, _, _, rfl, rfl⟩
  | loop name items body => exact ⟨⟨_, _, rfl, rfl⟩, _, _, rfl, rfl⟩

/-- Where the items of two nodes meet, no two texts do. -/
theorem items_meet {node : Node} {rest : List Node} (h : node.Normal) (hr : AllNormal rest)
    (hnext : node.isText = true → rest.head?.all (!·.isText) = true) :
    ∀ item ∈ node.items.getLast?, item.isText = true →
      (itemsAll rest).head?.all (!·.isText) = true := by
  intro item hlast htext
  have hnode : node.isText = true := by
    cases hn : node.isText with
    | true => rfl
    | false =>
      obtain ⟨-, front, last, hitems, hlt⟩ := items_ends h hn
      rw [hitems, List.getLast?_concat] at hlast
      obtain rfl : last = item := by simpa using hlast
      rw [hlt] at htext
      exact absurd htext (by simp)
  cases rest with
  | nil => rfl
  | cons next rest =>
    have hn : next.isText = false := by simpa using hnext hnode
    obtain ⟨⟨first, tail, hitems, hft⟩, -⟩ := items_ends hr.1 hn
    rw [itemsAll, hitems]
    simp [hft]

mutual

/-- **The items of a tree in normal form are in normal form.** -/
theorem items_normal : ∀ {node : Node}, node.Normal → ItemsNormal node.items
  | .text _, h => ⟨h, fun _ => rfl, trivial⟩
  | .output _, h => ⟨h, fun _ => rfl, trivial⟩
  | .branch clauses otherwise, h => by
    obtain ⟨-, hclauses, hotherwise⟩ := h
    have htail : ItemsNormal
        ((if otherwise.isEmpty then [] else .statement .otherwise :: itemsAll otherwise)
          ++ [.statement .close]) := by
      have hclose : ItemsNormal [.statement .close] := ⟨trivial, fun _ => rfl, trivial⟩
      split
      · exact hclose
      · exact itemsNormal_cons trivial (itemsNormal_tag (itemsAll_normal hotherwise) trivial trivial)
    have htag : ((if otherwise.isEmpty then [] else .statement .otherwise :: itemsAll otherwise)
        ++ [Item.statement .close]).head?.all (!·.isText) = true := by
      split <;> rfl
    have hopening : ∀ test : Expr, test.Normal → (Statement.test test).Normal := fun _ h => h
    have hfront := itemsClauses_normal hopening hclauses
    rw [Node.items, List.append_assoc]
    exact itemsNormal_append hfront htail fun _ _ _ => htag
  | .loop name items body, h => by
    obtain ⟨hname, hitems, hbody⟩ := h
    have hloop : (Statement.loop name items).Normal := ⟨hname, hitems⟩
    exact itemsNormal_cons hloop (itemsNormal_tag (itemsAll_normal hbody) trivial trivial)

theorem itemsClauses_normal {opening : Expr → Statement}
    (ho : ∀ test : Expr, test.Normal → (opening test).Normal) :
    ∀ {clauses : List (Expr × List Node)}, NormalClauses clauses →
      ItemsNormal (itemsClauses opening clauses)
  | [], _ => trivial
  | (test, body) :: more, ⟨htest, hbody, hmore⟩ => by
    have htag : (itemsClauses Statement.retest more).head?.all (!·.isText) = true := by
      cases more <;> rfl
    have hopening : ∀ test : Expr, test.Normal → (Statement.retest test).Normal := fun _ h => h
    have hrest := itemsClauses_normal hopening hmore
    exact itemsNormal_cons (ho test htest)
      (itemsNormal_append (itemsAll_normal hbody) hrest fun _ _ _ => htag)

theorem itemsAll_normal : ∀ {nodes : List Node}, AllNormal nodes → ItemsNormal (itemsAll nodes)
  | [], _ => trivial
  | _ :: _, ⟨hnode, hnext, hrest⟩ =>
    itemsNormal_append (items_normal hnode) (itemsAll_normal hrest) (items_meet hnode hrest hnext)

end

/-! ## The pieces of a text -/

/-- The pieces of an escaped text: one for each `<%` in it, and one for what is between them. -/
def textPieces : List Char → List Piece
  | '<' :: '%' :: rest => .escape :: textPieces rest
  | c :: rest =>
    match textPieces rest with
    | .text chars :: pieces => .text (c :: chars) :: pieces
    | pieces => .text [c] :: pieces
  | [] => []

/-- The first character of a text starts its first piece, unless that is an escape. -/
theorem head?_of_textPieces {s chars : List Char} {pieces : List Piece}
    (h : textPieces s = .text chars :: pieces) : chars.head? = s.head? := by
  unfold textPieces at h
  split at h
  · exact absurd h (by simp)
  · split at h
    · injection h with hp
      injection hp with hc
      rw [← hc]
      rfl
    · injection h with hp
      injection hp with hc
      rw [← hc]
      rfl
  · exact absurd h (by simp)

/-- The pieces of a text make its source. -/
theorem sources_textPieces (s : List Char) : sources (textPieces s) = escapeTags s := by
  fun_induction textPieces s with
  | case1 rest ih => rw [sources_cons, ih, escapeTags]; rfl
  | case2 c rest hne chars pieces heq ih =>
    rw [heq, sources_cons] at ih
    rw [sources_cons, escapeTags, ← ih]
    · rfl
    · exact hne
  | case3 c rest hne _ ih =>
    rw [sources_cons, ih, escapeTags]
    · rfl
    · exact hne
  | case4 => rfl

/-- The pieces of a text in front of others can be cut apart again. -/
theorem cut_textPieces {rest : List Piece} (hr : Cut rest)
    (hnext : rest.head?.all (!·.isText) = true) (s : List Char) : Cut (textPieces s ++ rest) := by
  fun_induction textPieces s with
  | case1 tail ih => exact ⟨trivial, fun h => absurd h (by simp [Piece.isText]), ih⟩
  | case2 c tail hne chars pieces heq ih =>
    rw [heq] at ih
    obtain ⟨⟨hchars, hinfix⟩, hmeet, hpieces⟩ := ih
    have hhead := head?_of_textPieces heq
    refine ⟨⟨List.cons_ne_nil c chars, fun hi => ?_⟩, hmeet, hpieces⟩
    -- an opener in the text would stand at its front, and there the scan makes an escape of it
    rcases List.infix_cons_iff.mp hi with hp | hi
    · obtain ⟨hc, hp⟩ := List.cons_prefix_cons.mp hp
      obtain ⟨t, rfl⟩ := hp
      cases tail with
      | nil => exact absurd hhead (by simp)
      | cons d tail =>
        obtain rfl : '%' = d := by simpa using hhead
        exact hne tail (by rw [← hc]) rfl
    · exact hinfix hi
  | case3 c tail hne hother ih =>
    -- a text of one character: had a text come next, the scan would have joined the two
    have hmeet : (textPieces tail ++ rest).head?.all (!·.isText) = true := by
      cases hp : textPieces tail with
      | nil => exact hnext
      | cons piece pieces =>
        cases piece with
        | text chars => exact (hother chars pieces hp).elim
        | escape => rfl
        | comment chars => rfl
        | tag chars => rfl
    refine ⟨⟨List.cons_ne_nil c [], fun hi => ?_⟩, fun _ => hmeet, ih⟩
    have := hi.length_le
    simp at this
  | case4 => exact hr

/-- The pieces of a text are joined to the text again. -/
theorem ofPieces_textPieces (s : List Char) (line : Nat) (run : List Char) (rest : List Piece) :
    ∃ line', Segment.ofPieces line run false (textPieces s ++ rest)
      = Segment.ofPieces line' (run ++ s) false rest := by
  fun_induction textPieces s generalizing line run with
  | case1 tail ih =>
    obtain ⟨line', hline⟩ := ih (line + newlines Piece.escape.source) (run ++ ['<', '%'])
    refine ⟨line', ?_⟩
    rw [List.cons_append, Segment.ofPieces]
    simpa using hline
  | case2 c tail hne chars pieces heq ih =>
    obtain ⟨line', hline⟩ := ih (line + newlines [c]) (run ++ [c])
    have hcount : line + newlines (c :: chars) = line + newlines [c] + newlines chars := by
      rw [Nat.add_assoc, newlines, newlines, newlines, ← List.count_append]
      rfl
    refine ⟨line', ?_⟩
    rw [heq, List.cons_append, Segment.ofPieces] at hline
    rw [List.cons_append, Segment.ofPieces]
    simpa [Piece.source, hcount] using hline
  | case3 c tail hne hother ih =>
    obtain ⟨line', hline⟩ := ih (line + newlines (Piece.text [c]).source) (run ++ [c])
    refine ⟨line', ?_⟩
    rw [List.cons_append, Segment.ofPieces]
    simpa using hline
  | case4 => exact ⟨line, by simp⟩

/-! ## From source to segments -/

/-- The pieces of an item: those of a text, or one tag. -/
def Item.pieces : Item → List Piece
  | .text s => textPieces s.toList
  | .output e => [.tag ('=' :: ' ' :: (e.print ++ [' ']))]
  | .statement st => [.tag (' ' :: (st.print ++ [' ']))]

/-- The pieces of an item make its source. -/
theorem sources_pieces (item : Item) : sources item.pieces = item.print := by
  cases item with
  | text s => exact sources_textPieces s.toList
  | output e => simp [Item.pieces, Item.print, outputTag, sources, Piece.source]
  | statement st => simp [Item.pieces, Item.print, statementTag, sources, Piece.source]

theorem sources_flatMap (items : List Item) :
    sources (items.flatMap Item.pieces) = items.flatMap Item.print := by
  induction items with
  | nil => rfl
  | cons item items ih =>
    rw [List.flatMap_cons, sources_append, sources_pieces, ih, List.flatMap_cons]

/-- A printed tag is one piece. -/
theorem output_proper {e : Expr} (h : e.Normal) :
    (Piece.tag ('=' :: ' ' :: (e.print ++ [' ']))).Proper :=
  ⟨.cons_quiet (by decide) (.cons_quiet (by decide) (print_tagText h (.cons_quiet (by decide) .nil))),
    '=', _, rfl, by decide, by decide⟩

theorem statement_proper {st : Statement} (h : st.Normal) :
    (Piece.tag (' ' :: (st.print ++ [' ']))).Proper :=
  ⟨.cons_quiet (by decide) (statement_tagText h (.cons_quiet (by decide) .nil)),
    ' ', _, rfl, by decide, by decide⟩

/-- What starts with a tag as an item starts with a tag as a piece. -/
theorem head_pieces {items : List Item} (h : items.head?.all (!·.isText) = true) :
    (items.flatMap Item.pieces).head?.all (!·.isText) = true := by
  cases items with
  | nil => rfl
  | cons item items =>
    cases item with
    | text s => exact absurd h (by simp [Item.isText])
    | output e => rfl
    | statement st => rfl

/-- **The source of items in normal form is cut into their pieces.** -/
theorem cut_items : ∀ {items : List Item}, ItemsNormal items → Cut (items.flatMap Item.pieces)
  | [], _ => trivial
  | item :: rest, ⟨hitem, hnext, hrest⟩ => by
    have hcut := cut_items hrest
    have htag : ∀ {chars : List Char}, (Piece.tag chars).Proper →
        Cut (.tag chars :: rest.flatMap Item.pieces) :=
      fun hp => ⟨hp, fun h => absurd h (by simp [Piece.isText]), hcut⟩
    rw [List.flatMap_cons]
    cases item with
    | text s => exact cut_textPieces hcut (head_pieces (hnext rfl)) s.toList
    | output e => exact htag (output_proper hitem)
    | statement st => exact htag (statement_proper hitem)

/-- A segment holds the text of an item, or the code of its tag. -/
def Segment.Says : Segment → Item → Prop
  | .text chars, .text s => String.ofList chars = s
  | .output line code, .output e => Expr.ofCode line code = .ok e
  | .statement line code, .statement st => Statement.ofCode line code = .ok st
  | _, _ => False

theorem not_trims (s : List Char) : trims (s ++ [' ']) = false := by
  rw [trims, List.getLast?_concat]
  rfl

/-- What an output tag holds. -/
theorem ofTag_output {e : Expr} (h : e.Normal) (line : Nat) :
    (Segment.ofTag line ('=' :: ' ' :: (e.print ++ [' ']))).Says (.output e) := by
  have hdash : dropDash ('=' :: ' ' :: (e.print ++ [' '])) = '=' :: ' ' :: (e.print ++ [' ']) := by
    rw [dropDash, if_neg (by simpa using not_trims ('=' :: ' ' :: e.print))]
  rw [Segment.ofTag, hdash]
  show Expr.ofCode line (trim (' ' :: (e.print ++ [' ']))) = .ok e
  rw [trim_spaced (print_tight h), exprCode_print h]

/-- What a statement tag holds. -/
theorem ofTag_statement {st : Statement} (h : st.Normal) (line : Nat) :
    (Segment.ofTag line (' ' :: (st.print ++ [' ']))).Says (.statement st) := by
  have hdash : dropDash (' ' :: (st.print ++ [' '])) = ' ' :: (st.print ++ [' ']) := by
    rw [dropDash, if_neg (by simpa using not_trims (' ' :: st.print))]
  rw [Segment.ofTag, hdash]
  show Statement.ofCode line (trim (' ' :: (st.print ++ [' ']))) = .ok st
  rw [trim_spaced (statement_tight h), statementCode_print h]

/-- A text is one segment, up to the next tag. -/
theorem ofPieces_run {c : Char} {run : List Char} {items : List Item} (line : Nat)
    (h : items.head?.all (!·.isText) = true) :
    Segment.ofPieces line (c :: run) false (items.flatMap Item.pieces)
      = .text (c :: run) :: Segment.ofPieces line [] false (items.flatMap Item.pieces) := by
  cases items with
  | nil => rfl
  | cons item items =>
    cases item with
    | text s => exact absurd h (by simp [Item.isText])
    | output e => rfl
    | statement st => rfl

/-- A tag that does not trim is one segment. -/
theorem ofPieces_tag (line : Nat) (chars : List Char) (rest : List Piece) :
    Segment.ofPieces line [] false (.tag (chars ++ [' ']) :: rest)
      = Segment.ofTag line (chars ++ [' '])
        :: Segment.ofPieces (line + newlines (Piece.tag (chars ++ [' '])).source) [] false rest := by
  rw [← not_trims chars]
  rfl

/-- The segments of items in normal form say what the items are. -/
theorem ofPieces_items : ∀ {items : List Item}, ItemsNormal items → ∀ line : Nat,
    List.Forall₂ Segment.Says (Segment.ofPieces line [] false (items.flatMap Item.pieces)) items
  | [], _, _ => List.Forall₂.nil
  | item :: rest, ⟨hitem, hnext, hrest⟩, line => by
    rw [List.flatMap_cons]
    cases item with
    | text s =>
      obtain ⟨c, tail, hs⟩ : ∃ c tail, s.toList = c :: tail :=
        List.exists_cons_of_ne_nil fun hnil => hitem (String.toList_eq_nil_iff.mp hnil)
      obtain ⟨line', hline⟩ := ofPieces_textPieces s.toList line [] (rest.flatMap Item.pieces)
      rw [Item.pieces, hline, List.nil_append, hs, ofPieces_run line' (hnext rfl), ← hs]
      exact List.Forall₂.cons String.ofList_toList (ofPieces_items hrest line')
    | output e =>
      have htag := ofPieces_tag line ('=' :: ' ' :: e.print) (rest.flatMap Item.pieces)
      exact htag ▸ List.Forall₂.cons (ofTag_output hitem line) (ofPieces_items hrest _)
    | statement st =>
      have htag := ofPieces_tag line (' ' :: st.print) (rest.flatMap Item.pieces)
      exact htag ▸ List.Forall₂.cons (ofTag_statement hitem line) (ofPieces_items hrest _)

/-- **A printed list of items is scanned back**: each item is one segment of its source. -/
theorem scan_items {items : List Item} (h : ItemsNormal items) :
    ∃ segments, Segment.scan (items.flatMap Item.print) = .ok segments
      ∧ List.Forall₂ Segment.Says segments items := by
  refine ⟨_, ?_, ofPieces_items h 1⟩
  rw [Segment.scan, ← sources_flatMap, split_sources (cut_items h)]
  rfl

end Bindery.Template
