import Bindery.Proofs.Template.LoopNames
import Bindery.Proofs.Template.Nesting
import Bindery.Proofs.Template.Stack

/-!
# `Proofs.Template.Exchange` — variables that come to the same

Two chains, each a variable with fields that are read from it, may come to the same under the global variables.
One can then be written for the other wherever no loop around binds either variable, and no template resolves
to anything else for it. Which chains are exchanged is a parameter here (`swap`), and so are the places: any of
them, in any of the templates.

The names that loops bind are followed through every layer. In a tree they are those of the loops around a node;
while the tree is made, those of the open blocks. The invariant of a rendering is that nothing else is bound
(`Scope.Binds`), and the one of the reader is that its frames hold the same but for what is exchanged under the
names that are bound outside of each (`StackExchanged`).

**Contents.**
* `SameBut` — results that are the same but for what is related in them;
* `Binding.follow` and `eval_chain` — what a chain comes to;
* `Expr.Exchanged`, `ExchangedAll`, `renderAll_exchanged` — trees with some chains exchanged;
* `SegmentsExchanged`, `parse_exchanged` — sources with some chains exchanged;
* `resolve_exchanged` — **templates resolve alike with some chains exchanged**.
-/

namespace Bindery.Template

/-! ## Results that are alike -/

/-- The same fault, or results that are related. -/
inductive SameBut {ε α β : Type} (related : α → β → Prop) : Except ε α → Except ε β → Prop
  | error (fault : ε) : SameBut related (.error fault) (.error fault)
  | ok {a : α} {b : β} (h : related a b) : SameBut related (.ok a) (.ok b)

namespace SameBut

variable {ε α β α' β' : Type} {related : α → β → Prop} {related' : α' → β' → Prop} {x : Except ε α}
  {y : Except ε β} {f : α → Except ε α'} {g : β → Except ε β'}

theorem bind (h : SameBut related x y) (hnext : ∀ a b, related a b → SameBut related' (f a) (g b)) :
    SameBut related' (x >>= f) (y >>= g) := by
  cases h with
  | error fault => exact .error fault
  | ok hrelated => exact hnext _ _ hrelated

end SameBut

/-! ## Chains -/

/-- A variable and the fields that are read from it, one after another. -/
abbrev Chain := String × List String

/-- What a chain comes to under the global variables. -/
def Binding.follow (globals : Binding) (chain : Chain) : Except Cause Value :=
  match Dict.find? chain.1 globals with
  | some v => v.select chain.2
  | none => .error (.undefined chain.1)

/-- The loops around bind no names but these. -/
def Scope.Binds (scope : Scope) (bound : List String) : Prop :=
  ∀ word ∉ bound, Dict.find? word scope.locals = none

variable {swap : Chain → Chain → Prop} {bound : List String} {scope : Scope}

theorem Scope.Binds.enter (h : scope.Binds bound) (name : String) (item : Value) (index : Nat) :
    (scope.enter name item index).Binds (loopNames name ++ bound) := by
  intro word hword
  obtain ⟨hloop, hbound⟩ : word ∉ loopNames name ∧ word ∉ bound := by
    simpa [List.mem_append, not_or] using hword
  obtain ⟨hname, hindex⟩ : name ≠ word ∧ name ++ "_index" ≠ word := by
    simpa [loopNames, eq_comm] using hloop
  simp [Scope.enter, hname, hindex, h word hbound]

/-- A chain whose variable no loop binds comes to what it is under the global variables. -/
theorem eval_chain {head : String} (h : Dict.find? head scope.locals = none) (fields : List String) :
    (Expr.var head fields).eval scope = (scope.globals.follow (head, fields)).mapError scope.fault := by
  have hfind : scope.find? head = Dict.find? head scope.globals := by
    rw [Scope.find?, h, Option.none_or]
  rw [Expr.eval, hfind, Binding.follow]
  cases Dict.find? head scope.globals <;> rfl

/-! ## Trees -/

/-- The expression with some chains exchanged, none of which starts with a name that is bound. -/
inductive Expr.Exchanged (swap : Chain → Chain → Prop) (bound : List String) : Expr → Expr → Prop
  | refl (e : Expr) : Exchanged swap bound e e
  | var {head head' : String} {fields fields' : List String} (known : swap (head, fields) (head', fields'))
    (old : head ∉ bound) (new : head' ∉ bound) : Exchanged swap bound (.var head fields) (.var head' fields')
  | imported {path path' : Expr} (h : path.Exchanged swap bound path') :
    Exchanged swap bound (.imported path) (.imported path')
  | not {inner inner' : Expr} (h : inner.Exchanged swap bound inner') :
    Exchanged swap bound (.not inner) (.not inner')
  | eq {lhs lhs' rhs rhs' : Expr} (left : lhs.Exchanged swap bound lhs') (right : rhs.Exchanged swap bound rhs') :
    Exchanged swap bound (.eq lhs rhs) (.eq lhs' rhs')
  | ne {lhs lhs' rhs rhs' : Expr} (left : lhs.Exchanged swap bound lhs') (right : rhs.Exchanged swap bound rhs') :
    Exchanged swap bound (.ne lhs rhs) (.ne lhs' rhs')
  | and {lhs lhs' rhs rhs' : Expr} (left : lhs.Exchanged swap bound lhs') (right : rhs.Exchanged swap bound rhs') :
    Exchanged swap bound (.and lhs rhs) (.and lhs' rhs')
  | or {lhs lhs' rhs rhs' : Expr} (left : lhs.Exchanged swap bound lhs') (right : rhs.Exchanged swap bound rhs') :
    Exchanged swap bound (.or lhs rhs) (.or lhs' rhs')

mutual

/-- The node with some chains exchanged; a loop in it binds its names in its body. -/
inductive Node.Exchanged (swap : Chain → Chain → Prop) : List String → Node → Node → Prop
  | text {bound : List String} (text : String) : Node.Exchanged swap bound (.text text) (.text text)
  | output {bound : List String} {e e' : Expr} (h : e.Exchanged swap bound e') :
    Node.Exchanged swap bound (.output e) (.output e')
  | branch {bound : List String} {clauses clauses' : List (Expr × List Node)} {otherwise otherwise' : List Node}
    (first : ExchangedClauses swap bound clauses clauses') (last : ExchangedAll swap bound otherwise otherwise') :
    Node.Exchanged swap bound (.branch clauses otherwise) (.branch clauses' otherwise')
  | loop {bound : List String} {name : String} {items items' : Expr} {body body' : List Node}
    (list : items.Exchanged swap bound items') (inner : ExchangedAll swap (loopNames name ++ bound) body body') :
    Node.Exchanged swap bound (.loop name items body) (.loop name items' body')

/-- The clauses of a conditional with some chains exchanged. -/
inductive ExchangedClauses (swap : Chain → Chain → Prop) :
    List String → List (Expr × List Node) → List (Expr × List Node) → Prop
  | nil {bound : List String} : ExchangedClauses swap bound [] []
  | cons {bound : List String} {test test' : Expr} {body body' : List Node}
    {rest rest' : List (Expr × List Node)} (condition : test.Exchanged swap bound test')
    (inner : ExchangedAll swap bound body body') (more : ExchangedClauses swap bound rest rest') :
    ExchangedClauses swap bound ((test, body) :: rest) ((test', body') :: rest')

/-- The list of nodes with some chains exchanged. -/
inductive ExchangedAll (swap : Chain → Chain → Prop) : List String → List Node → List Node → Prop
  | nil {bound : List String} : ExchangedAll swap bound [] []
  | cons {bound : List String} {node node' : Node} {rest rest' : List Node}
    (first : node.Exchanged swap bound node') (more : ExchangedAll swap bound rest rest') :
    ExchangedAll swap bound (node :: rest) (node' :: rest')

end

/-! ## Renderings -/

/-- Chains that are exchanged come to the same under the global variables. -/
def Exchangeable (swap : Chain → Chain → Prop) (globals : Binding) : Prop :=
  ∀ chain chain', swap chain chain' → globals.follow chain' = globals.follow chain

theorem eval_exchanged (hbinds : scope.Binds bound) (hswap : Exchangeable swap scope.globals) {e e' : Expr}
    (h : e.Exchanged swap bound e') : e'.eval scope = e.eval scope := by
  induction h with
  | refl => rfl
  | var known old new => rw [eval_chain (hbinds _ old), eval_chain (hbinds _ new), hswap _ _ known]
  | imported _ ih => rw [Expr.eval, Expr.eval, ih]
  | not _ ih => rw [Expr.eval, Expr.eval, ih]
  | eq _ _ left right => rw [Expr.eval, Expr.eval, left, right]
  | ne _ _ left right => rw [Expr.eval, Expr.eval, left, right]
  | and _ _ left right => rw [Expr.eval, Expr.eval, left, right]
  | or _ _ left right => rw [Expr.eval, Expr.eval, left, right]

mutual

/-- A node renders alike with some chains exchanged. -/
theorem render_exchanged : ∀ {bound : List String} {scope : Scope} {node node' : Node}, scope.Binds bound →
    Exchangeable swap scope.globals → node.Exchanged swap bound node' → render scope node' = render scope node
  | _, _, .text _, _, _, _, h => by
    cases h
    rfl
  | _, scope, .output e, _, hbinds, hswap, h => by
    cases h with
    | output h =>
      unfold render
      rw [eval_exchanged hbinds hswap h]
  | _, scope, .branch clauses otherwise, _, hbinds, hswap, h => by
    cases h with
    | branch first last =>
      unfold render
      rw [renderFirst_exchanged hbinds hswap first, renderAll_exchanged hbinds hswap last]
  | _, scope, .loop name items body, _, hbinds, hswap, h => by
    cases h with
    | @loop _ _ _ _ _ body' list inner =>
      have hround : ∀ item index, renderAll (scope.enter name item index) body' =
          renderAll (scope.enter name item index) body := fun item index =>
        renderAll_exchanged (hbinds.enter name item index) hswap inner
      unfold render
      rw [eval_exchanged hbinds hswap list]
      simp only [hround]

theorem renderFirst_exchanged : ∀ {bound : List String} {scope : Scope}
    {clauses clauses' : List (Expr × List Node)}, scope.Binds bound → Exchangeable swap scope.globals →
    ExchangedClauses swap bound clauses clauses' → renderFirst scope clauses' = renderFirst scope clauses
  | _, _, [], _, _, _, h => by
    cases h
    rfl
  | _, scope, (test, body) :: rest, _, hbinds, hswap, h => by
    cases h with
    | cons condition inner more =>
      unfold renderFirst
      rw [eval_exchanged hbinds hswap condition, renderAll_exchanged hbinds hswap inner,
        renderFirst_exchanged hbinds hswap more]

/-- **Nodes render alike with some chains exchanged.** -/
theorem renderAll_exchanged : ∀ {bound : List String} {scope : Scope} {nodes nodes' : List Node},
    scope.Binds bound → Exchangeable swap scope.globals → ExchangedAll swap bound nodes nodes' →
    renderAll scope nodes' = renderAll scope nodes
  | _, _, [], _, _, _, h => by
    cases h
    rfl
  | _, scope, node :: rest, _, hbinds, hswap, h => by
    cases h with
    | cons first more =>
      unfold renderAll
      rw [render_exchanged hbinds hswap first, renderAll_exchanged hbinds hswap more]

end

/-! ## Sources -/

/-- The statement with some chains exchanged. -/
inductive Statement.Exchanged (swap : Chain → Chain → Prop) (bound : List String) : Statement → Statement → Prop
  | test {condition condition' : Expr} (h : condition.Exchanged swap bound condition') :
    Exchanged swap bound (.test condition) (.test condition')
  | retest {condition condition' : Expr} (h : condition.Exchanged swap bound condition') :
    Exchanged swap bound (.retest condition) (.retest condition')
  | otherwise : Exchanged swap bound .otherwise .otherwise
  | close : Exchanged swap bound .close .close
  | loop {name : String} {items items' : Expr} (h : items.Exchanged swap bound items') :
    Exchanged swap bound (.loop name items) (.loop name items')

/-- The names that each open block binds behind a statement, innermost first. -/
def Statement.opens (opened : List (List String)) : Statement → List (List String)
  | .test _ => [] :: opened
  | .loop name _ => loopNames name :: opened
  | .retest _ | .otherwise => opened
  | .close => opened.tail

/-- The segments with some chains exchanged, behind open blocks that bind these names. A tag that cannot be read
stays as it is. -/
inductive SegmentsExchanged (swap : Chain → Chain → Prop) :
    List (List String) → List Segment → List Segment → Prop
  | nil {opened : List (List String)} : SegmentsExchanged swap opened [] []
  | text {opened : List (List String)} {chars : List Char} {rest rest' : List Segment}
    (more : SegmentsExchanged swap opened rest rest') :
    SegmentsExchanged swap opened (.text chars :: rest) (.text chars :: rest')
  | output {opened : List (List String)} {line : Nat} {code code' : List Char} {e e' : Expr}
    {rest rest' : List Segment} (old : Expr.ofCode line code = .ok e) (new : Expr.ofCode line code' = .ok e')
    (h : e.Exchanged swap opened.flatten e') (more : SegmentsExchanged swap opened rest rest') :
    SegmentsExchanged swap opened (.output line code :: rest) (.output line code' :: rest')
  | statement {opened : List (List String)} {line : Nat} {code code' : List Char} {statement statement' : Statement}
    {rest rest' : List Segment} (old : Statement.ofCode line code = .ok statement)
    (new : Statement.ofCode line code' = .ok statement')
    (h : statement.Exchanged swap opened.flatten statement')
    (more : SegmentsExchanged swap (statement.opens opened) rest rest') :
    SegmentsExchanged swap opened (.statement line code :: rest) (.statement line code' :: rest')
  | broken {opened : List (List String)} {segment : Segment} {rest rest' : List Segment}
    (broken : ¬segment.Parses) (more : SegmentsExchanged swap opened rest rest') :
    SegmentsExchanged swap opened (segment :: rest) (segment :: rest')

/-- The source with some chains exchanged. -/
def SourceExchanged (swap : Chain → Chain → Prop) (source source' : String) : Prop :=
  SameBut (SegmentsExchanged swap []) (Segment.scan source.toList) (Segment.scan source'.toList)

/-! ## Trees in the making -/

/-- The clause of a conditional with some chains exchanged. -/
def ClauseExchanged (swap : Chain → Chain → Prop) (bound : List String) (clause clause' : Expr × List Node) : Prop :=
  clause.1.Exchanged swap bound clause'.1 ∧ ExchangedAll swap bound clause.2 clause'.2

theorem exchangedAll_iff {nodes nodes' : List Node} :
    ExchangedAll swap bound nodes nodes' ↔ List.Forall₂ (Node.Exchanged swap bound) nodes nodes' := by
  constructor
  · intro h
    induction nodes generalizing nodes' with
    | nil =>
      cases h
      exact .nil
    | cons node rest ih =>
      cases h with
      | cons first more => exact .cons first (ih more)
  · intro h
    induction h with
    | nil => exact .nil
    | cons first _ ih => exact .cons first ih

theorem exchangedClauses_iff {clauses clauses' : List (Expr × List Node)} :
    ExchangedClauses swap bound clauses clauses' ↔ List.Forall₂ (ClauseExchanged swap bound) clauses clauses' := by
  constructor
  · intro h
    induction clauses generalizing clauses' with
    | nil =>
      cases h
      exact .nil
    | cons clause rest ih =>
      cases h with
      | cons condition inner more => exact .cons ⟨condition, inner⟩ (ih more)
  · intro h
    induction h with
    | nil => exact .nil
    | cons first _ ih => exact .cons first.1 first.2 ih

/-- Open blocks that bind these names, with some chains exchanged in each under the names that are bound around
and in it. Nodes and clauses are kept last first. -/
inductive StackExchanged (swap : Chain → Chain → Prop) : List (List String) → List Frame → List Frame → Prop
  | nil : StackExchanged swap [] [] []
  | branch {opened : List (List String)} {line : Nat} {clauses clauses' : List (Expr × List Node)}
    {test test' : Expr} {body body' : List Node} {outer outer' : List Frame}
    (before : List.Forall₂ (ClauseExchanged swap opened.flatten) clauses clauses')
    (condition : test.Exchanged swap opened.flatten test')
    (inner : List.Forall₂ (Node.Exchanged swap opened.flatten) body body')
    (around : StackExchanged swap opened outer outer') :
    StackExchanged swap ([] :: opened) (.branch line clauses test body :: outer)
      (.branch line clauses' test' body' :: outer')
  | otherwise {opened : List (List String)} {line : Nat} {clauses clauses' : List (Expr × List Node)}
    {body body' : List Node} {outer outer' : List Frame}
    (before : List.Forall₂ (ClauseExchanged swap opened.flatten) clauses clauses')
    (inner : List.Forall₂ (Node.Exchanged swap opened.flatten) body body')
    (around : StackExchanged swap opened outer outer') :
    StackExchanged swap ([] :: opened) (.otherwise line clauses body :: outer)
      (.otherwise line clauses' body' :: outer')
  | loop {opened : List (List String)} {line : Nat} {name : String} {items items' : Expr} {body body' : List Node}
    {outer outer' : List Frame} (list : items.Exchanged swap opened.flatten items')
    (inner : List.Forall₂ (Node.Exchanged swap (loopNames name ++ opened.flatten)) body body')
    (around : StackExchanged swap opened outer outer') :
    StackExchanged swap (loopNames name :: opened) (.loop line name items body :: outer)
      (.loop line name items' body' :: outer')

/-- A tree in the making with some chains exchanged. -/
structure BlocksExchanged (swap : Chain → Chain → Prop) (opened : List (List String)) (blocks blocks' : Blocks) :
    Prop where
  done : List.Forall₂ (Node.Exchanged swap []) blocks.done blocks'.done
  stack : StackExchanged swap opened blocks.stack blocks'.stack

variable {opened : List (List String)} {blocks blocks' : Blocks}

/-- Nodes with some chains exchanged are put into the innermost open block. -/
theorem BlocksExchanged.push (h : BlocksExchanged swap opened blocks blocks') {node node' : Node}
    (hnode : node.Exchanged swap opened.flatten node') :
    BlocksExchanged swap opened (blocks.push node) (blocks'.push node') := by
  obtain ⟨done, stack⟩ := blocks
  obtain ⟨done', stack'⟩ := blocks'
  obtain ⟨hdone, hstack⟩ := h
  cases hstack with
  | nil => exact ⟨.cons hnode hdone, .nil⟩
  -- what is bound in the innermost block is what is bound at the node
  | branch before condition inner around =>
    exact ⟨hdone, .branch before condition (.cons hnode inner) around⟩
  | otherwise before inner around => exact ⟨hdone, .otherwise before (.cons hnode inner) around⟩
  | loop list inner around => exact ⟨hdone, .loop list (.cons hnode inner) around⟩

/-- The body of a block in its order. -/
theorem exchangedAll_reverse {body body' : List Node}
    (h : List.Forall₂ (Node.Exchanged swap bound) body body') :
    ExchangedAll swap bound body.reverse body'.reverse :=
  exchangedAll_iff.mpr (List.forall₂_reverse_iff.mpr h)

/-- A block that ends with some chains exchanged is a node with some chains exchanged. -/
theorem node_exchanged {names : List String} {frame frame' : Frame} {outer outer' : List Frame}
    (h : StackExchanged swap (names :: opened) (frame :: outer) (frame' :: outer')) :
    frame.node.Exchanged swap opened.flatten frame'.node ∧ StackExchanged swap opened outer outer' := by
  cases h with
  | branch before condition inner around =>
    have hlast : ClauseExchanged swap opened.flatten (_, _) (_, _) := ⟨condition, exchangedAll_reverse inner⟩
    have hclauses := List.Forall₂.cons hlast before
    exact ⟨.branch (exchangedClauses_iff.mpr (List.forall₂_reverse_iff.mpr hclauses)) .nil, around⟩
  | otherwise before inner around =>
    exact ⟨.branch (exchangedClauses_iff.mpr (List.forall₂_reverse_iff.mpr before)) (exchangedAll_reverse inner),
      around⟩
  | loop list inner around => exact ⟨.loop list (exchangedAll_reverse inner), around⟩

/-- **A statement does the same to the open blocks with some chains exchanged.** -/
theorem apply_exchanged (h : BlocksExchanged swap opened blocks blocks') {statement statement' : Statement}
    (hstatement : statement.Exchanged swap opened.flatten statement') (line : Nat) :
    SameBut (BlocksExchanged swap (statement.opens opened)) (blocks.apply line statement)
      (blocks'.apply line statement') := by
  obtain ⟨done, stack⟩ := blocks
  obtain ⟨done', stack'⟩ := blocks'
  obtain ⟨hdone, hstack⟩ := h
  cases hstatement with
  | test hcondition =>
    refine .ok ?_
    exact ⟨hdone, .branch .nil hcondition .nil hstack⟩
  | loop hitems =>
    refine .ok ?_
    exact ⟨hdone, .loop hitems .nil hstack⟩
  | retest hcondition =>
    cases hstack with
    | nil => exact .error (SyntaxError.mk line .strayElsif)
    | branch before condition inner around =>
      refine .ok ?_
      exact ⟨hdone, .branch (.cons ⟨condition, exchangedAll_reverse inner⟩ before) hcondition .nil around⟩
    | otherwise | loop => exact .error (SyntaxError.mk line .strayElsif)
  | otherwise =>
    cases hstack with
    | nil => exact .error (SyntaxError.mk line .strayElse)
    | branch before condition inner around =>
      refine .ok ?_
      exact ⟨hdone, .otherwise (.cons ⟨condition, exchangedAll_reverse inner⟩ before) .nil around⟩
    | otherwise | loop => exact .error (SyntaxError.mk line .strayElse)
  | close =>
    cases stack with
    | nil =>
      cases hstack
      exact .error (SyntaxError.mk line .strayEnd)
    | cons frame outer =>
      -- the stacks have the same shape, so that both sides close a block
      obtain ⟨names, opened, rfl⟩ : ∃ names rest, opened = names :: rest := by
        cases hstack <;> exact ⟨_, _, rfl⟩
      obtain ⟨frame', outer', rfl⟩ : ∃ frame' outer', stack' = frame' :: outer' := by
        cases hstack <;> exact ⟨_, _, rfl⟩
      obtain ⟨hnode, hout⟩ := node_exchanged hstack
      have hrest : BlocksExchanged swap opened ⟨done, outer⟩ ⟨done', outer'⟩ := ⟨hdone, hout⟩
      exact .ok (hrest.push hnode)

/-- The reader goes over segments alike with some chains exchanged, by induction on the segments. -/
theorem run_exchanged {segments segments' : List Segment} (h : SegmentsExchanged swap opened segments segments') :
    ∀ {blocks blocks'}, BlocksExchanged swap opened blocks blocks' →
      SameBut (fun last last' => ∃ left, BlocksExchanged swap left last last') (segments.foldlM Blocks.step blocks)
        (segments'.foldlM Blocks.step blocks') := by
  induction h with
  | nil => exact fun hblocks => .ok ⟨_, hblocks⟩
  | text more ih => exact fun hblocks => ih (hblocks.push (.text _))
  | output old new h more ih =>
    intro blocks blocks' hblocks
    rw [List.foldlM_cons, List.foldlM_cons, Blocks.step, Blocks.step, old, new]
    exact ih (hblocks.push (.output h))
  | statement old new h more ih =>
    intro blocks blocks' hblocks
    rw [List.foldlM_cons, List.foldlM_cons, Blocks.step, Blocks.step, old, new]
    exact (apply_exchanged hblocks h _).bind fun _ _ => ih
  | broken broken more ih =>
    intro blocks blocks' hblocks
    obtain ⟨fault, hstep⟩ := step_broken broken
    rw [List.foldlM_cons, List.foldlM_cons, hstep, hstep]
    exact .error fault

/-- Blocks that never end are the same error with some chains exchanged. -/
theorem finish_exchanged (h : BlocksExchanged swap opened blocks blocks') :
    SameBut (ExchangedAll swap []) blocks.finish blocks'.finish := by
  obtain ⟨done, stack⟩ := blocks
  obtain ⟨done', stack'⟩ := blocks'
  obtain ⟨hdone, hstack⟩ := h
  cases hstack with
  | nil => exact .ok (exchangedAll_reverse hdone)
  | branch | otherwise | loop => exact .error _

/-- **A source with some chains exchanged is read to a tree with some chains exchanged,** or to the same error. -/
theorem parse_exchanged {source source' : String} (h : SourceExchanged swap source source') :
    SameBut (ExchangedAll swap []) (parse source) (parse source') := by
  have hstart : BlocksExchanged swap [] ⟨[], []⟩ ⟨[], []⟩ := ⟨.nil, .nil⟩
  exact h.bind fun segments segments' hsegments =>
    (run_exchanged hsegments hstart).bind fun _ _ ⟨_, hlast⟩ => finish_exchanged hlast

/-! ## Resolutions -/

/-- Engines of which one has some chains exchanged in its templates. -/
structure Engine.Exchanged (swap : Chain → Chain → Prop) (engine engine' : Engine) : Prop where
  root : engine'.sources.root = engine.sources.root
  limit : engine'.limit = engine.limit
  read : ∀ names, SameBut (SourceExchanged swap) (engine.sources.read names) (engine'.sources.read names)

variable {globals : Binding} {engine engine' : Engine}

theorem renderSource_exchanged (hswap : Exchangeable swap globals) {source source' : String}
    (h : SourceExchanged swap source source') (label : Path) (resolve : Path → Except Fault String) :
    Engine.renderSource label globals resolve source' = Engine.renderSource label globals resolve source := by
  have hparse := parse_exchanged h
  unfold Engine.renderSource
  generalize parse source = tree at hparse ⊢
  generalize parse source' = tree' at hparse ⊢
  cases hparse with
  | error fault => rfl
  | ok hnodes =>
    have hbinds : (⟨label, globals, [], resolve⟩ : Scope).Binds [] := fun _ _ => rfl
    show (renderAll _ _ >>= _) = (renderAll _ _ >>= _)
    rw [renderAll_exchanged hbinds hswap hnodes]

theorem resolveFrom_exchanged (hswap : Exchangeable swap globals) (h : engine.Exchanged swap engine') (room : Nat) :
    engine'.resolveFrom globals room = engine.resolveFrom globals room := by
  induction room with
  | zero =>
    funext stack path
    unfold Engine.resolveFrom
    rw [h.limit]
  | succ room ih =>
    funext stack path
    unfold Engine.resolveFrom
    cases hnames : normalize path with
    | error cause => rfl
    | ok names =>
      -- whether the template is in progress is asked of the same stack, so only what is read can differ
      have hread : ∀ label : Path, ((engine'.sources.read names).mapError fun fault =>
            (⟨label, .unreadable (engine'.sources.root.join label) fault⟩ : Fault)) >>=
            Engine.renderSource label globals (engine'.resolveFrom globals room (stack ++ [label])) =
          ((engine.sources.read names).mapError fun fault =>
            (⟨label, .unreadable (engine.sources.root.join label) fault⟩ : Fault)) >>=
            Engine.renderSource label globals (engine.resolveFrom globals room (stack ++ [label])) := by
        intro label
        have hsources := h.read names
        rw [h.root, ih]
        generalize engine.sources.read names = source at hsources ⊢
        generalize engine'.sources.read names = source' at hsources ⊢
        cases hsources with
        | error fault => rfl
        | ok hsource => exact renderSource_exchanged hswap hsource label _
      show (if _ then _ else _) = (if _ then _ else _)
      rw [hread]

/-- **Templates resolve alike with some chains exchanged,** and so do texts that import them. -/
theorem resolve_exchanged (hswap : Exchangeable swap globals) (h : engine.Exchanged swap engine') :
    (∀ path, engine'.resolve globals path = engine.resolve globals path) ∧
    ∀ name source source', SourceExchanged swap source source' →
      engine'.resolveText globals name source' = engine.resolveText globals name source := by
  constructor
  · intro path
    unfold Engine.resolve
    rw [resolveFrom_exchanged hswap h, h.limit]
  · intro name source source' hsource
    unfold Engine.resolveText
    rw [resolveFrom_exchanged hswap h, h.limit, renderSource_exchanged hswap hsource]

end Bindery.Template
