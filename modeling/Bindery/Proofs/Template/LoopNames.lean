import Bindery.Proofs.Template.Variables

/-!
# `Proofs.Template.LoopNames` — the names that loops bind

A loop binds two names in its body: its variable, and the variable with `_index` at its end. Which variable it is
makes no difference, if the body is written for another one (`render_loopOver`): the new names take the place
of the old ones as heads, but not in an inner loop that binds the old name itself. There the old name is left
alone, be it the variable of the inner loop or only its index. The other name goes on to be replaced, for one
loop may bind one of the two and not the other.

The new names must not stand in the body, neither as heads nor as names that an inner loop binds. So no head is
caught by the new names, and no inner loop catches them. The induction is over the tree, with two scopes that
give the same to each head that is left to be rendered (`Matches`); entering an inner loop keeps them so.

**Contents.**
* `Renaming`, `Expr.rename`, `renameAll` — new names for old ones, where no loop has bound the old ones;
* `Node.binders`, `FreshFor` — the names that inner loops bind, and the names that can be taken;
* `Matches`, `eval_renamed`, `renderAll_renamed` — renderings in scopes that match;
* `Renamed`, `renderAll_of_renamed` — trees in which some loops have other variables;
* `loop_names_scoped` — the names of a loop are visible in its body, and nowhere else.
-/

namespace Bindery.Template

/-! ## New names for old ones -/

/-- The names that a loop binds. -/
def loopNames (name : String) : List String :=
  [name, name ++ "_index"]

/-- Old names with the new ones that take their places. -/
abbrev Renaming := List (String × String)

namespace Renaming

/-- The name that takes the place of a word. -/
def apply (table : Renaming) (word : String) : String :=
  (Dict.find? word table).getD word

/-- The renaming inside a loop, which leaves alone what the loop binds. -/
def inside (table : Renaming) (name : String) : Renaming :=
  table.filter fun entry => entry.1 ∉ loopNames name

/-- The names of a loop with another variable. -/
def ofLoop (old new : String) : Renaming :=
  [(old, new), (old ++ "_index", new ++ "_index")]

end Renaming

/-- An expression with other heads. -/
def Expr.rename (table : Renaming) : Expr → Expr
  | .str text => .str text
  | .bool b => .bool b
  | .nil => .nil
  | .var head fields => .var (table.apply head) fields
  | .imported path => .imported (path.rename table)
  | .not inner => .not (inner.rename table)
  | .eq lhs rhs => .eq (lhs.rename table) (rhs.rename table)
  | .ne lhs rhs => .ne (lhs.rename table) (rhs.rename table)
  | .and lhs rhs => .and (lhs.rename table) (rhs.rename table)
  | .or lhs rhs => .or (lhs.rename table) (rhs.rename table)

mutual

/-- A node with other heads, where no loop in it binds them. -/
def Node.rename (table : Renaming) : Node → Node
  | .text text => .text text
  | .output e => .output (e.rename table)
  | .branch clauses otherwise => .branch (renameClauses table clauses) (renameAll table otherwise)
  | .loop name items body => .loop name (items.rename table) (renameAll (table.inside name) body)

/-- The clauses of a conditional with other heads. -/
def renameClauses (table : Renaming) : List (Expr × List Node) → List (Expr × List Node)
  | [] => []
  | (test, body) :: rest => (test.rename table, renameAll table body) :: renameClauses table rest

/-- A list of nodes with other heads. -/
def renameAll (table : Renaming) : List Node → List Node
  | [] => []
  | node :: rest => node.rename table :: renameAll table rest

end

mutual

/-- The names that loops in a node bind. -/
def Node.binders : Node → List String
  | .text _ | .output _ => []
  | .branch clauses otherwise => bindersClauses clauses ++ bindersAll otherwise
  | .loop name _ body => loopNames name ++ bindersAll body

/-- The names that loops in the clauses of a conditional bind. -/
def bindersClauses : List (Expr × List Node) → List String
  | [] => []
  | (_, body) :: rest => bindersAll body ++ bindersClauses rest

/-- The names that loops in a list of nodes bind. -/
def bindersAll : List Node → List String
  | [] => []
  | node :: rest => node.binders ++ bindersAll rest

end

/-- The names of a loop over `new` stand nowhere in a body, neither as heads nor as names of inner loops. -/
def FreshFor (new : String) (body : List Node) : Prop :=
  ∀ name ∈ loopNames new, name ∉ headsAll body ∧ name ∉ bindersAll body

/-! ## What is visible in a loop -/

variable {scope scope' : Scope} {name old new word : String} {item : Value} {index : Nat} {table : Renaming}
  {words front rest : List String}

/-- The index of a loop has another name than its variable. -/
theorem index_ne (name : String) : name ++ "_index" ≠ name := by
  intro heq
  have hlength := congrArg String.length heq
  rw [String.length_append] at hlength
  have hindex : "_index".length = 6 := by decide
  omega

theorem find?_enter_name (scope : Scope) (name : String) (item : Value) (index : Nat) :
    (scope.enter name item index).find? name = some item := by
  simp [Scope.enter, Scope.find?]

theorem find?_enter_index (scope : Scope) (name : String) (item : Value) (index : Nat) :
    (scope.enter name item index).find? (name ++ "_index") = some (.str (toString (index + 1))) := by
  simp [Scope.enter, Scope.find?, (index_ne name).symm]

/-- A loop hides no names but its own. -/
theorem find?_enter_of_not_mem (h : word ∉ loopNames name) :
    (scope.enter name item index).find? word = scope.find? word := by
  obtain ⟨hname, hindex⟩ : name ≠ word ∧ name ++ "_index" ≠ word := by
    simpa [loopNames, eq_comm] using h
  simp [Scope.enter, Scope.find?, hname, hindex]

/-- What a name of a loop stands for in its body does not depend on what is around the loop. -/
theorem exists_find?_enter (h : word ∈ loopNames name) (item : Value) (index : Nat) :
    ∃ v, ∀ scope : Scope, (scope.enter name item index).find? word = some v := by
  rcases List.mem_pair.mp h with rfl | rfl
  · exact ⟨item, fun scope => find?_enter_name scope _ item index⟩
  · exact ⟨_, fun scope => find?_enter_index scope name item index⟩

namespace Renaming

theorem apply_inside_of_mem (h : word ∈ loopNames name) : (table.inside name).apply word = word := by
  have hnone : Dict.find? word (table.inside name) = none :=
    Dict.find?_filter_of_false table fun _ => by simp [h]
  unfold apply
  rw [hnone]
  rfl

theorem apply_inside_of_not_mem (h : word ∉ loopNames name) :
    (table.inside name).apply word = table.apply word := by
  have hsame : Dict.find? word (table.inside name) = Dict.find? word table :=
    Dict.find?_filter_of_true table fun _ => by simp [h]
  unfold apply
  rw [hsame]

theorem apply_eq_or_mem (table : Renaming) (word : String) :
    table.apply word = word ∨ table.apply word ∈ table.map Prod.snd := by
  unfold apply
  cases hfind : Dict.find? word table with
  | none => exact .inl rfl
  | some new => exact .inr (List.mem_map_of_mem (Dict.mem_of_find? hfind))

theorem subset_inside (table : Renaming) (name : String) :
    (table.inside name).map Prod.snd ⊆ table.map Prod.snd :=
  List.map_subset _ (List.filter_subset_self table)

end Renaming

/-! ## Scopes that match -/

/-- Some words stand for the same in the first scope as the names in their places do in the second one. A word
that stands for nothing keeps its name, which a fault would tell. -/
structure Matches (table : Renaming) (words : List String) (scope scope' : Scope) : Prop where
  label : scope'.label = scope.label
  resolve : scope'.resolve = scope.resolve
  found : ∀ word ∈ words, scope'.find? (table.apply word) = scope.find? word
  named : ∀ word ∈ words, table.apply word = word ∨ scope.find? word ≠ none

namespace Matches

theorem fault (h : Matches table words scope scope') : scope'.fault = scope.fault := by
  unfold Scope.fault
  rw [h.label]

theorem mono (h : Matches table words scope scope') (hsub : front ⊆ words) :
    Matches table front scope scope' where
  label := h.label
  resolve := h.resolve
  found := fun word hmem => h.found word (hsub hmem)
  named := fun word hmem => h.named word (hsub hmem)

theorem left (h : Matches table (front ++ rest) scope scope') : Matches table front scope scope' :=
  h.mono (List.subset_append_left front rest)

theorem right (h : Matches table (front ++ rest) scope scope') : Matches table rest scope scope' :=
  h.mono (List.subset_append_right front rest)

/-- **Scopes that match go on to do so in an inner loop,** unless it binds one of the new names. -/
theorem enter (h : Matches table words scope scope')
    (hfree : ∀ new ∈ table.map Prod.snd, new ∉ loopNames name) (item : Value) (index : Nat) :
    Matches (table.inside name) words (scope.enter name item index) (scope'.enter name item index) where
  label := h.label
  resolve := h.resolve
  found := by
    intro word hmem
    by_cases hbound : word ∈ loopNames name
    · obtain ⟨v, hv⟩ := exists_find?_enter hbound item index
      rw [Renaming.apply_inside_of_mem hbound, hv, hv]
    · -- neither the word nor the name in its place is caught by the loop
      have hnew : table.apply word ∉ loopNames name := by
        rcases table.apply_eq_or_mem word with hsame | hnew
        · rwa [hsame]
        · exact hfree _ hnew
      rw [Renaming.apply_inside_of_not_mem hbound, find?_enter_of_not_mem hnew, find?_enter_of_not_mem hbound,
        h.found word hmem]
  named := by
    intro word hmem
    by_cases hbound : word ∈ loopNames name
    · exact .inl (Renaming.apply_inside_of_mem hbound)
    · rw [Renaming.apply_inside_of_not_mem hbound, find?_enter_of_not_mem hbound]
      exact h.named word hmem

/-- The rounds of a loop match those of the loop with another variable. -/
theorem ofLoop {body : List Node} (hfresh : FreshFor new body) (scope : Scope) (item : Value) (index : Nat) :
    Matches (Renaming.ofLoop old new) (headsAll body) (scope.enter old item index)
      (scope.enter new item index) := by
  have hname : (Renaming.ofLoop old new).apply old = new := by
    simp [Renaming.ofLoop, Renaming.apply]
  have hindex : (Renaming.ofLoop old new).apply (old ++ "_index") = new ++ "_index" := by
    simp [Renaming.ofLoop, Renaming.apply, (index_ne old).symm]
  have hother {word : String} (hout : word ∉ loopNames old) : (Renaming.ofLoop old new).apply word = word := by
    obtain ⟨hold, holdIndex⟩ : old ≠ word ∧ old ++ "_index" ≠ word := by
      simpa [loopNames, eq_comm] using hout
    simp [Renaming.ofLoop, Renaming.apply, hold, holdIndex]
  refine ⟨rfl, rfl, fun word hmem => ?_, fun word hmem => ?_⟩
  · by_cases hbound : word ∈ loopNames old
    · rcases List.mem_pair.mp hbound with rfl | rfl
      · rw [hname, find?_enter_name, find?_enter_name]
      · rw [hindex, find?_enter_index, find?_enter_index]
    · -- a head of the body is not one of the new names, so that both loops leave it alone
      have hnew : word ∉ loopNames new := fun hnew => (hfresh word hnew).1 hmem
      rw [hother hbound, find?_enter_of_not_mem hnew, find?_enter_of_not_mem hbound]
  · by_cases hbound : word ∈ loopNames old
    · obtain ⟨v, hv⟩ := exists_find?_enter hbound item index
      exact .inr (by rw [hv]; exact Option.some_ne_none v)
    · exact .inl (hother hbound)

end Matches

/-! ## Renderings in scopes that match -/

/-- **An expression with other heads has the same value,** or fails alike, in a scope that matches. -/
theorem eval_renamed : ∀ {e : Expr}, Matches table e.heads scope scope' →
    (e.rename table).eval scope' = e.eval scope
  | .str _, _ => rfl
  | .bool _, _ => rfl
  | .nil, _ => rfl
  | .var head fields, h => by
    have hhead : head ∈ (Expr.var head fields).heads := List.mem_cons_self
    unfold Expr.rename Expr.eval
    rw [h.found head hhead, h.fault]
    cases hfind : scope.find? head with
    | some v => rfl
    | none =>
      -- the fault tells the name, which is the same one
      have hname := (h.named head hhead).resolve_right fun hsome => hsome hfind
      rw [hname]
  | .imported path, h => by
    unfold Expr.rename Expr.eval
    rw [eval_renamed (e := path) h, h.fault, h.resolve]
  | .not inner, h => by
    unfold Expr.rename Expr.eval
    rw [eval_renamed (e := inner) h]
  | .eq lhs rhs, h => by
    unfold Expr.rename Expr.eval
    rw [eval_renamed (e := lhs) h.left, eval_renamed (e := rhs) h.right]
  | .ne lhs rhs, h => by
    unfold Expr.rename Expr.eval
    rw [eval_renamed (e := lhs) h.left, eval_renamed (e := rhs) h.right]
  | .and lhs rhs, h => by
    unfold Expr.rename Expr.eval
    rw [eval_renamed (e := lhs) h.left, eval_renamed (e := rhs) h.right]
  | .or lhs rhs, h => by
    unfold Expr.rename Expr.eval
    rw [eval_renamed (e := lhs) h.left, eval_renamed (e := rhs) h.right]

/-- None of the new names is among some names. -/
def Renaming.Avoids (table : Renaming) (names : List String) : Prop :=
  ∀ new ∈ table.map Prod.snd, new ∉ names

namespace Renaming.Avoids

theorem left (h : table.Avoids (front ++ rest)) : table.Avoids front :=
  fun new hnew hmem => h new hnew (List.mem_append_left _ hmem)

theorem right (h : table.Avoids (front ++ rest)) : table.Avoids rest :=
  fun new hnew hmem => h new hnew (List.mem_append_right _ hmem)

theorem inside (h : table.Avoids words) (name : String) : (table.inside name).Avoids words :=
  fun new hnew => h new (table.subset_inside name hnew)

end Renaming.Avoids

mutual

/-- **A node with other heads renders alike** in a scope that matches, if no loop in it binds the new names. -/
theorem render_renamed : ∀ {table : Renaming} {scope scope' : Scope} {node : Node},
    Matches table node.heads scope scope' → table.Avoids node.binders →
    render scope' (node.rename table) = render scope node
  | _, _, _, .text _, _, _ => rfl
  | _, _, _, .output e, h, _ => by
    unfold Node.rename render
    rw [eval_renamed (e := e) h, h.fault]
  | table, scope, scope', .branch clauses otherwise, h, hfree => by
    have hfirst : Matches table (headsClauses clauses) scope scope' := h.left
    have hlast : Matches table (headsAll otherwise) scope scope' := h.right
    have hfreeFirst : table.Avoids (bindersClauses clauses) := hfree.left
    have hfreeLast : table.Avoids (bindersAll otherwise) := hfree.right
    unfold Node.rename render
    rw [renderFirst_renamed hfirst hfreeFirst, renderAll_renamed hlast hfreeLast]
  | table, scope, scope', .loop name items body, h, hfree => by
    have hitems : Matches table items.heads scope scope' := h.left
    have hbody : Matches table (headsAll body) scope scope' := h.right
    have hnames : table.Avoids (loopNames name) := hfree.left
    have hinner : table.Avoids (bindersAll body) := hfree.right
    have hround : ∀ item index, renderAll (scope'.enter name item index) (renameAll (table.inside name) body) =
        renderAll (scope.enter name item index) body := fun item index =>
      renderAll_renamed (hbody.enter hnames item index) (hinner.inside name)
    unfold Node.rename render
    rw [eval_renamed (e := items) hitems, h.fault]
    simp only [hround]

theorem renderFirst_renamed : ∀ {table : Renaming} {scope scope' : Scope} {clauses : List (Expr × List Node)},
    Matches table (headsClauses clauses) scope scope' → table.Avoids (bindersClauses clauses) →
    renderFirst scope' (renameClauses table clauses) = renderFirst scope clauses
  | _, _, _, [], _, _ => rfl
  | table, scope, scope', (test, body) :: rest, h, hfree => by
    have hbody : Matches table (headsAll body) scope scope' := h.right.left
    have hrest : Matches table (headsClauses rest) scope scope' := h.right.right
    have hfreeBody : table.Avoids (bindersAll body) := hfree.left
    have hfreeRest : table.Avoids (bindersClauses rest) := hfree.right
    unfold renameClauses renderFirst
    rw [eval_renamed (e := test) h.left, renderAll_renamed hbody hfreeBody, renderFirst_renamed hrest hfreeRest]

theorem renderAll_renamed : ∀ {table : Renaming} {scope scope' : Scope} {nodes : List Node},
    Matches table (headsAll nodes) scope scope' → table.Avoids (bindersAll nodes) →
    renderAll scope' (renameAll table nodes) = renderAll scope nodes
  | _, _, _, [], _, _ => rfl
  | table, scope, scope', node :: rest, h, hfree => by
    have hnode : Matches table node.heads scope scope' := h.left
    have hrest : Matches table (headsAll rest) scope scope' := h.right
    have hfreeNode : table.Avoids node.binders := hfree.left
    have hfreeRest : table.Avoids (bindersAll rest) := hfree.right
    unfold renameAll renderAll
    rw [render_renamed hnode hfreeNode, renderAll_renamed hrest hfreeRest]

end

/-- The loop over the same items with another variable. -/
def loopOver (old new : String) (items : Expr) (body : List Node) : Node :=
  .loop new items (renameAll (.ofLoop old new) body)

/-- **A loop renders alike with any variable** whose names are not in its body. -/
theorem render_loopOver {items : Expr} {body : List Node} (hfresh : FreshFor new body) (scope : Scope) :
    render scope (loopOver old new items body) = render scope (.loop old items body) := by
  have hfree : (Renaming.ofLoop old new).Avoids (bindersAll body) := by
    intro name hmem
    exact (hfresh name hmem).2
  have hround : ∀ item index, renderAll (scope.enter new item index) (renameAll (.ofLoop old new) body) =
      renderAll (scope.enter old item index) body := fun item index =>
    renderAll_renamed (.ofLoop hfresh scope item index) hfree
  unfold loopOver render
  simp only [hround]

/-! ## Loops anywhere in a template -/

mutual

/-- `Renamed node node'`: `node'` is `node` with some of the loops in it over other variables. -/
inductive Renamed : Node → Node → Prop where
  | text (text : String) : Renamed (.text text) (.text text)
  | output (e : Expr) : Renamed (.output e) (.output e)
  | branch {clauses clauses' : List (Expr × List Node)} {otherwise otherwise' : List Node} :
      RenamedClauses clauses clauses' → RenamedAll otherwise otherwise' →
      Renamed (.branch clauses otherwise) (.branch clauses' otherwise')
  | loop {name : String} {items : Expr} {body body' : List Node} : RenamedAll body body' →
      Renamed (.loop name items body) (.loop name items body')
  | fresh {old new : String} {items : Expr} {body body' : List Node} : RenamedAll body body' →
      FreshFor new body' → Renamed (.loop old items body) (loopOver old new items body')

/-- The bodies of clauses with some of the loops in them over other variables. -/
inductive RenamedClauses : List (Expr × List Node) → List (Expr × List Node) → Prop where
  | nil : RenamedClauses [] []
  | cons {test : Expr} {body body' : List Node} {rest rest' : List (Expr × List Node)} :
      RenamedAll body body' → RenamedClauses rest rest' →
      RenamedClauses ((test, body) :: rest) ((test, body') :: rest')

/-- Nodes with some of the loops in them over other variables. -/
inductive RenamedAll : List Node → List Node → Prop where
  | nil : RenamedAll [] []
  | cons {node node' : Node} {rest rest' : List Node} :
      Renamed node node' → RenamedAll rest rest' → RenamedAll (node :: rest) (node' :: rest')

end

/-- Loops with bodies that render alike. -/
theorem render_loop_congr {items : Expr} {body body' : List Node}
    (hbody : ∀ scope, renderAll scope body' = renderAll scope body) (scope : Scope) :
    render scope (.loop name items body') = render scope (.loop name items body) := by
  unfold render
  simp only [hbody]

mutual

theorem render_of_renamed : ∀ {node node' : Node}, Renamed node node' →
    ∀ scope, render scope node' = render scope node
  | .text _, _, h, _ => by
    cases h
    rfl
  | .output _, _, h, _ => by
    cases h
    rfl
  | .branch clauses otherwise, _, h, scope => by
    cases h with
    | branch hclauses hotherwise =>
      unfold render
      rw [renderFirst_of_renamed hclauses, renderAll_of_renamed hotherwise]
  | .loop _ _ body, _, h, scope => by
    cases h with
    | loop hbody => exact render_loop_congr (renderAll_of_renamed hbody) scope
    | fresh hbody hfresh =>
      rw [render_loopOver hfresh, render_loop_congr (renderAll_of_renamed hbody)]

theorem renderFirst_of_renamed : ∀ {clauses clauses' : List (Expr × List Node)}, RenamedClauses clauses clauses' →
    ∀ scope, renderFirst scope clauses' = renderFirst scope clauses
  | [], _, h, _ => by
    cases h
    rfl
  | (test, body) :: rest, _, h, scope => by
    cases h with
    | cons hbody hrest =>
      unfold renderFirst
      rw [renderAll_of_renamed hbody, renderFirst_of_renamed hrest]

/-- **A template renders alike when some of its loops are over other variables.** -/
theorem renderAll_of_renamed : ∀ {nodes nodes' : List Node}, RenamedAll nodes nodes' →
    ∀ scope, renderAll scope nodes' = renderAll scope nodes
  | [], _, h, _ => by
    cases h
    rfl
  | node :: rest, _, h, scope => by
    cases h with
    | cons hnode hrest =>
      unfold renderAll
      rw [render_of_renamed hnode, renderAll_of_renamed hrest]

end

/-! ## The names of a loop -/

/-- **Loop variables are lexically scoped.** A loop renders to the same text or fault over any variable whose
names are not in its body, wherever it stands, and so does a template in which some loops are over other
variables. What follows a loop is rendered as if the loop were not there, with its text in front. An import in
any loops comes to what its path is resolved to under the global variables, and of the template at that path
nothing but these is visible. -/
theorem loop_names_scoped :
    (∀ (old new : String) (items : Expr) (body : List Node), FreshFor new body → ∀ scope,
      render scope (loopOver old new items body) = render scope (.loop old items body)) ∧
    (∀ nodes nodes', RenamedAll nodes nodes' → ∀ label globals resolve,
      Engine.renderNodes label globals resolve nodes' = Engine.renderNodes label globals resolve nodes) ∧
    (∀ (scope : Scope) (name : String) (items : Expr) (body after : List Node) (text : String),
      render scope (.loop name items body) = .ok text →
      renderAll scope (.loop name items body :: after) = (renderAll scope after).map (text ++ ·)) ∧
    ∀ (engine : Engine) (globals : Binding) (room : Nat) (stack : List Path) (scope : Scope) (path : Expr)
      (target : String), scope.resolve = engine.resolveFrom globals room stack →
      path.eval scope = .ok (.str target) →
      (Expr.imported path).eval scope = (engine.resolveFrom globals room stack ⟨target⟩).map .str ∧
      ∀ (left : Nat) (names : List Raw) (source : String) (nodes : List Node), room = left + 1 →
        normalize ⟨target⟩ = .ok names → ¬Busy stack names → engine.sources.read names = .ok source →
        parse source = .ok nodes →
        engine.resolveFrom globals room stack ⟨target⟩ = Engine.renderNodes (Path.ofNames names) globals
          (engine.resolveFrom globals left (stack ++ [Path.ofNames names])) nodes := by
  refine ⟨fun old new items body => render_loopOver, ?_, ?_, ?_⟩
  · intro nodes nodes' hrenamed label globals resolve
    unfold Engine.renderNodes
    rw [renderAll_of_renamed hrenamed]
  · intro scope name items body after text hloop
    rw [renderAll, hloop]
    cases renderAll scope after <;> rfl
  · intro engine globals room stack scope path target hresolve hpath
    constructor
    · have hasked : (Expr.imported path).eval scope = (do return .str (← scope.resolve ⟨target⟩)) := by
        rw [Expr.eval, hpath]
        rfl
      rw [hasked, hresolve]
      cases engine.resolveFrom globals room stack ⟨target⟩ <;> rfl
    · rintro left names source nodes rfl hnames hidle hread hparse
      rw [resolveFrom_read hnames hidle hread, Engine.renderSource, hparse]
      rfl

/-- A body with a loop that binds the variable `a_index`, but not the index that belongs to it. -/
def spiral : List Node :=
  [.output (.var "a_index" []),
   .loop "a" (.var "xs" []) [.output (.var "a_index" []), .output (.var "a_index_index" [])]]

/-- A page in which a loop around has the names of the spiral, and the one that an imported part prints. -/
def spiralScope : Scope where
  label := ⟨"page"⟩
  globals := shelfGlobals
  locals := [("a_index", .str "./part"), ("x", .str "l")]
  resolve := shelf.resolveFrom shelfGlobals 1 [⟨"page"⟩]

/-- The spiral over `b` leaves alone what the inner loop binds, wherever it stands. After it the variable is what
it was before, and what is imported does not see the loop around. -/
theorem loop_names_scoped_spiral :
    (FreshFor "b" spiral ∧
      render spiralScope (.loop "b" (.var "xs" []) [.output (.var "b" []),
        .loop "a" (.var "xs" []) [.output (.var "a_index" []), .output (.var "b_index" [])]]) =
          .ok "1112121222") ∧
    (RenamedAll [.loop "x" (.var "xs" []) [.loop "a_index" (.var "xs" []) spiral]]
        [.loop "x" (.var "xs" []) [loopOver "a_index" "b" (.var "xs" []) spiral]] ∧
      Engine.renderNodes ⟨"page"⟩ shelfGlobals spiralScope.resolve
        [.loop "x" (.var "xs" []) [loopOver "a_index" "b" (.var "xs" []) spiral]] =
          .ok "11121212221112121222") ∧
    renderAll spiralScope [.loop "a_index" (.var "xs" []) spiral, .output (.var "a_index" [])] =
      .ok "1112121222./part" ∧
    (Expr.imported (.var "a_index" [])).eval spiralScope = .ok (.str "[g]") ∧
    Engine.renderNodes (Path.ofNames ["part"]) shelfGlobals
      (shelf.resolveFrom shelfGlobals 0 [⟨"page"⟩, Path.ofNames ["part"]]) shelfPart = .ok "[g]" := by
  obtain ⟨hover, htree, hafter, himport⟩ := loop_names_scoped
  have hfresh : FreshFor "b" spiral := by
    unfold FreshFor
    decide +kernel
  have hspiral : render spiralScope (.loop "a_index" (.var "xs" []) spiral) = .ok "1112121222" := by
    decide +kernel
  have hbody : RenamedAll spiral spiral :=
    .cons (.output _) (.cons (.loop (.cons (.output _) (.cons (.output _) .nil))) .nil)
  have hrenamed : RenamedAll [.loop "x" (.var "xs" []) [.loop "a_index" (.var "xs" []) spiral]]
      [.loop "x" (.var "xs" []) [loopOver "a_index" "b" (.var "xs" []) spiral]] :=
    .cons (.loop (.cons (.fresh hbody hfresh) .nil)) .nil
  obtain ⟨hasked, hread⟩ := himport shelf shelfGlobals 1 [⟨"page"⟩] spiralScope (.var "a_index" []) "./part" rfl
    (by decide +kernel)
  refine ⟨⟨hfresh, ?_⟩, ⟨hrenamed, ?_⟩, ?_, ?_, ?_⟩
  · exact (hover "a_index" "b" (.var "xs" []) spiral hfresh spiralScope).trans hspiral
  · refine (htree _ _ hrenamed _ _ _).trans ?_
    decide +kernel
  · rw [hafter spiralScope "a_index" _ spiral _ _ hspiral]
    decide +kernel
  · rw [hasked, shelf_part]
    rfl
  · have hnormal : AllNormal shelfPart := by
      simp [AllNormal, Node.Normal, Expr.Normal, shelfPart, Node.isText]
      decide
    have hfree : ¬Busy [⟨"page"⟩] ["part"] := mt any_busy_iff.mpr (by decide +kernel)
    exact (hread 0 ["part"] _ shelfPart rfl (by decide +kernel) hfree rfl
      (parse_eq_ok hnormal String.toList_ofList)).symm.trans shelf_part

end Bindery.Template
