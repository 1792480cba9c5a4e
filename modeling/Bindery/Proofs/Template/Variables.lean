import Bindery.Book.Basic
import Bindery.Proofs.Files.Access
import Bindery.Proofs.Template.Confinement
import Bindery.Proofs.Template.RoundTrip

/-!
# `Proofs.Template.Variables` — a template depends on the variables that it names

The words that a template names are the heads of the variables in its tree, wherever they stand: in a
branch that is never taken, or in a loop that binds them itself. A rendering looks up no other word among
the global variables, so two bindings that agree on these words render the tree alike (`renderAll_under`, by
recursion over the tree, with one case for each kind of expression and node). Loops only add to the local
variables, which are the same in both scopes.

What is imported is resolved under the same global variables. So two bindings have to agree on the words of
the templates that are read on the way, and no others (`resolveFrom_eq_of_words`, by induction on the room).

**Contents.**
* `Expr.heads`, `Node.heads`, `sourceWords`, `Sources.Mentions` — the words that are named;
* `SameOn` — two bindings that agree on some words;
* `eval_under`, `renderAll_under`, `resolveFrom_eq_of_words` — no other words are looked up;
* `binding_eq_of_ne_output` — what the format changes in what is seen of a book;
* `resolve_eq_of_mentioned` — resolution depends on the words that are named.
-/

namespace Bindery.Template

/-! ## The words that are named -/

/-- The heads of the variables in an expression. -/
def Expr.heads : Expr → List String
  | .str _ | .bool _ | .nil => []
  | .var head _ => [head]
  | .imported path => path.heads
  | .not inner => inner.heads
  | .eq lhs rhs | .ne lhs rhs | .and lhs rhs | .or lhs rhs => lhs.heads ++ rhs.heads

mutual

/-- The heads of the variables in a node. -/
def Node.heads : Node → List String
  | .text _ => []
  | .output e => e.heads
  | .branch clauses otherwise => headsClauses clauses ++ headsAll otherwise
  | .loop _ items body => items.heads ++ headsAll body

/-- The heads of the variables in the clauses of a conditional. -/
def headsClauses : List (Expr × List Node) → List String
  | [] => []
  | (test, body) :: rest => test.heads ++ (headsAll body ++ headsClauses rest)

/-- The heads of the variables in a list of nodes. -/
def headsAll : List Node → List String
  | [] => []
  | node :: rest => node.heads ++ headsAll rest

end

/-- The words that a source names, if it has a tree. -/
def sourceWords (source : String) : List String :=
  match parse source with
  | .ok nodes => headsAll nodes
  | .error _ => []

/-- A word is named in one of the templates below the source directory. -/
def Sources.Mentions (sources : Sources) (word : String) : Prop :=
  ∃ names source, names ≠ [] ∧ (∀ name ∈ names, Path.IsName name) ∧
    sources.read names = .ok source ∧ word ∈ sourceWords source

/-! ## Bindings that agree on what is named -/

/-- Two bindings that have the same value for each of some words, or both none. -/
def SameOn (words : List String) (globals globals' : Binding) : Prop :=
  ∀ word ∈ words, Dict.find? word globals' = Dict.find? word globals

variable {globals globals' : Binding}

namespace SameOn

variable {front rest : List String}

theorem left (h : SameOn (front ++ rest) globals globals') : SameOn front globals globals' :=
  fun word hmem => h word (List.mem_append_left rest hmem)

theorem right (h : SameOn (front ++ rest) globals globals') : SameOn rest globals globals' :=
  fun word hmem => h word (List.mem_append_right front hmem)

end SameOn

/-- The scope with other global variables. -/
def Scope.under (scope : Scope) (globals : Binding) : Scope :=
  { scope with globals }

theorem under_enter (scope : Scope) (globals : Binding) (name : String) (item : Value) (index : Nat) :
    (scope.under globals).enter name item index = (scope.enter name item index).under globals := rfl

theorem under_fault (scope : Scope) (globals : Binding) : (scope.under globals).fault = scope.fault := rfl

theorem under_resolve (scope : Scope) (globals : Binding) : (scope.under globals).resolve = scope.resolve :=
  rfl

variable {scope : Scope}

theorem under_find? {word : String} (h : Dict.find? word globals' = Dict.find? word scope.globals) :
    (scope.under globals').find? word = scope.find? word := by
  unfold Scope.find? Scope.under
  rw [h]

/-! ## A rendering looks up no other word -/

/-- **An evaluation looks up only the heads of its variables.** -/
theorem eval_under : ∀ {e : Expr}, SameOn e.heads scope.globals globals' →
    e.eval (scope.under globals') = e.eval scope
  | .str _, _ => rfl
  | .bool _, _ => rfl
  | .nil, _ => rfl
  | .var head fields, h => by
    unfold Expr.eval
    rw [under_find? (h head List.mem_cons_self), under_fault]
  | .imported path, h => by
    unfold Expr.eval
    rw [eval_under (e := path) h, under_fault, under_resolve]
  | .not inner, h => by
    unfold Expr.eval
    rw [eval_under (e := inner) h]
  | .eq lhs rhs, h => by
    unfold Expr.eval
    rw [eval_under (e := lhs) h.left, eval_under (e := rhs) h.right]
  | .ne lhs rhs, h => by
    unfold Expr.eval
    rw [eval_under (e := lhs) h.left, eval_under (e := rhs) h.right]
  | .and lhs rhs, h => by
    unfold Expr.eval
    rw [eval_under (e := lhs) h.left, eval_under (e := rhs) h.right]
  | .or lhs rhs, h => by
    unfold Expr.eval
    rw [eval_under (e := lhs) h.left, eval_under (e := rhs) h.right]

mutual

/-- **A rendering looks up only the heads of its variables.** -/
theorem render_under : ∀ {scope : Scope} {node : Node}, SameOn node.heads scope.globals globals' →
    render (scope.under globals') node = render scope node
  | _, .text _, _ => rfl
  | _, .output e, h => by
    unfold render
    rw [eval_under (e := e) h, under_fault]
  | scope, .branch clauses otherwise, h => by
    have hfirst : SameOn (headsClauses clauses) scope.globals globals' := h.left
    have hlast : SameOn (headsAll otherwise) scope.globals globals' := h.right
    unfold render
    rw [renderFirst_under hfirst, renderAll_under hlast]
  | scope, .loop name items body, h => by
    have hbody : SameOn (headsAll body) scope.globals globals' := h.right
    -- the rounds differ from each other in their local variables only
    have hround : ∀ item index, renderAll ((scope.under globals').enter name item index) body =
        renderAll (scope.enter name item index) body := by
      intro item index
      rw [under_enter]
      exact renderAll_under hbody
    unfold render
    rw [eval_under (e := items) h.left, under_fault]
    simp only [hround]

theorem renderFirst_under : ∀ {scope : Scope} {clauses : List (Expr × List Node)},
    SameOn (headsClauses clauses) scope.globals globals' →
    renderFirst (scope.under globals') clauses = renderFirst scope clauses
  | _, [], _ => rfl
  | scope, (test, body) :: rest, h => by
    have hbody : SameOn (headsAll body) scope.globals globals' := h.right.left
    have hrest : SameOn (headsClauses rest) scope.globals globals' := h.right.right
    unfold renderFirst
    rw [eval_under (e := test) h.left, renderAll_under hbody, renderFirst_under hrest]

theorem renderAll_under : ∀ {scope : Scope} {nodes : List Node},
    SameOn (headsAll nodes) scope.globals globals' →
    renderAll (scope.under globals') nodes = renderAll scope nodes
  | _, [], _ => rfl
  | scope, node :: rest, h => by
    have hnode : SameOn node.heads scope.globals globals' := h.left
    have hrest : SameOn (headsAll rest) scope.globals globals' := h.right
    unfold renderAll
    rw [render_under hnode, renderAll_under hrest]

end

/-- A source is rendered alike under bindings that agree on the words that it names. -/
theorem renderSource_under {label : Path} {resolve : Path → Except Fault String} {source : String}
    (h : SameOn (sourceWords source) globals globals') :
    Engine.renderSource label globals' resolve source = Engine.renderSource label globals resolve source := by
  unfold sourceWords at h
  unfold Engine.renderSource
  cases hparse : parse source with
  | error cause => rfl
  | ok nodes =>
    rw [hparse] at h
    have hrender : renderAll (Scope.under { label, globals, locals := [], resolve } globals') nodes =
        renderAll { label, globals, locals := [], resolve } nodes := renderAll_under h
    show (renderAll (Scope.under { label, globals, locals := [], resolve } globals') nodes >>= _) = _
    rw [hrender]
    rfl

/-! ## A resolution looks up the words of what it reads -/

variable {engine : Engine} {room : Nat} {stack : List Path} {path name : Path} {source : String}

/-- **A resolution looks up only words that are named in the templates that it reads.** -/
theorem resolveFrom_eq_of_words
    (h : ∀ names ∈ engine.readsFrom globals room stack path, ∀ source,
      engine.sources.read names = .ok source → SameOn (sourceWords source) globals globals') :
    engine.resolveFrom globals' room stack path = engine.resolveFrom globals room stack path := by
  induction room generalizing stack path with
  | zero => rw [Engine.resolveFrom, Engine.resolveFrom]
  | succ room ih =>
    cases hnames : normalize path with
    | error cause =>
      rw [Engine.resolveFrom, Engine.resolveFrom, hnames]
      rfl
    | ok names =>
      by_cases hbusy : Busy stack names
      · rw [resolveFrom_busy hnames hbusy, resolveFrom_busy hnames hbusy]
      rw [resolveFrom_idle hnames hbusy, resolveFrom_idle hnames hbusy]
      rw [readsFrom_idle hnames hbusy] at h
      cases hread : engine.sources.read names with
      | error fault => rfl
      | ok source =>
        have hwords : SameOn (sourceWords source) globals globals' := h names List.mem_cons_self source hread
        rw [hread] at h
        -- first the globals of this template are exchanged, then what its imports come to
        show Engine.renderSource _ globals' _ source = Engine.renderSource _ globals _ source
        rw [renderSource_under hwords]
        refine renderSource_congr ?_
        intro asked hasked
        refine (ih ?_).symm
        intro names' hmem
        exact h names' (List.mem_cons_of_mem _ (List.mem_flatMap.mpr ⟨asked, hasked, hmem⟩))

theorem resolveText_eq_of_words (hown : SameOn (sourceWords source) globals globals')
    (h : ∀ names ∈ engine.textReads globals name source, ∀ source,
      engine.sources.read names = .ok source → SameOn (sourceWords source) globals globals') :
    engine.resolveText globals' name source = engine.resolveText globals name source := by
  unfold Engine.resolveText
  rw [renderSource_under hown]
  refine renderSource_congr ?_
  intro asked hasked
  refine (resolveFrom_eq_of_words ?_).symm
  intro names hmem
  exact h names (List.mem_flatMap.mpr ⟨asked, hasked, hmem⟩)

theorem sameOn_of_mentions {names : List Raw}
    (hsame : ∀ word, engine.sources.Mentions word → Dict.find? word globals' = Dict.find? word globals)
    (hnames : names ≠ [] ∧ ∀ name ∈ names, Path.IsName name) (hread : engine.sources.read names = .ok source) :
    SameOn (sourceWords source) globals globals' :=
  fun word hmem => hsame word ⟨names, source, hnames.1, hnames.2, hread, hmem⟩

theorem resolve_eq_of_mentions
    (hsame : ∀ word, engine.sources.Mentions word → Dict.find? word globals' = Dict.find? word globals)
    (path : Path) : engine.resolve globals' path = engine.resolve globals path :=
  resolveFrom_eq_of_words fun _ hmem _ hread => sameOn_of_mentions hsame (named_of_mem_readsFrom hmem) hread

theorem resolveText_eq_of_mentions
    (hsame : ∀ word, engine.sources.Mentions word → Dict.find? word globals' = Dict.find? word globals)
    (hown : SameOn (sourceWords source) globals globals') (name : Path) :
    engine.resolveText globals' name source = engine.resolveText globals name source :=
  resolveText_eq_of_words hown fun _ hmem _ hread =>
    sameOn_of_mentions hsame (named_of_mem_textReads hmem) hread

/-! ## What is seen of a book -/

/-- In different formats, what is seen of a book differs in the name of the format only. -/
theorem binding_eq_of_ne_output {word : String} (h : word ≠ "output") (book : Book)
    (format format' : Format) :
    Dict.find? word (book.binding format') = Dict.find? word (book.binding format) := by
  unfold Book.binding
  rw [Dict.find?_overlay, Dict.find?_overlay]
  simp only [List.reverse_cons, List.reverse_nil, List.nil_append, List.cons_append, Dict.find?_cons,
    Dict.find?_nil, h.symm, if_false]

theorem bindingAt_eq_of_ne_output {word : String} (h : word ≠ "output") (book : Book)
    (format format' : Format) (buildDate : String) :
    Dict.find? word (book.bindingAt format' buildDate) = Dict.find? word (book.bindingAt format buildDate) := by
  unfold Book.bindingAt
  rw [Dict.find?_insert, Dict.find?_insert, binding_eq_of_ne_output h book format format']

/-- Bindings that differ at `output` only agree on what is named where `output` is not. -/
theorem same_of_not_output {mentions : String → Prop} (h : ¬mentions "output")
    (hsame : ∀ word, word ≠ "output" → Dict.find? word globals' = Dict.find? word globals) :
    ∀ word, mentions word → Dict.find? word globals' = Dict.find? word globals := by
  intro word hword
  refine hsame word ?_
  rintro rfl
  exact h hword

/-- **Templates depend only on the variables that they name.** Under two bindings that agree on every word
that heads a variable in a template below the source root, every path resolves to the same text or fault, and
so does every text that has no other words but such that they agree on. If `output` is not one of these words,
what is seen of a book in any two formats resolves everything alike, with a build date or without. -/
theorem resolve_eq_of_mentioned (files : Files) (root : Path) (limit : Nat) :
    (∀ globals globals' : Binding,
      (∀ word, (Engine.below files root limit).sources.Mentions word →
        Dict.find? word globals' = Dict.find? word globals) →
      (∀ path, (Engine.below files root limit).resolve globals' path =
        (Engine.below files root limit).resolve globals path) ∧
      ∀ name source,
        (∀ word ∈ sourceWords source, Dict.find? word globals' = Dict.find? word globals) →
        (Engine.below files root limit).resolveText globals' name source =
          (Engine.below files root limit).resolveText globals name source) ∧
    (¬(Engine.below files root limit).sources.Mentions "output" →
      ∀ (book : Book) (buildDate : String) (format format' : Format),
      (∀ path, (Engine.below files root limit).resolve (book.binding format') path =
        (Engine.below files root limit).resolve (book.binding format) path) ∧
      (∀ path, (Engine.below files root limit).resolve (book.bindingAt format' buildDate) path =
        (Engine.below files root limit).resolve (book.bindingAt format buildDate) path) ∧
      ∀ name source, "output" ∉ sourceWords source →
        (Engine.below files root limit).resolveText (book.binding format') name source =
          (Engine.below files root limit).resolveText (book.binding format) name source ∧
        (Engine.below files root limit).resolveText (book.bindingAt format' buildDate) name source =
          (Engine.below files root limit).resolveText (book.bindingAt format buildDate) name source) := by
  generalize Engine.below files root limit = engine
  refine ⟨?_, ?_⟩
  · intro globals globals' hsame
    exact ⟨resolve_eq_of_mentions hsame, fun name source hown => resolveText_eq_of_mentions hsame hown name⟩
  · intro hnone book buildDate format format'
    have hformat : ∀ word, word ≠ "output" → Dict.find? word (book.binding format') =
        Dict.find? word (book.binding format) :=
      fun word h => binding_eq_of_ne_output h book format format'
    have hdated : ∀ word, word ≠ "output" → Dict.find? word (book.bindingAt format' buildDate) =
        Dict.find? word (book.bindingAt format buildDate) :=
      fun word h => bindingAt_eq_of_ne_output h book format format' buildDate
    refine ⟨?_, ?_, ?_⟩
    · exact resolve_eq_of_mentions (same_of_not_output hnone hformat)
    · exact resolve_eq_of_mentions (same_of_not_output hnone hdated)
    · intro name source hown
      exact ⟨resolveText_eq_of_mentions (same_of_not_output hnone hformat) (same_of_not_output hown hformat) name,
        resolveText_eq_of_mentions (same_of_not_output hnone hdated) (same_of_not_output hown hdated) name⟩

/-- A list of chapters, under a title. -/
def contents : List Node :=
  [.output (.var "title" []), .loop "x" (.var "chapters" []) [.output (.var "x_index" [])]]

/-- A directory with one template in it. -/
def nook : Files where
  home := ["nook"]
  entries :=
    [(["nook"], .dir), (["nook", "book"], .dir),
     (["nook", "book", "contents"], .file (.ofText (Node.source contents)) false)]

theorem sourceWords_contents : sourceWords (Node.source contents) = ["title", "chapters", "x_index"] := by
  have hnormal : AllNormal contents := by
    simp only [contents, AllNormal, Node.Normal, Expr.Normal]
    decide
  have hparse : parse (Node.source contents) = .ok contents := parse_eq_ok hnormal String.toList_ofList
  unfold sourceWords
  rw [hparse]
  rfl

theorem ground_nook : nook.Ground ⟨"book"⟩ ["nook", "book"] where
  proper := .of_entries (by unfold Dict.Sorted; decide +kernel) (by decide +kernel) (by decide +kernel)
  leads := by unfold Files.Leads; decide +kernel
  dir := by decide +kernel
  plain := .of_entries (by simp [nook]) _

/-- Nothing but the template can be read there. -/
theorem read_nook {names : List Raw} (hfull : names ≠ []) (hnames : ∀ name ∈ names, Path.IsName name)
    (hread : (Engine.below nook ⟨"book"⟩ 64).sources.read names = .ok source) :
    source = Node.source contents := by
  rw [below_read, Path.join_ofNames hnames hfull] at hread
  obtain ⟨content, hfound, htext⟩ := bind_eq_ok.mp hread
  obtain ⟨executable, hfind⟩ := ground_nook.read_eq ⟨hfull, hnames, .inl rfl⟩ hfound
  obtain ⟨name, rest, rfl⟩ := List.exists_cons_of_ne_nil hfull
  simp [nook, Files.find?, Dict.find?] at hfind
  obtain ⟨-, rfl, -⟩ := hfind
  rw [Files.Content.text?_ofText] at htext
  cases htext
  rfl

theorem mentions_nook {word : String} (h : (Engine.below nook ⟨"book"⟩ 64).sources.Mentions word) :
    word ∈ ["title", "chapters", "x_index"] := by
  obtain ⟨names, source, hfull, hnames, hread, hword⟩ := h
  rw [read_nook hfull hnames hread, sourceWords_contents] at hword
  exact hword

/-- A book without chapters. -/
def booklet : Book where
  title := "Nook"
  author := "me"
  identifier := "n1"

/-- The contents of a book are the same in print as on a page, and whoever wrote it. -/
theorem resolve_eq_of_mentioned_nook :
    (Engine.below nook ⟨"book"⟩ 64).resolve (booklet.binding .pdf) ⟨"contents"⟩ =
      (Engine.below nook ⟨"book"⟩ 64).resolve (booklet.binding .html) ⟨"contents"⟩ ∧
    (Engine.below nook ⟨"book"⟩ 64).resolveText [("title", .str "Nook"), ("author", .str "you")] ⟨"x"⟩
        (Node.source contents) =
      (Engine.below nook ⟨"book"⟩ 64).resolveText [("title", .str "Nook")] ⟨"x"⟩ (Node.source contents) := by
  obtain ⟨hsame, hformat⟩ := resolve_eq_of_mentioned nook ⟨"book"⟩ 64
  have hnone : ¬(Engine.below nook ⟨"book"⟩ 64).sources.Mentions "output" :=
    fun h => absurd (mentions_nook h) (by decide)
  have hauthor : ∀ word ∈ ["title", "chapters", "x_index"],
      Dict.find? word [("title", Value.str "Nook"), ("author", .str "you")] =
        Dict.find? word [("title", .str "Nook")] := by
    decide
  refine ⟨(hformat hnone booklet "" .html .pdf).1 ⟨"contents"⟩, ?_⟩
  refine (hsame _ _ fun word h => hauthor word (mentions_nook h)).2 ⟨"x"⟩ _ fun word h => ?_
  rw [sourceWords_contents] at h
  exact hauthor word h

end Bindery.Template
