import Bindery.Proofs.Template.Imports
import Bindery.Proofs.Template.RoundTrip

/-!
# `Proofs.Template.Inlining` — an import is the text that it inlines

A template that resolves while others are in progress resolves to the same text on its own: with more
room and fewer templates in progress no step of the resolution can go wrong that did not before
(`resolveFrom_mono`). The induction is on the room; the rendering in between is carried over by what it
asks its resolver for (`renderNodes_mono`).

So an output tag that imports a literal path can be replaced by the text that the path resolves to
(`Inlined`), anywhere in a template and any number of times, without a change to what is rendered.

**Contents.**
* `Engine.renderNodes` and `resolveFrom_eq_ok` — what a resolution that ends well has gone through;
* `resolveFrom_mono` and `imports_alone` — imports do not depend on where they stand;
* `Inlined`, `InlinedClauses`, `InlinedAll` — a tree with some imports replaced by their texts;
* `import_is_inlining` — both, for every resolution that ends well.
-/

namespace Bindery.Template

open Bindery.Text

variable {engine : Engine} {globals : Binding}

/-! ## What a resolution goes through -/

namespace Engine

/-- The text of a parsed template. -/
def renderNodes (label : Path) (globals : Binding) (resolve : Path → Except Fault String)
    (nodes : List Node) : Except Fault String := do
  let text ← renderAll { label, globals, locals := [], resolve } nodes
  return withoutFinalNewline text

/-- The text of a parsed template that stands for the one at `names` in a resolution of its own. -/
def renderInPlace (engine : Engine) (globals : Binding) (names : List Raw) (nodes : List Node) :
    Except Fault String :=
  renderNodes (Path.ofNames names) globals
    (engine.resolveFrom globals (engine.limit - 1) [Path.ofNames names]) nodes

end Engine

open Engine

/-- A template is on the stack already. -/
def Busy (stack : List Path) (names : List Raw) : Prop :=
  ∃ busy ∈ stack, busy.Same (Path.ofNames names)

theorem any_busy_iff {stack : List Path} {names : List Raw} :
    (stack.any fun busy => decide (busy.Same (Path.ofNames names))) = true ↔ Busy stack names := by
  rw [List.any_eq_true]
  constructor
  · rintro ⟨busy, hmem, hsame⟩
    exact ⟨busy, hmem, of_decide_eq_true hsame⟩
  · rintro ⟨busy, hmem, hsame⟩
    exact ⟨busy, hmem, decide_eq_true hsame⟩

theorem renderSource_eq_ok {label : Path} {resolve : Path → Except Fault String} {source text : String} :
    renderSource label globals resolve source = .ok text ↔
      ∃ nodes, parse source = .ok nodes ∧ renderNodes label globals resolve nodes = .ok text := by
  unfold renderSource renderNodes
  rw [bind_eq_ok]
  constructor
  · rintro ⟨nodes, hparse, hrender⟩
    exact ⟨nodes, mapError_eq_ok.mp hparse, hrender⟩
  · rintro ⟨nodes, hparse, hrender⟩
    exact ⟨nodes, mapError_eq_ok.mpr hparse, hrender⟩

/-- **A resolution that ends well**: the path has a normal form that is not in progress, there is room
for it, and its source can be read, parsed and rendered with one place less. -/
theorem resolveFrom_eq_ok {room : Nat} {stack : List Path} {path : Path} {text : String} :
    engine.resolveFrom globals room stack path = .ok text ↔
      ∃ names left source nodes, normalize path = .ok names ∧ ¬Busy stack names ∧ room = left + 1 ∧
        engine.sources.read names = .ok source ∧ parse source = .ok nodes ∧
        renderNodes (Path.ofNames names) globals
          (engine.resolveFrom globals left (stack ++ [Path.ofNames names])) nodes = .ok text := by
  unfold resolveFrom
  rw [bind_eq_ok]
  constructor
  · rintro ⟨names, hnames, h⟩
    have hnames := mapError_eq_ok.mp hnames
    by_cases hbusy : Busy stack names
    · simp only [if_pos (any_busy_iff.mpr hbusy)] at h
      cases h
    · simp only [if_neg (mt any_busy_iff.mp hbusy)] at h
      cases room with
      | zero => cases h
      | succ left =>
        obtain ⟨source, hread, hsource⟩ := bind_eq_ok.mp h
        obtain ⟨nodes, hparse, hrender⟩ := renderSource_eq_ok.mp hsource
        exact ⟨names, left, source, nodes, hnames, hbusy, rfl, mapError_eq_ok.mp hread, hparse, hrender⟩
  · rintro ⟨names, left, source, nodes, hnames, hbusy, rfl, hread, hparse, hrender⟩
    refine ⟨names, mapError_eq_ok.mpr hnames, ?_⟩
    simp only [if_neg (mt any_busy_iff.mp hbusy)]
    exact bind_eq_ok.mpr ⟨source, mapError_eq_ok.mpr hread, renderSource_eq_ok.mpr ⟨nodes, hparse, hrender⟩⟩

/-! ## Imports do not depend on where they stand -/

/-- A rendering that ends well does so with every resolver that answers no less. -/
theorem renderNodes_mono {label : Path} {resolve resolve' : Path → Except Fault String}
    (hext : ∀ path text, resolve path = .ok text → resolve' path = .ok text) {nodes : List Node}
    {text : String} (h : renderNodes label globals resolve nodes = .ok text) :
    renderNodes label globals resolve' nodes = .ok text := by
  obtain ⟨body, hbody, hdrop⟩ := bind_eq_ok.mp h
  have hagree : AgreeOn (importsAll { label, globals, locals := [], resolve } nodes) resolve resolve' := by
    intro path hasked
    obtain ⟨inlined, hresolve⟩ := renderAll_answered hbody path hasked
    exact hresolve.trans (hext path inlined hresolve).symm
  have hsame := renderAll_congr hagree
  exact bind_eq_ok.mpr ⟨body, hsame.trans hbody, hdrop⟩

/-- **More room and fewer templates in progress change nothing.** -/
theorem resolveFrom_mono {room : Nat} {stack : List Path} {path : Path} {text : String}
    (h : engine.resolveFrom globals room stack path = .ok text) {room' : Nat} {stack' : List Path}
    (hroom : room ≤ room') (hstack : ∀ busy ∈ stack', busy ∈ stack) :
    engine.resolveFrom globals room' stack' path = .ok text := by
  induction room generalizing stack path text room' stack' with
  | zero =>
    obtain ⟨_, left, _, _, _, _, hleft, _⟩ := resolveFrom_eq_ok.mp h
    exact absurd hleft (Nat.succ_ne_zero left).symm
  | succ room ih =>
    obtain ⟨names, left, source, nodes, hnames, hbusy, hleft, hread, hparse, hrender⟩ :=
      resolveFrom_eq_ok.mp h
    obtain rfl : room = left := Nat.succ.inj hleft
    obtain ⟨left', rfl⟩ : ∃ k, room' = k + 1 := ⟨room' - 1, by omega⟩
    have hfree : ¬Busy stack' names := fun ⟨busy, hmem, hsame⟩ => hbusy ⟨busy, hstack busy hmem, hsame⟩
    refine resolveFrom_eq_ok.mpr ⟨names, left', source, nodes, hnames, hfree, rfl, hread, hparse, ?_⟩
    -- the imports of this template find less room and more templates in progress than it did
    refine renderNodes_mono (fun path text hpath => ih hpath (Nat.le_of_succ_le_succ hroom) ?_) hrender
    intro busy hmem
    rcases List.mem_append.mp hmem with hmem | hmem
    · exact List.mem_append_left _ (hstack busy hmem)
    · exact List.mem_append_right _ hmem

/-- What resolves in the course of a resolution resolves to the same on its own. -/
theorem resolve_alone {room : Nat} {stack : List Path} {path : Path} {text : String}
    (h : engine.resolveFrom globals room stack path = .ok text) (hroom : room ≤ engine.limit) :
    engine.resolve globals path = .ok text :=
  resolveFrom_mono h hroom fun _ hmem => absurd hmem List.not_mem_nil

/-- **Every import that a resolution evaluates resolves to the same on its own.** By induction on the
room: an import of the template itself was answered, and the imports in it are those of a resolution
with one place less. -/
theorem imports_alone {room : Nat} {stack : List Path} {path : Path} {text : String}
    (h : engine.resolveFrom globals room stack path = .ok text) (hroom : room ≤ engine.limit) :
    ∀ i ∈ engine.importsFrom globals room stack path,
      ∃ inlined, i.result = .ok inlined ∧ engine.resolve globals i.path = .ok inlined := by
  induction room generalizing stack path text with
  | zero => exact fun i hi => absurd hi List.not_mem_nil
  | succ room ih =>
    obtain ⟨names, left, source, nodes, hnames, hbusy, hleft, hread, hparse, hrender⟩ :=
      resolveFrom_eq_ok.mp h
    obtain rfl : room = left := Nat.succ.inj hleft
    obtain ⟨body, hbody, -⟩ := bind_eq_ok.mp hrender
    have hanswered := renderAll_answered hbody
    intro i hi
    simp only [importsFrom, hnames, if_neg (mt any_busy_iff.mp hbusy), hread, hparse,
      List.mem_flatMap] at hi
    obtain ⟨asked, hasked, hi⟩ := hi
    obtain ⟨inlined, hresolve⟩ := hanswered asked hasked
    rcases List.mem_cons.mp hi with rfl | hi
    · exact ⟨inlined, hresolve, resolve_alone hresolve (Nat.le_of_succ_le hroom)⟩
    · exact ih hresolve (Nat.le_of_succ_le hroom) i hi

/-! ## Replacing imports by their texts -/

mutual

/-- `Inlined engine globals node node'`: `node'` is `node` with some of the output tags that import a
literal path replaced by the text that the path resolves to on its own. -/
inductive Inlined (engine : Engine) (globals : Binding) : Node → Node → Prop where
  | text (text : String) : Inlined engine globals (.text text) (.text text)
  | output (e : Expr) : Inlined engine globals (.output e) (.output e)
  | inline {path text : String} : engine.resolve globals ⟨path⟩ = .ok text →
      Inlined engine globals (.output (.imported (.str path))) (.text text)
  | branch {clauses clauses' : List (Expr × List Node)} {otherwise otherwise' : List Node} :
      InlinedClauses engine globals clauses clauses' → InlinedAll engine globals otherwise otherwise' →
      Inlined engine globals (.branch clauses otherwise) (.branch clauses' otherwise')
  | loop {name : String} {items : Expr} {body body' : List Node} :
      InlinedAll engine globals body body' →
      Inlined engine globals (.loop name items body) (.loop name items body')

/-- The bodies of clauses with some imports replaced. -/
inductive InlinedClauses (engine : Engine) (globals : Binding) :
    List (Expr × List Node) → List (Expr × List Node) → Prop where
  | nil : InlinedClauses engine globals [] []
  | cons {test : Expr} {body body' : List Node} {rest rest' : List (Expr × List Node)} :
      InlinedAll engine globals body body' → InlinedClauses engine globals rest rest' →
      InlinedClauses engine globals ((test, body) :: rest) ((test, body') :: rest')

/-- Nodes with some imports replaced. -/
inductive InlinedAll (engine : Engine) (globals : Binding) : List Node → List Node → Prop where
  | nil : InlinedAll engine globals [] []
  | cons {node node' : Node} {rest rest' : List Node} :
      Inlined engine globals node node' → InlinedAll engine globals rest rest' →
      InlinedAll engine globals (node :: rest) (node' :: rest')

end

/-- What the scope resolves, the engine resolves to the same on its own. -/
def ResolvesAlone (engine : Engine) (globals : Binding) (scope : Scope) : Prop :=
  ∀ path text, scope.resolve path = .ok text → engine.resolve globals path = .ok text

/-- The rounds of a loop whose bodies render alike. -/
theorem renderEach_ok_congr {body body' : Value → Nat → Except Fault String}
    (hbody : ∀ item index text, body item index = .ok text → body' item index = .ok text) :
    ∀ {items : List Value} {index : Nat} {text : String}, renderEach body index items = .ok text →
      renderEach body' index items = .ok text
  | [], _, _, h => h
  | item :: rest, index, text, h => by
    obtain ⟨first, hfirst, h⟩ := bind_eq_ok.mp h
    obtain ⟨more, hmore, h⟩ := bind_eq_ok.mp h
    exact bind_eq_ok.mpr ⟨first, hbody item index first hfirst,
      bind_eq_ok.mpr ⟨more, renderEach_ok_congr hbody hmore, h⟩⟩

mutual

/-- **A node renders to the same text after some of its imports have been replaced.** -/
theorem render_inlined : ∀ {scope : Scope} {node node' : Node} {text : String},
    ResolvesAlone engine globals scope → Inlined engine globals node node' →
    render scope node = .ok text → render scope node' = .ok text
  | _, .text _, _, _, _, hi, h => by
    cases hi
    exact h
  | scope, .output e, _, text, hs, hi, h => by
    cases hi with
    | output => exact h
    | @inline path _ hresolve =>
      -- the import gave a text here, and on its own it gives that same text
      obtain ⟨v, hv, hprint⟩ := bind_eq_ok.mp h
      have hv : (do return Value.str (← scope.resolve ⟨path⟩)) = Except.ok v := hv
      obtain ⟨inlined, hscope, hvalue⟩ := bind_eq_ok.mp hv
      cases hvalue
      have hsame := (hs _ inlined hscope).symm.trans hresolve
      cases hsame
      exact hprint
  | scope, .branch clauses otherwise, _, text, hs, hi, h => by
    cases hi with
    | branch hclauses hotherwise =>
      unfold render at h ⊢
      obtain ⟨taken, htaken, h⟩ := bind_eq_ok.mp h
      refine bind_eq_ok.mpr ⟨taken, renderFirst_inlined hs hclauses htaken, ?_⟩
      cases taken with
      | some text => exact h
      | none => exact renderAll_inlined hs hotherwise h
  | scope, .loop name items body, _, text, hs, hi, h => by
    cases hi with
    | loop hbody =>
      unfold render at h ⊢
      obtain ⟨v, hv, h⟩ := bind_eq_ok.mp h
      refine bind_eq_ok.mpr ⟨v, hv, ?_⟩
      cases hitems : v.items? with
      | none => rw [hitems] at h; exact h
      | some list =>
        rw [hitems] at h
        refine renderEach_ok_congr (fun item index text hround => ?_) h
        have hinner : ResolvesAlone engine globals (scope.enter name item index) := hs
        exact renderAll_inlined hinner hbody hround

theorem renderFirst_inlined : ∀ {scope : Scope} {clauses clauses' : List (Expr × List Node)}
    {taken : Option String}, ResolvesAlone engine globals scope →
    InlinedClauses engine globals clauses clauses' →
    renderFirst scope clauses = .ok taken → renderFirst scope clauses' = .ok taken
  | _, [], _, _, _, hi, h => by
    cases hi
    exact h
  | scope, (test, body) :: rest, _, taken, hs, hi, h => by
    cases hi with
    | cons hbody hrest =>
      unfold renderFirst at h ⊢
      obtain ⟨v, hv, h⟩ := bind_eq_ok.mp h
      refine bind_eq_ok.mpr ⟨v, hv, ?_⟩
      by_cases ht : v.truthy = true
      · rw [if_pos ht] at h ⊢
        obtain ⟨text, htext, h⟩ := bind_eq_ok.mp h
        exact bind_eq_ok.mpr ⟨text, renderAll_inlined hs hbody htext, h⟩
      · rw [if_neg ht] at h ⊢
        exact renderFirst_inlined hs hrest h

theorem renderAll_inlined : ∀ {scope : Scope} {nodes nodes' : List Node} {text : String},
    ResolvesAlone engine globals scope → InlinedAll engine globals nodes nodes' →
    renderAll scope nodes = .ok text → renderAll scope nodes' = .ok text
  | _, [], _, _, _, hi, h => by
    cases hi
    exact h
  | scope, node :: rest, _, text, hs, hi, h => by
    cases hi with
    | cons hnode hrest =>
      unfold renderAll at h ⊢
      obtain ⟨first, hfirst, h⟩ := bind_eq_ok.mp h
      obtain ⟨more, hmore, h⟩ := bind_eq_ok.mp h
      exact bind_eq_ok.mpr ⟨first, render_inlined hs hnode hfirst,
        bind_eq_ok.mpr ⟨more, renderAll_inlined hs hrest hmore, h⟩⟩

end

/-! ## Import is inlining -/

/-- **Import is inlining.** When a template resolves, every import evaluated on the way resolves to the
same text on its own, and its tree with any of its literal imports replaced by the texts they resolve to,
rendered in its place, gives the same text. -/
theorem import_is_inlining {path : Path} {text : String}
    (h : engine.resolve globals path = .ok text) :
    (∀ i ∈ engine.imports globals path,
      ∃ inlined, i.result = .ok inlined ∧ engine.resolve globals i.path = .ok inlined) ∧
    ∃ names source nodes, normalize path = .ok names ∧ engine.sources.read names = .ok source ∧
      parse source = .ok nodes ∧ ∀ nodes', InlinedAll engine globals nodes nodes' →
        engine.renderInPlace globals names nodes' = .ok text := by
  refine ⟨imports_alone h (Nat.le_refl _), ?_⟩
  obtain ⟨names, left, source, nodes, hnames, -, hleft, hread, hparse, hrender⟩ :=
    resolveFrom_eq_ok.mp h
  refine ⟨names, source, nodes, hnames, hread, hparse, fun nodes' hinlined => ?_⟩
  have hlimit : engine.limit - 1 = left := by omega
  obtain ⟨body, hbody, hdrop⟩ := bind_eq_ok.mp hrender
  rw [renderInPlace, hlimit]
  refine bind_eq_ok.mpr ⟨body, renderAll_inlined ?_ hinlined hbody, hdrop⟩
  exact fun path text hpath => resolve_alone hpath (by omega)

/-! ### A page that imports in a loop

The loop binds the variable that the imported part prints; the part sees the global one. -/

/-- The tree of the page. -/
def shelfPage : List Node :=
  [.text "a", .loop "x" (.var "xs" []) [.output (.imported (.str "./part"))]]

/-- The tree of the part. -/
def shelfPart : List Node :=
  [.text "[", .output (.var "x" []), .text "]\n"]

/-- Two templates, of which one imports the other. -/
def shelf : Engine where
  sources :=
    { root := ⟨"book"⟩
      read := fun names =>
        if names = [("page" : Raw)] then .ok (Node.source shelfPage)
        else if names = [("part" : Raw)] then .ok (Node.source shelfPart)
        else .error .notFound }
  limit := 2

/-- The variables of the two templates. -/
def shelfGlobals : Binding :=
  [("x", .str "g"), ("xs", .list [.str "1", .str "2"])]

theorem render_import {scope : Scope} {path text : String} (h : scope.resolve ⟨path⟩ = .ok text) :
    render scope (.output (.imported (.str path))) = .ok text := by
  unfold render
  refine bind_eq_ok.mpr ⟨.str text, bind_eq_ok.mpr ⟨.str path, rfl, ?_⟩, rfl⟩
  exact bind_eq_ok.mpr ⟨text, h, rfl⟩

theorem shelf_part : shelf.resolveFrom shelfGlobals 1 [⟨"page"⟩] ⟨"./part"⟩ = .ok "[g]" := by
  have hnormal : AllNormal shelfPart := by
    simp [AllNormal, Node.Normal, Expr.Normal, shelfPart, Node.isText]
    decide
  have hfree : ¬Busy [⟨"page"⟩] ["part"] := mt any_busy_iff.mpr (by decide +kernel)
  refine resolveFrom_eq_ok.mpr ⟨["part"], 0, Node.source shelfPart, shelfPart, ?_, hfree, rfl, rfl,
    parse_eq_ok hnormal String.toList_ofList, ?_⟩
  · decide +kernel
  · decide +kernel

theorem shelf_page : shelf.resolve shelfGlobals ⟨"page"⟩ = .ok "a[g][g]" := by
  have hnormal : AllNormal shelfPage := by
    simp [AllNormal, Node.Normal, Expr.Normal, shelfPage, Node.isText]
    decide
  have hfree : ¬Busy [] ["page"] := mt any_busy_iff.mpr (by decide +kernel)
  refine resolveFrom_eq_ok.mpr ⟨["page"], 1, Node.source shelfPage, shelfPage, ?_, hfree, rfl, rfl,
    parse_eq_ok hnormal String.toList_ofList, ?_⟩
  · decide +kernel
  · have hnames : Path.ofNames ["page"] = ⟨"page"⟩ := by decide +kernel
    have hpart : shelf.resolveFrom shelfGlobals 1 ([] ++ [Path.ofNames ["page"]]) ⟨"./part"⟩ =
        .ok "[g]" := by
      rw [hnames]
      exact shelf_part
    have hbody (locals : List (String × Value)) :
        renderAll ⟨⟨"page"⟩, shelfGlobals, locals,
            shelf.resolveFrom shelfGlobals 1 ([] ++ [Path.ofNames ["page"]])⟩
          [.output (.imported (.str "./part"))] = .ok "[g]" := by
      unfold renderAll
      refine bind_eq_ok.mpr ⟨"[g]", render_import hpart, bind_eq_ok.mpr ⟨"", ?_, by decide +kernel⟩⟩
      unfold renderAll
      rfl
    have hloop : render ⟨⟨"page"⟩, shelfGlobals, [],
        shelf.resolveFrom shelfGlobals 1 ([] ++ [Path.ofNames ["page"]])⟩
          (.loop "x" (.var "xs" []) [.output (.imported (.str "./part"))]) = .ok "[g][g]" := by
      unfold render
      refine bind_eq_ok.mpr ⟨.list [.str "1", .str "2"], by decide +kernel, ?_⟩
      simp only [Value.items?, renderEach, Scope.enter, hbody]
      decide +kernel
    rw [hnames] at hloop ⊢
    have hall : renderAll ⟨⟨"page"⟩, shelfGlobals, [],
        shelf.resolveFrom shelfGlobals 1 ([] ++ [⟨"page"⟩])⟩ shelfPage = .ok "a[g][g]" := by
      unfold shelfPage renderAll
      refine bind_eq_ok.mpr ⟨"a", by unfold render; rfl, bind_eq_ok.mpr ⟨"[g][g]", ?_, by decide +kernel⟩⟩
      unfold renderAll
      refine bind_eq_ok.mpr ⟨"[g][g]", hloop, bind_eq_ok.mpr ⟨"", ?_, by decide +kernel⟩⟩
      unfold renderAll
      rfl
    exact bind_eq_ok.mpr ⟨"a[g][g]", hall, by decide +kernel⟩

/-- The page resolves, and so its imports are the text they inline. -/
theorem import_is_inlining_shelf :
    shelf.resolve shelfGlobals ⟨"page"⟩ = .ok "a[g][g]" ∧
    (∀ i ∈ shelf.imports shelfGlobals ⟨"page"⟩,
      ∃ inlined, i.result = .ok inlined ∧ shelf.resolve shelfGlobals i.path = .ok inlined) ∧
    ∃ names source nodes, normalize ⟨"page"⟩ = .ok names ∧ shelf.sources.read names = .ok source ∧
      parse source = .ok nodes ∧ ∀ nodes', InlinedAll shelf shelfGlobals nodes nodes' →
        shelf.renderInPlace shelfGlobals names nodes' = .ok "a[g][g]" :=
  ⟨shelf_page, import_is_inlining shelf_page⟩

end Bindery.Template
