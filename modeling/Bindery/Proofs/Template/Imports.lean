import Bindery.Proofs.Outcome
import Bindery.Template.Engine

/-!
# `Proofs.Template.Imports` — the imports that a rendering evaluates

A template is rendered against a resolver, which gives the text of an import. Beside the renderer stands
its trace: the paths that it asks the resolver for, in order, up to the first fault. The trace is what a
rendering needs to know of its resolver (`renderAll_congr`), and a rendering that ends well has had all
its imports answered (`renderAll_answered`).

The trace of a resolution adds to each import what it gave there, and goes on into the imported
template.

**Contents.**
* `Expr.imports`, `Node.imports`, `importsAll` — the paths that an evaluation asks for;
* `eval_congr`, `renderAll_congr` — nothing else is asked for;
* `eval_answered`, `renderAll_answered` — what is asked for is answered;
* `Engine.importsFrom` and `Engine.imports` — the trace of a resolution.
-/

namespace Bindery.Template

/-! ## The trace of a rendering -/

/-- What is asked for after a step, if it ends well. -/
def afterOk {ε α : Type} (result : Except ε α) (rest : α → List Path) : List Path :=
  match result with
  | .ok a => rest a
  | .error _ => []

/-- The paths that evaluating an expression asks the resolver for, in order. -/
def Expr.imports (scope : Scope) : Expr → List Path
  | .str _ | .bool _ | .nil | .var .. => []
  | .imported path =>
    path.imports scope ++ afterOk (path.eval scope) fun
      | .str text => [⟨text⟩]
      | _ => []
  | .not inner => inner.imports scope
  | .eq lhs rhs | .ne lhs rhs =>
    lhs.imports scope ++ afterOk (lhs.eval scope) fun _ => rhs.imports scope
  | .and lhs rhs =>
    lhs.imports scope ++ afterOk (lhs.eval scope) fun a => if a.truthy then rhs.imports scope else []
  | .or lhs rhs =>
    lhs.imports scope ++ afterOk (lhs.eval scope) fun a => if a.truthy then [] else rhs.imports scope

/-- The paths that the rounds of a loop ask for. -/
def importsEach (body : Value → Nat → Except Fault String) (asked : Value → Nat → List Path) :
    Nat → List Value → List Path
  | _, [] => []
  | index, item :: rest =>
    asked item index ++ afterOk (body item index) fun _ => importsEach body asked (index + 1) rest

mutual

/-- The paths that rendering a node asks for. -/
def Node.imports (scope : Scope) : Node → List Path
  | .text _ => []
  | .output e => e.imports scope
  | .branch clauses otherwise =>
    importsFirst scope clauses ++ afterOk (renderFirst scope clauses) fun
      | some _ => []
      | none => importsAll scope otherwise
  | .loop name items body =>
    items.imports scope ++ afterOk (items.eval scope) fun v =>
      match v.items? with
      | some items =>
        importsEach (fun item index => renderAll (scope.enter name item index) body)
          (fun item index => importsAll (scope.enter name item index) body) 0 items
      | none => []

/-- The paths that the clauses of a conditional ask for, up to the body of the one that is taken. -/
def importsFirst (scope : Scope) : List (Expr × List Node) → List Path
  | [] => []
  | (test, body) :: rest =>
    test.imports scope ++ afterOk (test.eval scope) fun v =>
      if v.truthy then importsAll scope body else importsFirst scope rest

/-- The paths that rendering a list of nodes asks for. -/
def importsAll (scope : Scope) : List Node → List Path
  | [] => []
  | node :: rest => node.imports scope ++ afterOk (render scope node) fun _ => importsAll scope rest

end

/-! ## What a rendering asks for is all that it needs -/

/-- The scope with another resolver. -/
def Scope.using (scope : Scope) (resolve : Path → Except Fault String) : Scope :=
  { scope with resolve }

theorem using_enter (scope : Scope) (resolve : Path → Except Fault String) (name : String)
    (item : Value) (index : Nat) :
    (scope.using resolve).enter name item index = (scope.enter name item index).using resolve := rfl

/-- Two resolvers that give the same for some paths. -/
def AgreeOn (paths : List Path) (resolve resolve' : Path → Except Fault String) : Prop :=
  ∀ path ∈ paths, resolve path = resolve' path

theorem AgreeOn.left {front rest : List Path} {resolve resolve' : Path → Except Fault String}
    (h : AgreeOn (front ++ rest) resolve resolve') : AgreeOn front resolve resolve' :=
  fun path hp => h path (List.mem_append_left rest hp)

theorem AgreeOn.right {front rest : List Path} {resolve resolve' : Path → Except Fault String}
    (h : AgreeOn (front ++ rest) resolve resolve') : AgreeOn rest resolve resolve' :=
  fun path hp => h path (List.mem_append_right front hp)

/-- Two sequences agree when their first steps do and what comes after agrees as far as it is asked. -/
theorem bind_congr_after {α β : Type} {x x' : Except Fault α} {f f' : α → Except Fault β}
    {rest : α → List Path} {resolve resolve' : Path → Except Fault String} (hx : x' = x)
    (hrest : AgreeOn (afterOk x rest) resolve resolve')
    (hf : ∀ a, AgreeOn (rest a) resolve resolve' → f' a = f a) : (x' >>= f') = (x >>= f) := by
  subst hx
  cases x' with
  | error fault => rfl
  | ok a => exact hf a hrest

/-- **Evaluation needs no more of its resolver than what it asks for.** -/
theorem eval_congr {scope : Scope} {resolve : Path → Except Fault String} :
    ∀ {e : Expr}, AgreeOn (e.imports scope) scope.resolve resolve →
      e.eval (scope.using resolve) = e.eval scope
  | .str _, _ => rfl
  | .bool _, _ => rfl
  | .nil, _ => rfl
  | .var _ _, _ => rfl
  | .imported path, h => by
    refine bind_congr_after (eval_congr h.left) h.right fun v hv => ?_
    cases v with
    | str text =>
      -- which template is asked for is known only after the path has been evaluated
      have hsame : scope.resolve ⟨text⟩ = resolve ⟨text⟩ := hv ⟨text⟩ List.mem_cons_self
      show (do return Value.str (← resolve ⟨text⟩)) = _
      rw [← hsame]
    | nil => rfl
    | bool b => rfl
    | list items => rfl
    | map fields => rfl
  | .not inner, h => by
    have hinner : inner.eval (scope.using resolve) = inner.eval scope := eval_congr h
    show (do return Value.bool !(← inner.eval (scope.using resolve)).truthy) = _
    rw [hinner]
    rfl
  | .eq lhs rhs, h => by
    refine bind_congr_after (eval_congr h.left) h.right fun a ha => ?_
    rw [eval_congr ha]
  | .ne lhs rhs, h => by
    refine bind_congr_after (eval_congr h.left) h.right fun a ha => ?_
    rw [eval_congr ha]
  | .and lhs rhs, h => by
    refine bind_congr_after (eval_congr h.left) h.right fun a ha => ?_
    by_cases ht : a.truthy = true
    · rw [if_pos ht] at ha ⊢
      rw [if_pos ht, eval_congr ha]
    · rw [if_neg ht, if_neg ht]
  | .or lhs rhs, h => by
    refine bind_congr_after (eval_congr h.left) h.right fun a ha => ?_
    by_cases ht : a.truthy = true
    · rw [if_pos ht, if_pos ht]
    · rw [if_neg ht] at ha ⊢
      rw [if_neg ht, eval_congr ha]

/-- The rounds of a loop agree when each of them does. -/
theorem renderEach_congr {body body' : Value → Nat → Except Fault String}
    {asked : Value → Nat → List Path} {resolve resolve' : Path → Except Fault String}
    (hbody : ∀ item index, AgreeOn (asked item index) resolve resolve' →
      body' item index = body item index) :
    ∀ {items : List Value} {index : Nat},
      AgreeOn (importsEach body asked index items) resolve resolve' →
      renderEach body' index items = renderEach body index items
  | [], _, _ => rfl
  | item :: rest, index, h => by
    refine bind_congr_after (hbody item index h.left) h.right fun text hrest => ?_
    rw [renderEach_congr hbody hrest]

mutual

/-- **Rendering needs no more of its resolver than what it asks for.** -/
theorem render_congr {resolve : Path → Except Fault String} :
    ∀ {scope : Scope} {node : Node}, AgreeOn (node.imports scope) scope.resolve resolve →
      render (scope.using resolve) node = render scope node
  | _, .text _, _ => rfl
  | scope, .output e, h => by
    have he : e.eval (scope.using resolve) = e.eval scope := eval_congr h
    unfold render
    rw [he]
    rfl
  | scope, .branch clauses otherwise, h => by
    unfold render
    refine bind_congr_after (renderFirst_congr h.left) h.right fun taken htaken => ?_
    cases taken with
    | some text => rfl
    | none => exact renderAll_congr htaken
  | scope, .loop name items body, h => by
    unfold render
    refine bind_congr_after (eval_congr h.left) h.right fun v hv => ?_
    cases hitems : v.items? with
    | none => rfl
    | some list =>
      rw [hitems] at hv
      refine renderEach_congr (fun item index hround => ?_) hv
      rw [using_enter]
      exact renderAll_congr hround

theorem renderFirst_congr {resolve : Path → Except Fault String} :
    ∀ {scope : Scope} {clauses : List (Expr × List Node)},
      AgreeOn (importsFirst scope clauses) scope.resolve resolve →
      renderFirst (scope.using resolve) clauses = renderFirst scope clauses
  | _, [], _ => rfl
  | scope, (test, body) :: rest, h => by
    refine bind_congr_after (eval_congr h.left) h.right fun v hv => ?_
    by_cases ht : v.truthy = true
    · rw [if_pos ht] at hv ⊢
      rw [if_pos ht, renderAll_congr hv]
    · rw [if_neg ht] at hv ⊢
      rw [if_neg ht, renderFirst_congr hv]

theorem renderAll_congr {resolve : Path → Except Fault String} :
    ∀ {scope : Scope} {nodes : List Node}, AgreeOn (importsAll scope nodes) scope.resolve resolve →
      renderAll (scope.using resolve) nodes = renderAll scope nodes
  | _, [], _ => rfl
  | scope, node :: rest, h => by
    refine bind_congr_after (render_congr h.left) h.right fun text htext => ?_
    rw [renderAll_congr htext]

end

/-! ## What a rendering asks for is answered -/

/-- Every path is answered with a text. -/
def Answered (resolve : Path → Except Fault String) (paths : List Path) : Prop :=
  ∀ path ∈ paths, ∃ text, resolve path = .ok text

/-- What a sequence that ends well asks for is answered when its two steps' questions are. -/
theorem Answered.bind {α β : Type} {resolve : Path → Except Fault String} {x : Except Fault α}
    {f : α → Except Fault β} {b : β} {front : List Path} {rest : α → List Path}
    (h : (x >>= f) = .ok b) (hfront : ∀ a, x = .ok a → Answered resolve front)
    (hrest : ∀ a, f a = .ok b → Answered resolve (rest a)) :
    Answered resolve (front ++ afterOk x rest) := by
  obtain ⟨a, rfl, hf⟩ := bind_eq_ok.mp h
  intro path hp
  rcases List.mem_append.mp hp with hp | hp
  · exact hfront a rfl path hp
  · exact hrest a hf path hp

theorem Answered.nil {resolve : Path → Except Fault String} : Answered resolve [] :=
  fun _ hp => absurd hp List.not_mem_nil

/-- An evaluation that ends well has had its imports answered. -/
theorem eval_answered {scope : Scope} :
    ∀ {e : Expr} {v : Value}, e.eval scope = .ok v → Answered scope.resolve (e.imports scope)
  | .str _, _, _ => Answered.nil
  | .bool _, _, _ => Answered.nil
  | .nil, _, _ => Answered.nil
  | .var _ _, _, _ => Answered.nil
  | .imported path, v, h => by
    refine Answered.bind h (fun a ha => eval_answered ha) fun a ha => ?_
    cases a with
    | str text =>
      -- the evaluation went on, so the template it asked for has been resolved
      obtain ⟨inlined, hresolve, -⟩ := bind_eq_ok.mp ha
      intro p hp
      rw [List.mem_singleton.mp hp]
      exact ⟨inlined, hresolve⟩
    | nil => exact Answered.nil
    | bool b => exact Answered.nil
    | list items => exact Answered.nil
    | map fields => exact Answered.nil
  | .not inner, v, h => by
    obtain ⟨a, ha, -⟩ := bind_eq_ok.mp h
    exact eval_answered (e := inner) ha
  | .eq lhs rhs, v, h => by
    refine Answered.bind h (fun a ha => eval_answered ha) fun a ha => ?_
    obtain ⟨b, hb, -⟩ := bind_eq_ok.mp ha
    exact eval_answered hb
  | .ne lhs rhs, v, h => by
    refine Answered.bind h (fun a ha => eval_answered ha) fun a ha => ?_
    obtain ⟨b, hb, -⟩ := bind_eq_ok.mp ha
    exact eval_answered hb
  | .and lhs rhs, v, h => by
    refine Answered.bind h (fun a ha => eval_answered ha) fun a ha => ?_
    by_cases ht : a.truthy = true
    · rw [if_pos ht] at ha ⊢
      exact eval_answered ha
    · rw [if_neg ht]
      exact Answered.nil
  | .or lhs rhs, v, h => by
    refine Answered.bind h (fun a ha => eval_answered ha) fun a ha => ?_
    by_cases ht : a.truthy = true
    · rw [if_pos ht]
      exact Answered.nil
    · rw [if_neg ht] at ha ⊢
      exact eval_answered ha

theorem renderEach_answered {body : Value → Nat → Except Fault String}
    {asked : Value → Nat → List Path} {resolve : Path → Except Fault String}
    (hbody : ∀ item index text, body item index = .ok text → Answered resolve (asked item index)) :
    ∀ {items : List Value} {index : Nat} {text : String}, renderEach body index items = .ok text →
      Answered resolve (importsEach body asked index items)
  | [], _, _, _ => Answered.nil
  | item :: rest, index, text, h => by
    refine Answered.bind h (fun a ha => hbody item index a ha) fun a ha => ?_
    obtain ⟨more, hmore, -⟩ := bind_eq_ok.mp ha
    exact renderEach_answered hbody hmore

mutual

/-- A rendering that ends well has had its imports answered. -/
theorem render_answered : ∀ {scope : Scope} {node : Node} {text : String},
    render scope node = .ok text → Answered scope.resolve (node.imports scope)
  | _, .text _, _, _ => Answered.nil
  | scope, .output e, text, h => by
    unfold render at h
    obtain ⟨v, hv, -⟩ := bind_eq_ok.mp h
    exact eval_answered hv
  | scope, .branch clauses otherwise, text, h => by
    unfold render at h
    refine Answered.bind h (fun a ha => renderFirst_answered ha) fun taken htaken => ?_
    cases taken with
    | some text => exact Answered.nil
    | none => exact renderAll_answered htaken
  | scope, .loop name items body, text, h => by
    unfold render at h
    refine Answered.bind h (fun a ha => eval_answered ha) fun v hv => ?_
    cases hitems : v.items? with
    | none => exact Answered.nil
    | some list =>
      rw [hitems] at hv
      refine renderEach_answered (fun item index text hround => ?_) hv
      have hanswered := renderAll_answered hround
      exact hanswered

theorem renderFirst_answered : ∀ {scope : Scope} {clauses : List (Expr × List Node)}
    {taken : Option String}, renderFirst scope clauses = .ok taken →
      Answered scope.resolve (importsFirst scope clauses)
  | _, [], _, _ => Answered.nil
  | scope, (test, body) :: rest, taken, h => by
    unfold renderFirst at h
    refine Answered.bind h (fun a ha => eval_answered ha) fun v hv => ?_
    by_cases ht : v.truthy = true
    · rw [if_pos ht] at hv ⊢
      obtain ⟨text, htext, -⟩ := bind_eq_ok.mp hv
      exact renderAll_answered htext
    · rw [if_neg ht] at hv ⊢
      exact renderFirst_answered hv

theorem renderAll_answered : ∀ {scope : Scope} {nodes : List Node} {text : String},
    renderAll scope nodes = .ok text → Answered scope.resolve (importsAll scope nodes)
  | _, [], _, _ => Answered.nil
  | scope, node :: rest, text, h => by
    unfold renderAll at h
    refine Answered.bind h (fun a ha => render_answered ha) fun a ha => ?_
    obtain ⟨more, hmore, -⟩ := bind_eq_ok.mp ha
    exact renderAll_answered hmore

end

/-! ## The trace of a resolution -/

/-- An import that was evaluated: the path that was asked for, and what it gave. -/
structure Import where
  path : Path
  result : Except Fault String

/-- The imports evaluated anywhere in a resolution, in order: those of the template itself, each
followed by those of the template that it imports. -/
def Engine.importsFrom (engine : Engine) (globals : Binding) :
    (room : Nat) → (stack : List Path) → (path : Path) → List Import
  | 0, _, _ => []
  | room + 1, stack, path =>
    match normalize path with
    | .error _ => []
    | .ok names =>
      let rel := Path.ofNames names
      let resolve := engine.resolveFrom globals room (stack ++ [rel])
      if stack.any fun busy => decide (busy.Same rel) then []
      else match engine.sources.read names with
        | .error _ => []
        | .ok source =>
          match parse source with
          | .error _ => []
          | .ok nodes =>
            (importsAll { label := rel, globals, locals := [], resolve } nodes).flatMap fun asked =>
              ⟨asked, resolve asked⟩ :: engine.importsFrom globals room (stack ++ [rel]) asked

/-- The imports evaluated anywhere in resolving the template at a path. -/
def Engine.imports (engine : Engine) (globals : Binding) (path : Path) : List Import :=
  engine.importsFrom globals engine.limit [] path

end Bindery.Template
