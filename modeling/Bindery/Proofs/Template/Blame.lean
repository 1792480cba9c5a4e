import Bindery.Proofs.Template.Stack

/-!
# `Proofs.Template.Blame` — where a rendering fails

A rendering fails with a fault of its own template, or as one of the imports that it asks for does
(`renderAll_blamed`, by recursion over the tree). The two do not overlap: when the fault is the template's
own, everything that has been asked for was answered (`Fatal.answered`).

**Contents.**
* `Cause.Arises` — the causes that arise in evaluating a template;
* `Blamed`, `eval_blamed`, `renderAll_blamed` — a fault is the template's own or that of an import;
* `renderSource_blamed` — the same for a source, which may be no template at all.
-/

namespace Bindery.Template

/-- The causes that arise in evaluating a template. -/
def Cause.Arises : Cause → Prop
  | .undefined _ | .notMapping .. | .notIterable _ | .notPrintable _ | .notPath _ => True
  | _ => False

theorem Cause.Arises.kind {cause : Cause} (h : cause.Arises) : cause.kind = .evaluation := by
  cases cause <;> first | rfl | exact h.elim

/-- If the result is a fault, it has arisen in the template itself, or one of the paths is answered with it. -/
def Blamed {α : Type} (label : Path) (resolve : Path → Except Fault String) (paths : List Path)
    (result : Except Fault α) : Prop :=
  ∀ fault, result = .error fault →
    (fault.path = label ∧ fault.cause.Arises) ∨ ∃ path ∈ paths, resolve path = .error fault

namespace Blamed

variable {α β : Type} {label : Path} {resolve : Path → Except Fault String} {x : Except Fault α}
  {f : α → Except Fault β} {front : List Path}

theorem ok {a : α} : Blamed label resolve [] (.ok a : Except Fault α) :=
  fun _ hfault => nomatch hfault

theorem own {cause : Cause} (h : cause.Arises) :
    Blamed label resolve [] (.error ⟨label, cause⟩ : Except Fault α) := by
  rintro fault ⟨⟩
  exact .inl ⟨rfl, h⟩

/-- A sequence fails at its first step or after it. -/
theorem bind {rest : α → List Path} (hfront : Blamed label resolve front x)
    (hrest : ∀ a, Blamed label resolve (rest a) (f a)) :
    Blamed label resolve (front ++ afterOk x rest) (x >>= f) := by
  intro fault hfault
  rcases bind_eq_error.mp hfault with hfirst | ⟨a, rfl, hnext⟩
  · exact (hfront fault hfirst).imp id fun ⟨path, hp, hpath⟩ => ⟨path, List.mem_append_left _ hp, hpath⟩
  · exact (hrest a fault hnext).imp id fun ⟨path, hp, hpath⟩ => ⟨path, List.mem_append_right _ hp, hpath⟩

/-- After the first step nothing more is asked for. -/
theorem first (hfront : Blamed label resolve front x) (hrest : ∀ a, Blamed label resolve [] (f a)) :
    Blamed label resolve front (x >>= f) := by
  intro fault hfault
  rcases bind_eq_error.mp hfault with hfirst | ⟨a, -, hnext⟩
  · exact hfront fault hfirst
  · refine (hrest a fault hnext).imp id fun ⟨path, hp, _⟩ => ?_
    exact absurd hp List.not_mem_nil

end Blamed

theorem Value.arises_of_select {fields : List String} {v : Value} {cause : Cause}
    (h : v.select fields = .error cause) : cause.Arises := by
  induction fields generalizing v with
  | nil =>
    unfold select at h
    cases h
  | cons name rest ih =>
    cases v with
    | map entries =>
      unfold select at h
      split at h
      · exact ih h
      · cases h
    | nil => cases h
    | bool b => cases h; trivial
    | str text => cases h; trivial
    | list items => cases h; trivial

/-- **An evaluation fails in its own template, or as an import does.** -/
theorem eval_blamed (scope : Scope) :
    ∀ e : Expr, Blamed scope.label scope.resolve (e.imports scope) (e.eval scope)
  | .str _ => .ok
  | .bool _ => .ok
  | .nil => .ok
  | .var head fields => by
    show Blamed _ _ [] _
    unfold Expr.eval
    split
    · next v _ =>
      cases hselect : v.select fields with
      | ok field => exact .ok
      | error cause => exact .own (Value.arises_of_select hselect)
    · exact .own trivial
  | .imported path => by
    refine .bind (eval_blamed scope path) fun v => ?_
    cases v with
    -- only here is a template asked for, and its fault is that of the import
    | str text =>
      have hasked : Blamed scope.label scope.resolve [⟨text⟩] (scope.resolve ⟨text⟩) :=
        fun fault hfault => .inr ⟨⟨text⟩, List.mem_cons_self, hfault⟩
      exact hasked.first fun _ => .ok
    | nil => exact .own trivial
    | bool b => exact .own trivial
    | list items => exact .own trivial
    | map fields => exact .own trivial
  | .not inner => (eval_blamed scope inner).first fun _ => .ok
  | .eq lhs rhs => .bind (eval_blamed scope lhs) fun _ => (eval_blamed scope rhs).first fun _ => .ok
  | .ne lhs rhs => .bind (eval_blamed scope lhs) fun _ => (eval_blamed scope rhs).first fun _ => .ok
  | .and lhs rhs => by
    refine .bind (eval_blamed scope lhs) fun a => ?_
    -- the right side is evaluated, and may ask, only when the left one is true
    by_cases ht : a.truthy = true
    · rw [if_pos ht, if_pos ht]
      exact eval_blamed scope rhs
    · rw [if_neg ht, if_neg ht]
      exact .ok
  | .or lhs rhs => by
    refine .bind (eval_blamed scope lhs) fun a => ?_
    by_cases ht : a.truthy = true
    · rw [if_pos ht, if_pos ht]
      exact .ok
    · rw [if_neg ht, if_neg ht]
      exact eval_blamed scope rhs

theorem renderEach_blamed {label : Path} {resolve : Path → Except Fault String}
    {body : Value → Nat → Except Fault String} {asked : Value → Nat → List Path}
    (hbody : ∀ item index, Blamed label resolve (asked item index) (body item index)) :
    ∀ (index : Nat) (items : List Value),
      Blamed label resolve (importsEach body asked index items) (renderEach body index items)
  | _, [] => .ok
  | index, item :: rest =>
    .bind (hbody item index) fun _ => (renderEach_blamed hbody (index + 1) rest).first fun _ => .ok

mutual

/-- **A rendering fails in its own template, or as an import does.** -/
theorem render_blamed : ∀ (scope : Scope) (node : Node),
    Blamed scope.label scope.resolve (node.imports scope) (render scope node)
  | _, .text _ => .ok
  | scope, .output e => by
    unfold render
    refine (eval_blamed scope e).first fun v => ?_
    split
    · exact .ok
    · exact .own trivial
  | scope, .branch clauses otherwise => by
    unfold render
    refine .bind (renderFirst_blamed scope clauses) fun taken => ?_
    cases taken with
    | some text => exact .ok
    | none => exact renderAll_blamed scope otherwise
  | scope, .loop name items body => by
    unfold render
    refine .bind (eval_blamed scope items) fun v => ?_
    cases v.items? with
    | none => exact .own trivial
    | some list =>
      refine renderEach_blamed (fun item index => ?_) 0 list
      exact renderAll_blamed (scope.enter name item index) body

theorem renderFirst_blamed : ∀ (scope : Scope) (clauses : List (Expr × List Node)),
    Blamed scope.label scope.resolve (importsFirst scope clauses) (renderFirst scope clauses)
  | _, [] => .ok
  | scope, (test, body) :: rest => by
    unfold renderFirst
    refine .bind (eval_blamed scope test) fun v => ?_
    by_cases ht : v.truthy = true
    · rw [if_pos ht, if_pos ht]
      exact (renderAll_blamed scope body).first fun _ => .ok
    · rw [if_neg ht, if_neg ht]
      exact renderFirst_blamed scope rest

theorem renderAll_blamed : ∀ (scope : Scope) (nodes : List Node),
    Blamed scope.label scope.resolve (importsAll scope nodes) (renderAll scope nodes)
  | _, [] => .ok
  | scope, node :: rest => by
    unfold renderAll
    exact .bind (render_blamed scope node) fun _ => (renderAll_blamed scope rest).first fun _ => .ok

end

/-- A sequence that does not end as one of the paths is answered has had all of them answered with texts. -/
theorem Fatal.answered {α : Type} {resolve : Path → Except Fault String} {paths : List Path}
    {result : Except Fault α} {fault : Fault} (hfatal : Fatal resolve paths result) (h : result = .error fault)
    (hnone : ¬∃ path ∈ paths, resolve path = .error fault) : Answered resolve paths := by
  intro path hpath
  cases hresolve : resolve path with
  | ok text => exact ⟨text, rfl⟩
  | error fault' =>
    cases (hfatal path hpath fault' hresolve).symm.trans h
    exact absurd ⟨path, hpath, hresolve⟩ hnone

/-- **A template that can be read fails** for its syntax, in its evaluation, or as an import does. In its
evaluation it fails only when all that it has asked for is answered. -/
theorem renderSource_blamed {label : Path} {globals : Binding} {resolve : Path → Except Fault String}
    {source : String} {fault : Fault} (h : Engine.renderSource label globals resolve source = .error fault) :
    (∃ error, parse source = .error error ∧ fault = ⟨label, .badSyntax error⟩) ∨
      (fault.path = label ∧ fault.cause.Arises ∧
        Answered resolve (sourceImports label globals resolve source)) ∨
      ∃ asked ∈ sourceImports label globals resolve source, resolve asked = .error fault := by
  have hfatal := renderSource_fatal label globals resolve source
  cases hparse : parse source with
  | error error =>
    unfold Engine.renderSource at h
    rw [hparse] at h
    cases h
    exact .inl ⟨error, rfl, rfl⟩
  | ok nodes =>
    right
    -- either an import has failed with this very fault, or all that was asked for is answered
    by_cases hnone : ∃ asked ∈ sourceImports label globals resolve source, resolve asked = .error fault
    · exact .inr hnone
    left
    have hanswered := hfatal.answered h hnone
    unfold Engine.renderSource at h
    unfold sourceImports at hnone
    rw [hparse] at h hnone
    have hblamed := renderAll_blamed { label, globals, locals := [], resolve } nodes
    have hblamed := hblamed.first fun text => .ok (a := Text.withoutFinalNewline text)
    obtain ⟨hpath, harises⟩ := (hblamed fault h).resolve_right hnone
    exact ⟨hpath, harises, hanswered⟩

end Bindery.Template
