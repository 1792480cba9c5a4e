import Bindery.Proofs.Template.Inlining

/-!
# `Proofs.Template.Reads` — what a resolution reads

A resolution reads the sources of some templates, and asks for imports on the way. Both are traced beside
the resolver. The trace of what is read is all that a resolution needs to know of its sources: two engines
that read the same there resolve alike (`resolveFrom_eq_of_reads`, by induction on the room).

An import that fails is the last thing that a resolution does: its fault is the fault of the template that
asked for it, and so on outwards (`renderAll_fatal` for one template, `importsFrom_fatal` for the whole
chain).

**Contents.**
* `Fatal`, `eval_fatal`, `renderAll_fatal` — a rendering ends with the first import that fails;
* `sourceImports`, `Engine.textImports` — the imports of a source, and those in resolving a text;
* `Engine.readsFrom`, `Engine.reads`, `Engine.textReads` — the templates that are read;
* `resolveFrom_busy`, `resolveFrom_idle` — one step of a resolution;
* `importsFrom_fatal` and `resolveFrom_eq_of_reads`, with the same for texts.
-/

namespace Bindery.Template

/-! ## A rendering ends with the first import that fails -/

/-- A fault that one of the paths is answered with is what everything ends with. -/
def Fatal {α : Type} (resolve : Path → Except Fault String) (paths : List Path)
    (result : Except Fault α) : Prop :=
  ∀ path ∈ paths, ∀ fault, resolve path = .error fault → result = .error fault

namespace Fatal

variable {α β : Type} {resolve : Path → Except Fault String} {x : Except Fault α} {f : α → Except Fault β}
  {front : List Path}

theorem nil : Fatal resolve [] x :=
  fun _ hp => absurd hp List.not_mem_nil

/-- What is fatal to the first step is fatal to the sequence. -/
theorem first (h : Fatal resolve front x) : Fatal resolve front (x >>= f) := by
  intro path hp fault hfault
  exact bind_eq_error.mpr (.inl (h path hp fault hfault))

/-- What is fatal to either step is fatal to the sequence. -/
theorem bind {rest : α → List Path} (hfront : Fatal resolve front x)
    (hrest : ∀ a, Fatal resolve (rest a) (f a)) :
    Fatal resolve (front ++ afterOk x rest) (x >>= f) := by
  intro path hp fault hfault
  rcases List.mem_append.mp hp with hp | hp
  · exact hfront.first path hp fault hfault
  · cases x with
    | error cause => exact absurd hp List.not_mem_nil
    | ok a => exact hrest a path hp fault hfault

end Fatal

/-- **An evaluation ends with the first import that fails.** -/
theorem eval_fatal (scope : Scope) : ∀ e : Expr, Fatal scope.resolve (e.imports scope) (e.eval scope)
  | .str _ => .nil
  | .bool _ => .nil
  | .nil => .nil
  | .var _ _ => .nil
  | .imported path => by
    refine .bind (eval_fatal scope path) fun v => ?_
    cases v with
    | str text =>
      -- what an import ends with is what the evaluation ends with
      have hasked : Fatal scope.resolve [⟨text⟩] (scope.resolve ⟨text⟩) := by
        intro path hp fault hfault
        rw [← List.mem_singleton.mp hp]
        exact hfault
      exact hasked.first
    | nil => exact .nil
    | bool b => exact .nil
    | list items => exact .nil
    | map fields => exact .nil
  | .not inner => (eval_fatal scope inner).first
  | .eq lhs rhs => .bind (eval_fatal scope lhs) fun _ => (eval_fatal scope rhs).first
  | .ne lhs rhs => .bind (eval_fatal scope lhs) fun _ => (eval_fatal scope rhs).first
  | .and lhs rhs => by
    refine .bind (eval_fatal scope lhs) fun a => ?_
    by_cases ht : a.truthy = true
    · rw [if_pos ht, if_pos ht]
      exact eval_fatal scope rhs
    · rw [if_neg ht]
      exact .nil
  | .or lhs rhs => by
    refine .bind (eval_fatal scope lhs) fun a => ?_
    by_cases ht : a.truthy = true
    · rw [if_pos ht]
      exact .nil
    · rw [if_neg ht, if_neg ht]
      exact eval_fatal scope rhs

theorem renderEach_fatal {body : Value → Nat → Except Fault String} {asked : Value → Nat → List Path}
    {resolve : Path → Except Fault String}
    (hbody : ∀ item index, Fatal resolve (asked item index) (body item index)) :
    ∀ (index : Nat) (items : List Value),
      Fatal resolve (importsEach body asked index items) (renderEach body index items)
  | _, [] => .nil
  | index, item :: rest => .bind (hbody item index) fun _ => (renderEach_fatal hbody (index + 1) rest).first

mutual

/-- **A rendering ends with the first import that fails.** -/
theorem render_fatal : ∀ (scope : Scope) (node : Node),
    Fatal scope.resolve (node.imports scope) (render scope node)
  | _, .text _ => .nil
  | scope, .output e => by
    unfold render
    exact (eval_fatal scope e).first
  | scope, .branch clauses otherwise => by
    unfold render
    refine .bind (renderFirst_fatal scope clauses) fun taken => ?_
    cases taken with
    | some text => exact .nil
    | none => exact renderAll_fatal scope otherwise
  | scope, .loop name items body => by
    unfold render
    refine .bind (eval_fatal scope items) fun v => ?_
    cases v.items? with
    | none => exact .nil
    | some list =>
      refine renderEach_fatal (fun item index => ?_) 0 list
      exact renderAll_fatal (scope.enter name item index) body

theorem renderFirst_fatal : ∀ (scope : Scope) (clauses : List (Expr × List Node)),
    Fatal scope.resolve (importsFirst scope clauses) (renderFirst scope clauses)
  | _, [] => .nil
  | scope, (test, body) :: rest => by
    unfold renderFirst
    refine .bind (eval_fatal scope test) fun v => ?_
    by_cases ht : v.truthy = true
    · rw [if_pos ht, if_pos ht]
      exact (renderAll_fatal scope body).first
    · rw [if_neg ht, if_neg ht]
      exact renderFirst_fatal scope rest

theorem renderAll_fatal : ∀ (scope : Scope) (nodes : List Node),
    Fatal scope.resolve (importsAll scope nodes) (renderAll scope nodes)
  | _, [] => .nil
  | scope, node :: rest => by
    unfold renderAll
    exact .bind (render_fatal scope node) fun _ => (renderAll_fatal scope rest).first

end

/-! ## The traces of a resolution -/

/-- The paths that rendering a source asks for. -/
def sourceImports (label : Path) (globals : Binding) (resolve : Path → Except Fault String)
    (source : String) : List Path :=
  match parse source with
  | .error _ => []
  | .ok nodes => importsAll { label, globals, locals := [], resolve } nodes

namespace Engine

/-- The imports evaluated anywhere in resolving a text. -/
def textImports (engine : Engine) (globals : Binding) (name : Path) (source : String) : List Import :=
  let resolve := engine.resolveFrom globals (engine.limit - 1) [name]
  (sourceImports name globals resolve source).flatMap fun asked =>
    ⟨asked, resolve asked⟩ :: engine.importsFrom globals (engine.limit - 1) [name] asked

/-- The templates whose sources are read anywhere in a resolution, in order. -/
def readsFrom (engine : Engine) (globals : Binding) :
    (room : Nat) → (stack : List Path) → (path : Path) → List (List Raw)
  | 0, _, _ => []
  | room + 1, stack, path =>
    match normalize path with
    | .error _ => []
    | .ok names =>
      let rel := Path.ofNames names
      if stack.any fun busy => decide (busy.Same rel) then []
      else names ::
        match engine.sources.read names with
        | .error _ => []
        | .ok source =>
          (sourceImports rel globals (engine.resolveFrom globals room (stack ++ [rel])) source).flatMap
            (engine.readsFrom globals room (stack ++ [rel]))

/-- The templates whose sources are read in resolving the template at a path. -/
def reads (engine : Engine) (globals : Binding) (path : Path) : List (List Raw) :=
  engine.readsFrom globals engine.limit [] path

/-- The templates whose sources are read in resolving a text. -/
def textReads (engine : Engine) (globals : Binding) (name : Path) (source : String) : List (List Raw) :=
  (sourceImports name globals (engine.resolveFrom globals (engine.limit - 1) [name]) source).flatMap
    (engine.readsFrom globals (engine.limit - 1) [name])

end Engine

open Engine

variable {engine engine' : Engine} {globals : Binding} {room : Nat} {stack : List Path} {path name : Path}
  {names : List Raw} {source : String}

/-! ## One step of a resolution -/

/-- A template that is in progress closes a cycle. -/
theorem resolveFrom_busy (hnames : normalize path = .ok names) (hbusy : Busy stack names) :
    engine.resolveFrom globals room stack path =
      .error ⟨Path.ofNames names, .cycle (stack ++ [Path.ofNames names])⟩ := by
  rw [resolveFrom, hnames]
  exact if_pos (any_busy_iff.mpr hbusy)

/-- A template that is not in progress is read and rendered. -/
theorem resolveFrom_idle (hnames : normalize path = .ok names) (hidle : ¬Busy stack names) :
    engine.resolveFrom globals (room + 1) stack path = (do
      let source ← (engine.sources.read names).mapError fun fault =>
        ⟨Path.ofNames names, .unreadable (engine.sources.root.join (Path.ofNames names)) fault⟩
      renderSource (Path.ofNames names) globals
        (engine.resolveFrom globals room (stack ++ [Path.ofNames names])) source) := by
  rw [resolveFrom, hnames]
  exact if_neg (mt any_busy_iff.mp hidle)

/-- What a template that can be read is resolved to. -/
theorem resolveFrom_read (hnames : normalize path = .ok names) (hidle : ¬Busy stack names)
    (hread : engine.sources.read names = .ok source) :
    engine.resolveFrom globals (room + 1) stack path =
      renderSource (Path.ofNames names) globals
        (engine.resolveFrom globals room (stack ++ [Path.ofNames names])) source := by
  rw [resolveFrom_idle hnames hidle, hread]
  rfl

/-! ## A resolution ends with the first import that fails -/

theorem renderSource_fatal (label : Path) (globals : Binding) (resolve : Path → Except Fault String)
    (source : String) :
    Fatal resolve (sourceImports label globals resolve source) (renderSource label globals resolve source) := by
  unfold sourceImports renderSource
  cases parse source with
  | error cause => exact .nil
  | ok nodes => exact (renderAll_fatal { label, globals, locals := [], resolve } nodes).first

/-- The imports in a resolution are those of its template, with what is imported by them. -/
theorem mem_importsFrom {i : Import} (h : i ∈ engine.importsFrom globals (room + 1) stack path) :
    ∃ names source, normalize path = .ok names ∧ ¬Busy stack names ∧ engine.sources.read names = .ok source ∧
      ∃ asked ∈ sourceImports (Path.ofNames names) globals
          (engine.resolveFrom globals room (stack ++ [Path.ofNames names])) source,
        i = ⟨asked, engine.resolveFrom globals room (stack ++ [Path.ofNames names]) asked⟩ ∨
          i ∈ engine.importsFrom globals room (stack ++ [Path.ofNames names]) asked := by
  cases hnames : normalize path with
  | error cause =>
    simp only [importsFrom, hnames] at h
    exact absurd h List.not_mem_nil
  | ok names =>
    by_cases hbusy : Busy stack names
    · -- nothing is read of a template in progress
      simp only [importsFrom, hnames, if_pos (any_busy_iff.mpr hbusy)] at h
      exact absurd h List.not_mem_nil
    simp only [importsFrom, hnames, if_neg (mt any_busy_iff.mp hbusy)] at h
    cases hread : engine.sources.read names with
    | error fault =>
      simp only [hread] at h
      exact absurd h List.not_mem_nil
    | ok source =>
      refine ⟨names, source, rfl, hbusy, hread, ?_⟩
      unfold sourceImports
      cases hparse : parse source with
      | error cause =>
        simp only [hread, hparse] at h
        exact absurd h List.not_mem_nil
      | ok nodes =>
        simp only [hread, hparse] at h
        obtain ⟨asked, hasked, hi⟩ := List.mem_flatMap.mp h
        exact ⟨asked, hasked, List.mem_cons.mp hi⟩

/-- **A resolution ends with the first import that fails,** however deep it is. -/
theorem importsFrom_fatal {i : Import} {fault : Fault} (h : i ∈ engine.importsFrom globals room stack path)
    (hfault : i.result = .error fault) : engine.resolveFrom globals room stack path = .error fault := by
  induction room generalizing stack path with
  | zero => exact absurd h List.not_mem_nil
  | succ room ih =>
    obtain ⟨names, source, hnames, hbusy, hread, asked, hasked, hi⟩ := mem_importsFrom h
    rw [resolveFrom_read hnames hbusy hread]
    refine renderSource_fatal _ _ _ _ asked hasked fault ?_
    rcases hi with rfl | hi
    · exact hfault
    · exact ih hi

theorem textImports_fatal {i : Import} {fault : Fault} (h : i ∈ engine.textImports globals name source)
    (hfault : i.result = .error fault) : engine.resolveText globals name source = .error fault := by
  obtain ⟨asked, hasked, hi⟩ := List.mem_flatMap.mp h
  refine renderSource_fatal _ _ _ _ asked hasked fault ?_
  rcases List.mem_cons.mp hi with rfl | hi
  · exact hfault
  · exact importsFrom_fatal hi hfault

/-! ## A resolution needs no more of its sources than what it reads -/

/-- What a resolution reads when its template is not in progress. -/
theorem readsFrom_idle (hnames : normalize path = .ok names) (hidle : ¬Busy stack names) :
    engine.readsFrom globals (room + 1) stack path = names ::
      match engine.sources.read names with
      | .error _ => []
      | .ok source =>
        (sourceImports (Path.ofNames names) globals
          (engine.resolveFrom globals room (stack ++ [Path.ofNames names])) source).flatMap
            (engine.readsFrom globals room (stack ++ [Path.ofNames names])) := by
  rw [readsFrom, hnames]
  exact if_neg (mt any_busy_iff.mp hidle)

/-- What is read in a resolution is its template, or is read for what the template imports. -/
theorem mem_readsFrom {own : List Raw} (h : own ∈ engine.readsFrom globals (room + 1) stack path) :
    normalize path = .ok own ∨ ∃ stack' asked, own ∈ engine.readsFrom globals room stack' asked := by
  cases hnames : normalize path with
  | error cause =>
    rw [readsFrom, hnames] at h
    exact absurd h List.not_mem_nil
  | ok names =>
    by_cases hbusy : Busy stack names
    · have hnone : engine.readsFrom globals (room + 1) stack path = [] := by
        rw [readsFrom, hnames]
        exact if_pos (any_busy_iff.mpr hbusy)
      rw [hnone] at h
      exact absurd h List.not_mem_nil
    rw [readsFrom_idle hnames hbusy] at h
    rcases List.mem_cons.mp h with rfl | h
    · exact .inl rfl
    · split at h
      · exact absurd h List.not_mem_nil
      · obtain ⟨asked, -, hmem⟩ := List.mem_flatMap.mp h
        exact .inr ⟨_, asked, hmem⟩

/-- A source is rendered alike against resolvers that agree on what it asks for. -/
theorem renderSource_congr {label : Path} {resolve resolve' : Path → Except Fault String}
    (h : AgreeOn (sourceImports label globals resolve source) resolve resolve') :
    renderSource label globals resolve' source = renderSource label globals resolve source := by
  unfold sourceImports at h
  unfold renderSource
  cases hparse : parse source with
  | error cause => rfl
  | ok nodes =>
    rw [hparse] at h
    have hrender : renderAll { label, globals, locals := [], resolve := resolve' } nodes =
        renderAll { label, globals, locals := [], resolve } nodes := renderAll_congr h
    show (renderAll { label, globals, locals := [], resolve := resolve' } nodes >>= _) = _
    rw [hrender]
    rfl

/-- **A resolution needs no more of its sources than what it reads.** -/
theorem resolveFrom_eq_of_reads (hlimit : engine'.limit = engine.limit)
    (hroot : engine'.sources.root = engine.sources.root)
    (hread : ∀ names ∈ engine.readsFrom globals room stack path,
      engine'.sources.read names = engine.sources.read names) :
    engine'.resolveFrom globals room stack path = engine.resolveFrom globals room stack path := by
  induction room generalizing stack path with
  | zero =>
    rw [resolveFrom, resolveFrom, hlimit]
  | succ room ih =>
    cases hnames : normalize path with
    | error cause =>
      rw [resolveFrom, resolveFrom, hnames]
      rfl
    | ok names =>
      by_cases hbusy : Busy stack names
      · rw [resolveFrom_busy hnames hbusy, resolveFrom_busy hnames hbusy]
      rw [resolveFrom_idle hnames hbusy, resolveFrom_idle hnames hbusy, hroot]
      rw [readsFrom_idle hnames hbusy] at hread
      rw [hread names List.mem_cons_self]
      cases hsource : engine.sources.read names with
      | error fault => rfl
      | ok source =>
        rw [hsource] at hread
        refine renderSource_congr ?_
        -- what is imported has less room, and what it reads is read here
        intro asked hasked
        refine (ih ?_).symm
        intro names' hmem
        exact hread names' (List.mem_cons_of_mem _ (List.mem_flatMap.mpr ⟨asked, hasked, hmem⟩))

theorem resolve_eq_of_reads (hlimit : engine'.limit = engine.limit)
    (hroot : engine'.sources.root = engine.sources.root)
    (hread : ∀ names ∈ engine.reads globals path, engine'.sources.read names = engine.sources.read names) :
    engine'.resolve globals path = engine.resolve globals path := by
  unfold resolve
  rw [hlimit]
  exact resolveFrom_eq_of_reads hlimit hroot hread

theorem resolveText_eq_of_reads (hlimit : engine'.limit = engine.limit)
    (hroot : engine'.sources.root = engine.sources.root)
    (hread : ∀ names ∈ engine.textReads globals name source,
      engine'.sources.read names = engine.sources.read names) :
    engine'.resolveText globals name source = engine.resolveText globals name source := by
  unfold resolveText
  rw [hlimit]
  refine renderSource_congr ?_
  intro asked hasked
  refine (resolveFrom_eq_of_reads hlimit hroot ?_).symm
  intro names hmem
  exact hread names (List.mem_flatMap.mpr ⟨asked, hasked, hmem⟩)

end Bindery.Template
