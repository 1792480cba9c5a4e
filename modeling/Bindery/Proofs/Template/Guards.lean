import Bindery.Proofs.Template.Stack

/-!
# `Proofs.Template.Guards` — the two guards of a resolution

Two things keep a resolution from going on for ever: a template that is in progress is not resolved once
more, and only so many templates may be in progress at once. The stack and the limit are used for nothing
else. So a resolution that does not end at one of the guards comes to the same with more room, and, unless
it is a cycle that it ends at, with fewer templates in progress (`resolveFrom_settled`, by induction on the
room).

The step goes by what a template asks for. A guard that an import ends at is where the whole resolution
ends, so that in a resolution that does not end at a guard no import does, and all imports come to the same.

**Contents.**
* `FailsWith` — the results that end with a fault of some kinds;
* `Covers` — a stack on which everything in another one can be found;
* `Alike`, `resolveFrom_settled` and `guards_settle`.
-/

namespace Bindery.Template

/-- The result is a fault of one of some kinds. -/
def FailsWith (kinds : List Kind) : Except Fault String → Prop
  | .ok _ => False
  | .error fault => fault.cause.kind ∈ kinds

/-- Each path of the second stack is on the first one, if perhaps written otherwise. -/
def Covers (stack stack' : List Path) : Prop :=
  ∀ busy' ∈ stack', ∃ busy ∈ stack, busy.Same busy'

variable {engine engine' : Engine} {globals : Binding} {room room' : Nat} {stack stack' : List Path}
  {path : Path} {names : List Raw} {guards : List Kind}

theorem Covers.concat (h : Covers stack stack') (path : Path) : Covers (stack ++ [path]) (stack' ++ [path]) := by
  intro busy' hmem
  rcases List.mem_append.mp hmem with hmem | hmem
  · obtain ⟨busy, hbusy, hsame⟩ := h busy' hmem
    exact ⟨busy, List.mem_append_left _ hbusy, hsame⟩
  · exact ⟨busy', List.mem_append_right _ hmem, rfl⟩

/-- What is busy on a stack is busy on one that covers it. -/
theorem Covers.busy (h : Covers stack stack') (hbusy : Busy stack' names) : Busy stack names := by
  obtain ⟨busy', hmem, hsame'⟩ := hbusy
  obtain ⟨busy, hbusy, hsame⟩ := h busy' hmem
  exact ⟨busy, hbusy, hsame.trans hsame'⟩

/-- Nothing that a rendering asks for ends at a guard if the rendering does not. -/
theorem asked_settled {label : Path} {resolve : Path → Except Fault String} {source : String}
    (h : ¬FailsWith guards (Engine.renderSource label globals resolve source)) :
    ∀ asked ∈ sourceImports label globals resolve source, ¬FailsWith guards (resolve asked) := by
  intro asked hasked hfails
  cases hresult : resolve asked with
  | ok text =>
    rw [hresult] at hfails
    exact hfails
  | error fault =>
    rw [renderSource_fatal label globals resolve source asked hasked fault hresult] at h
    rw [hresult] at hfails
    exact h hfails

/-- Two stacks that a resolution cannot tell apart, unless it ends at one of the guards. -/
def Alike (guards : List Kind) (stack stack' : List Path) : Prop :=
  stack' = stack ∨ .importCycle ∈ guards ∧ Covers stack stack'

theorem Alike.concat (h : Alike guards stack stack') (path : Path) :
    Alike guards (stack ++ [path]) (stack' ++ [path]) :=
  h.imp (congrArg (· ++ [path])) fun ⟨hcycle, hcovers⟩ => ⟨hcycle, hcovers.concat path⟩

/-- What is decided before there is need of room is decided alike. -/
theorem settled_of_idle (hstack : Alike guards stack stack')
    (h : ¬FailsWith guards (engine.resolveFrom globals room stack path))
    (hidle : ∀ names, normalize path = .ok names → ¬Busy stack names → ¬Busy stack' names →
      engine'.resolveFrom globals room' stack' path = engine.resolveFrom globals room stack path) :
    engine'.resolveFrom globals room' stack' path = engine.resolveFrom globals room stack path := by
  cases hnames : normalize path with
  | error cause =>
    rw [Engine.resolveFrom, Engine.resolveFrom, hnames]
    rfl
  | ok names =>
    by_cases hbusy : Busy stack names
    · rw [resolveFrom_busy hnames hbusy] at h ⊢
      rcases hstack with rfl | ⟨hcycle, -⟩
      · rw [resolveFrom_busy hnames hbusy]
      · exact absurd hcycle h
    · have hbusy' : ¬Busy stack' names := by
        rcases hstack with rfl | ⟨-, hcovers⟩
        · exact hbusy
        · exact mt hcovers.busy hbusy
      exact hidle names hnames hbusy hbusy'

/-- **A result that is not one of the guards' stays as it is** with more room. With fewer templates in
progress it does as well, if cycles are among the guards. -/
theorem resolveFrom_settled (hsources : engine'.sources = engine.sources) (hdeep : .depthExceeded ∈ guards)
    (hstack : Alike guards stack stack') (hroom : room ≤ room')
    (h : ¬FailsWith guards (engine.resolveFrom globals room stack path)) :
    engine'.resolveFrom globals room' stack' path = engine.resolveFrom globals room stack path := by
  induction room generalizing stack stack' path room' with
  | zero =>
    refine settled_of_idle hstack h fun names hnames hbusy _ => ?_
    rw [resolveFrom_full hnames hbusy] at h
    exact absurd hdeep h
  | succ room ih =>
    refine settled_of_idle hstack h fun names hnames hbusy hidle => ?_
    obtain ⟨left, rfl⟩ : ∃ left, room' = left + 1 := Nat.exists_eq_add_one.mpr (by omega)
    cases hread : engine.sources.read names with
    | error fault =>
      rw [resolveFrom_idle hnames hbusy, resolveFrom_idle hnames hidle, hsources, hread]
      rfl
    | ok source =>
      rw [resolveFrom_read hnames hbusy hread] at h ⊢
      rw [resolveFrom_read hnames hidle (hsources ▸ hread)]
      -- no import ends at a guard, for the template would end there as well
      refine renderSource_congr fun asked hasked => ?_
      exact (ih (hstack.concat _) (Nat.le_of_succ_le_succ hroom) (asked_settled h asked hasked)).symm

/-- **The guards only ever stop a resolution.** What a template resolves to, text or fault, stays the same
when the limit is raised, unless the limit is what was exceeded. What it resolves to while others are in
progress stays the same under a stack that is no longer and has no others on it, unless it was stopped for
what is in progress: at a cycle, or because there were too many. -/
theorem guards_settle (globals : Binding) (path : Path) :
    (∀ (sources : Sources) (limit limit' : Nat), limit ≤ limit' →
      ¬FailsWith [.depthExceeded] (Engine.resolve ⟨sources, limit⟩ globals path) →
      Engine.resolve ⟨sources, limit'⟩ globals path = Engine.resolve ⟨sources, limit⟩ globals path) ∧
    ∀ (engine : Engine) (stack stack' : List Path), Covers stack stack' → stack'.length ≤ stack.length →
      ¬FailsWith [.importCycle, .depthExceeded] (engine.resolveUnder globals stack path) →
      engine.resolveUnder globals stack' path = engine.resolveUnder globals stack path := by
  constructor
  · intro sources limit limit' hlimit hdecided
    exact resolveFrom_settled rfl List.mem_cons_self (.inl rfl) hlimit hdecided
  · intro engine stack stack' hcovers hlength hdecided
    refine resolveFrom_settled rfl (by simp) (.inr ⟨List.mem_cons_self, hcovers⟩) ?_ hdecided
    exact Nat.sub_le_sub_left hlength engine.limit

/-- A page that resolves with room for two templates does so with room for three, and the part that it imports
does not depend on how the page is written on the stack. -/
theorem guards_settle_shelf :
    (2 ≤ 3 ∧ Engine.resolve ⟨shelf.sources, 2⟩ shelfGlobals ⟨"page"⟩ = .ok "a[g][g]" ∧
      Engine.resolve ⟨shelf.sources, 3⟩ shelfGlobals ⟨"page"⟩ = .ok "a[g][g]") ∧
    Covers [⟨"page"⟩] [⟨"page//."⟩] ∧
      shelf.resolveUnder shelfGlobals [⟨"page"⟩] ⟨"./part"⟩ = .ok "[g]" ∧
      shelf.resolveUnder shelfGlobals [⟨"page//."⟩] ⟨"./part"⟩ = .ok "[g]" := by
  have hpage : Engine.resolve ⟨shelf.sources, 2⟩ shelfGlobals ⟨"page"⟩ = .ok "a[g][g]" := shelf_page
  have hpart : shelf.resolveUnder shelfGlobals [⟨"page"⟩] ⟨"./part"⟩ = .ok "[g]" := shelf_part
  have hcovers : Covers [⟨"page"⟩] [⟨"page//."⟩] := by
    intro busy' hmem
    rw [List.mem_singleton.mp hmem]
    exact ⟨⟨"page"⟩, List.mem_cons_self, by decide +kernel⟩
  obtain ⟨hlimit, -⟩ := guards_settle shelfGlobals ⟨"page"⟩
  obtain ⟨-, hstack⟩ := guards_settle shelfGlobals ⟨"./part"⟩
  have hpage' := hlimit shelf.sources 2 3 (by decide) (by rw [hpage]; exact id)
  have hpart' := hstack shelf [⟨"page"⟩] [⟨"page//."⟩] hcovers (Nat.le_refl 1) (by rw [hpart]; exact id)
  exact ⟨⟨by decide, hpage, hpage'.trans hpage⟩, hcovers, hpart, hpart'.trans hpart⟩

end Bindery.Template
