/-!
# `Proofs.Outcome` — steps that can fail

Evaluation, resolution and every operation on the file tree are sequences of steps of which the first
one that fails decides. These lemmas take such a sequence apart.

**Contents.** `bind_eq_ok`, what a sequence that ends well went through; `bind_eq_error`, where one that
fails ended, and `foldlM_eq_error`, the same for a fold; `mapError_eq_ok`, which sees through how a fault is
worded; `run_bind` and `run_tryCatch`, for steps that change a state.
-/

namespace Bindery

variable {ε ε' α β : Type}

/-- A sequence that ends well goes through a first step that ends well. -/
theorem bind_eq_ok {x : Except ε α} {f : α → Except ε β} {b : β} :
    (x >>= f) = .ok b ↔ ∃ a, x = .ok a ∧ f a = .ok b := by
  constructor
  · intro h
    cases x with
    | error fault => cases h
    | ok a => exact ⟨a, rfl, h⟩
  · rintro ⟨a, rfl, hf⟩
    exact hf

/-- A sequence that fails ends at its first step, or after it. -/
theorem bind_eq_error {x : Except ε α} {f : α → Except ε β} {fault : ε} :
    (x >>= f) = .error fault ↔ x = .error fault ∨ ∃ a, x = .ok a ∧ f a = .error fault := by
  constructor
  · intro h
    cases x with
    | error cause =>
      cases h
      exact .inl rfl
    | ok a => exact .inr ⟨a, rfl, h⟩
  · rintro (rfl | ⟨a, rfl, hf⟩)
    · rfl
    · exact hf

/-- A fold that fails does so at one of its elements. -/
theorem foldlM_eq_error {f : β → α → Except ε β} {list : List α} {b : β} {fault : ε}
    (h : list.foldlM f b = .error fault) : ∃ b' a, a ∈ list ∧ f b' a = .error fault := by
  induction list generalizing b with
  | nil => cases h
  | cons a list ih =>
    rw [List.foldlM_cons] at h
    rcases bind_eq_error.mp h with hfirst | ⟨b₁, -, hrest⟩
    · exact ⟨b, a, List.mem_cons_self, hfirst⟩
    · obtain ⟨b', a', hmem, herror⟩ := ih hrest
      exact ⟨b', a', List.mem_cons_of_mem _ hmem, herror⟩

/-- Faults may be worded anew; what ends well stays the same. -/
theorem mapError_eq_ok {x : Except ε α} {f : ε → ε'} {a : α} : x.mapError f = .ok a ↔ x = .ok a := by
  constructor
  · intro h
    cases x with
    | error fault => cases h
    | ok b => cases h; rfl
  · rintro rfl
    rfl

/-- Where there is a state, what comes second starts from the state that the first step has left behind. -/
theorem run_bind {σ : Type} (x : ExceptT ε (StateM σ) α) (f : α → ExceptT ε (StateM σ) β) (s : σ) :
    (x >>= f).run s =
      match x.run s with
      | (.ok a, s') => (f a).run s'
      | (.error fault, s') => (.error fault, s') := by
  show (ExceptT.bindCont f (x s).1 : StateM σ _) (x s).2 = _
  cases hx : x s with
  | mk outcome s' =>
    have hx : x.run s = (outcome, s') := hx
    rw [hx]
    cases outcome <;> rfl

/-- A step that takes over from a fault starts from the state at the fault. -/
theorem run_tryCatch {σ : Type} (x : ExceptT ε (StateM σ) α) (handle : ε → ExceptT ε (StateM σ) α) (s : σ) :
    (tryCatch x handle).run s =
      match x.run s with
      | (.ok a, s') => (.ok a, s')
      | (.error fault, s') => (handle fault).run s' := by
  show (ExceptT.tryCatch x handle).run s = _
  unfold ExceptT.tryCatch
  cases hx : x s with
  | mk outcome s' =>
    have hrun : x.run s = (outcome, s') := hx
    rw [hrun]
    simp only [ExceptT.run, ExceptT.mk, bind, StateT.bind, hx]
    cases outcome <;> rfl

end Bindery
