import Bindery.Proofs.Template.Source
import Mathlib.Data.List.Nodup

/-!
# `Proofs.Template.Stack` — templates in progress

A resolution carries the stack of the templates in progress and the room that is left. In the course of a
resolution the room is what the limit leaves above the stack, so the stack alone says where a resolution
stands (`Engine.resolveUnder`). The five ways that it can go on from there are one lemma each; in the last
one the template is put onto the stack, and its imports are resolved with the longer one.

**Contents.**
* `Engine.resolveUnder`, with `resolve_eq_under` and one lemma for each way that it can go on;
* `stackOf`, the stack of a resolution that has come through some templates, with `busy_stackOf_iff`;
* `Held`, what templates in progress are like.
-/

namespace Bindery.Template

/-- Resolves the template at a path while those on a stack are in progress, with the room that they leave. -/
def Engine.resolveUnder (engine : Engine) (globals : Binding) (stack : List Path) (path : Path) :
    Except Fault String :=
  engine.resolveFrom globals (engine.limit - stack.length) stack path

open Engine

variable {engine : Engine} {globals : Binding} {stack : List Path} {path : Path} {names : List Raw}

/-! ## One step -/

theorem resolve_eq_under (engine : Engine) (globals : Binding) (path : Path) :
    engine.resolve globals path = engine.resolveUnder globals [] path := rfl

/-- A path without a normal form is refused as it is written. -/
theorem resolveUnder_refused {cause : Cause} (hnames : normalize path = .error cause) :
    engine.resolveUnder globals stack path = .error ⟨path, cause⟩ := by
  rw [resolveUnder, resolveFrom, hnames]
  rfl

/-- A template that is in progress closes a cycle. -/
theorem resolveUnder_busy (hnames : normalize path = .ok names) (hbusy : Busy stack names) :
    engine.resolveUnder globals stack path =
      .error ⟨Path.ofNames names, .cycle (stack ++ [Path.ofNames names])⟩ :=
  resolveFrom_busy hnames hbusy

/-- Without room, a template that is not in progress is not read. -/
theorem resolveFrom_full (hnames : normalize path = .ok names) (hidle : ¬Busy stack names) :
    engine.resolveFrom globals 0 stack path =
      .error ⟨Path.ofNames names, .tooDeep engine.limit⟩ := by
  rw [resolveFrom, hnames]
  exact if_neg (mt any_busy_iff.mp hidle)

/-- A stack that has reached the limit takes no more. -/
theorem resolveUnder_full (hnames : normalize path = .ok names) (hidle : ¬Busy stack names)
    (hfull : engine.limit ≤ stack.length) :
    engine.resolveUnder globals stack path = .error ⟨Path.ofNames names, .tooDeep engine.limit⟩ := by
  rw [resolveUnder, Nat.sub_eq_zero_of_le hfull]
  exact resolveFrom_full hnames hidle

/-- A template that is not in progress is read and rendered, if there is room for it. -/
theorem resolveUnder_idle (hnames : normalize path = .ok names) (hidle : ¬Busy stack names)
    (hroom : stack.length < engine.limit) :
    engine.resolveUnder globals stack path = (do
      let source ← (engine.sources.read names).mapError fun fault =>
        ⟨Path.ofNames names, .unreadable (engine.sources.root.join (Path.ofNames names)) fault⟩
      renderSource (Path.ofNames names) globals
        (engine.resolveUnder globals (stack ++ [Path.ofNames names])) source) := by
  obtain ⟨left, hleft⟩ : ∃ left, engine.limit - stack.length = left + 1 :=
    Nat.exists_eq_add_one.mpr (Nat.sub_pos_of_lt hroom)
  have hnext : engine.limit - (stack ++ [Path.ofNames names]).length = left := by
    rw [List.length_append, List.length_singleton]
    omega
  have hresolve : engine.resolveUnder globals (stack ++ [Path.ofNames names]) =
      engine.resolveFrom globals left (stack ++ [Path.ofNames names]) := by
    funext path
    rw [resolveUnder, hnext]
  rw [hresolve, resolveUnder, hleft]
  exact resolveFrom_idle hnames hidle

theorem resolveUnder_unread {fault : Files.Fault} (hnames : normalize path = .ok names)
    (hidle : ¬Busy stack names) (hroom : stack.length < engine.limit)
    (hread : engine.sources.read names = .error fault) :
    engine.resolveUnder globals stack path =
      .error ⟨Path.ofNames names, .unreadable (engine.sources.root.join (Path.ofNames names)) fault⟩ := by
  rw [resolveUnder_idle hnames hidle hroom, hread]
  rfl

theorem resolveUnder_read {source : String} (hnames : normalize path = .ok names)
    (hidle : ¬Busy stack names) (hroom : stack.length < engine.limit)
    (hread : engine.sources.read names = .ok source) :
    engine.resolveUnder globals stack path =
      renderSource (Path.ofNames names) globals
        (engine.resolveUnder globals (stack ++ [Path.ofNames names])) source := by
  rw [resolveUnder_idle hnames hidle hroom, hread]
  rfl

/-! ## Stacks of normal forms -/

variable {pre : List (List Raw)}

/-- The stack of a resolution that has come through these templates. -/
def stackOf (pre : List (List Raw)) : List Path :=
  pre.map Path.ofNames

theorem stackOf_concat (pre : List (List Raw)) (names : List Raw) :
    stackOf pre ++ [Path.ofNames names] = stackOf (pre ++ [names]) := by
  unfold stackOf
  rw [List.map_append]
  rfl

theorem length_stackOf (pre : List (List Raw)) : (stackOf pre).length = pre.length :=
  List.length_map _

/-- A template is busy if it is one of those that the resolution has come through. -/
theorem busy_stackOf_iff (hpre : ∀ busy ∈ pre, ∀ name ∈ busy, Path.IsName name)
    (hnames : ∀ name ∈ names, Path.IsName name) : Busy (stackOf pre) names ↔ names ∈ pre := by
  constructor
  · rintro ⟨busy, hmem, hsame⟩
    obtain ⟨own, hown, rfl⟩ := List.mem_map.mp hmem
    rw [← (Path.ofNames_same_iff (hpre own hown) hnames).mp hsame]
    exact hown
  · intro hmem
    exact ⟨_, List.mem_map_of_mem hmem, rfl⟩

/-- What templates in progress are like: different from each other, chains of names, no more than a limit allows,
and each of them there in some sense. -/
structure Held (limit : Nat) (There : List Raw → Prop) (pre : List (List Raw)) : Prop where
  nodup : pre.Nodup
  short : pre.length ≤ limit
  named : ∀ names ∈ pre, names ≠ [] ∧ ∀ name ∈ names, Path.IsName name
  there : ∀ names ∈ pre, There names

namespace Held

variable {limit : Nat} {There : List Raw → Prop}

theorem nil : Held limit There [] :=
  ⟨List.nodup_nil, Nat.zero_le _, nofun, nofun⟩

/-- What is not in progress and is there can be put on top, if there is room. -/
theorem concat (h : Held limit There pre) (hnames : normalize path = .ok names) (hidle : names ∉ pre)
    (hroom : pre.length < limit) (hthere : There names) : Held limit There (pre ++ [names]) where
  nodup := List.nodup_append.mpr
    ⟨h.nodup, List.nodup_singleton names, fun other hother own hown heq =>
      hidle (List.mem_singleton.mp hown ▸ heq ▸ hother)⟩
  short := by
    rw [List.length_append, List.length_singleton]
    exact hroom
  named := List.forall_mem_append.mpr ⟨h.named, List.forall_mem_singleton.mpr (normalize_eq_ok hnames)⟩
  there := List.forall_mem_append.mpr ⟨h.there, List.forall_mem_singleton.mpr hthere⟩

/-- A template is busy if it is one of those in progress. -/
theorem busy_iff (h : Held limit There pre) (hnames : normalize path = .ok names) :
    Busy (stackOf pre) names ↔ names ∈ pre :=
  busy_stackOf_iff (fun busy hmem => (h.named busy hmem).2) (normalize_eq_ok hnames).2

end Held

end Bindery.Template
