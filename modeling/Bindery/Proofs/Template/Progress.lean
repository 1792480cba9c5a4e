import Bindery.Proofs.Files.Access
import Bindery.Proofs.Template.Confinement
import Bindery.Proofs.Template.Descent
import Mathlib.Data.List.Perm.Subperm

/-!
# `Proofs.Template.Progress` — one stack for a whole resolution

The templates in progress can be kept in one place for the whole of a resolution. A template is then put on the
stack before it is rendered and taken off when the rendering has ended, well or not, and each import looks at
the stack as it is (`Engine.resolveOn`). This comes to the same as handing a longer stack to each import, because
every import leaves the stack as it has found it (`resolveOn_tracks`, by induction on the room). The stack then
holds templates as in `Held` at any time, for nothing is put on it that is on it already or for which there is
no room.

Below a directory without links, what is read is a file. A list of files without repetition is not longer than
there are files, and so a limit above their number is never exceeded (`resolve_bounded`).

**Contents.**
* `Progress` and `Course` — courses with a stack;
* `Expr.evalOn`, `renderAllOn`, `Engine.resolveOn` — resolving with one stack;
* `Tracks`, `renderAllOn_tracks`, `resolveOn_tracks` — the stack is left as it was;
* `filesBelow` and `resolve_bounded`.
-/

namespace Bindery.Template

open Bindery.Text

/-! ## Resolving with one stack -/

/-- The templates in progress, and all stacks of them that there have been, the latest first. -/
structure Progress where
  stack : List Path
  seen : List (List Path)

/-- A computation that can fail, with the stack of the templates in progress. -/
abbrev Course := ExceptT Fault (StateM Progress)

namespace Course

/-- The stack as it is. -/
def current : Course (List Path) := do
  return (← get).stack

/-- Changes the stack. -/
def change (f : List Path → List Path) : Course Unit :=
  modify fun progress => ⟨f progress.stack, f progress.stack :: progress.seen⟩

/-- Goes through a course with one more template in progress, which comes off the stack however the course
ends. -/
def within {α : Type} (path : Path) (course : Course α) : Course α := do
  change (· ++ [path])
  let result ← observing course
  change List.dropLast
  ofExcept result

end Course

/-- The value of an expression, with what an import does. -/
def Expr.evalOn (scope : Scope) (ask : Path → Course String) : Expr → Course Value
  | .str text => return .str text
  | .bool b => return .bool b
  | .nil => return .nil
  | .var head fields =>
    match scope.find? head with
    | some v => ofExcept ((v.select fields).mapError scope.fault)
    | none => throw (scope.fault (.undefined head))
  | .imported path => do
    match ← path.evalOn scope ask with
    | .str text => return .str (← ask ⟨text⟩)
    | v => throw (scope.fault (.notPath v.typeName))
  | .not inner => do return .bool !(← inner.evalOn scope ask).truthy
  | .eq lhs rhs => do
    let a ← lhs.evalOn scope ask
    let b ← rhs.evalOn scope ask
    return .bool (a = b)
  | .ne lhs rhs => do
    let a ← lhs.evalOn scope ask
    let b ← rhs.evalOn scope ask
    return .bool (a ≠ b)
  | .and lhs rhs => do
    let a ← lhs.evalOn scope ask
    if a.truthy then rhs.evalOn scope ask else return a
  | .or lhs rhs => do
    let a ← lhs.evalOn scope ask
    if a.truthy then return a else rhs.evalOn scope ask

/-- The texts of a loop's body for each item, one after another. -/
def renderEachOn (body : Value → Nat → Course String) : Nat → List Value → Course String
  | _, [] => return ""
  | index, item :: rest => do
    let text ← body item index
    return text ++ (← renderEachOn body (index + 1) rest)

mutual

/-- The text of a node, with what an import does. -/
def renderOn (scope : Scope) (ask : Path → Course String) : Node → Course String
  | .text text => return text
  | .output e => do
    let v ← e.evalOn scope ask
    match v.print? with
    | some text => return text
    | none => throw (scope.fault (.notPrintable v.typeName))
  | .branch clauses otherwise => do
    match ← renderFirstOn scope ask clauses with
    | some text => return text
    | none => renderAllOn scope ask otherwise
  | .loop name items body => do
    let v ← items.evalOn scope ask
    match v.items? with
    | some items =>
      renderEachOn (fun item index => renderAllOn (scope.enter name item index) ask body) 0 items
    | none => throw (scope.fault (.notIterable v.typeName))

/-- The text of the first clause whose test holds. -/
def renderFirstOn (scope : Scope) (ask : Path → Course String) :
    List (Expr × List Node) → Course (Option String)
  | [] => return none
  | (test, body) :: rest => do
    let v ← test.evalOn scope ask
    if v.truthy then return some (← renderAllOn scope ask body)
    else renderFirstOn scope ask rest

/-- The text of a list of nodes. -/
def renderAllOn (scope : Scope) (ask : Path → Course String) : List Node → Course String
  | [] => return ""
  | node :: rest => do
    let text ← renderOn scope ask node
    return text ++ (← renderAllOn scope ask rest)

end

namespace Engine

/-- The scope of a whole template. What its imports give is not part of it. -/
def outermost (label : Path) (globals : Binding) : Scope where
  label := label
  globals := globals
  locals := []
  resolve := fun _ => .ok ""

/-- The text of a template's source. -/
def renderSourceOn (label : Path) (globals : Binding) (ask : Path → Course String) (source : String) :
    Course String := do
  let nodes ← ofExcept ((parse source).mapError fun e => ⟨label, .badSyntax e⟩)
  let text ← renderAllOn (outermost label globals) ask nodes
  return withoutFinalNewline text

/-- Resolves the template at a path while those on the stack are in progress. `room` bounds the depth of the
recursion; how many templates may be in progress is for the stack to say. -/
def resolveOn (engine : Engine) (globals : Binding) : (room : Nat) → (path : Path) → Course String
  | room, path => do
    let names ← ofExcept ((normalize path).mapError (⟨path, ·⟩))
    let rel := Path.ofNames names
    let stack ← Course.current
    if stack.any fun busy => decide (busy.Same rel) then
      throw ⟨rel, .cycle (stack ++ [rel])⟩
    else if engine.limit ≤ stack.length then
      throw ⟨rel, .tooDeep engine.limit⟩
    else match room with
      | 0 => throw ⟨rel, .tooDeep engine.limit⟩
      | room + 1 => do
        let source ← ofExcept ((engine.sources.read names).mapError fun fault =>
          ⟨rel, .unreadable (engine.sources.root.join rel) fault⟩)
        Course.within rel (renderSourceOn rel globals (engine.resolveOn globals room) source)

end Engine

/-! ## The stack is left as it was -/

theorem run_observing {α : Type} (course : Course α) (progress : Progress) :
    (observing course : Course (Except Fault α)).run progress =
      (.ok (course.run progress).1, (course.run progress).2) := by
  unfold observing
  rw [run_tryCatch, run_bind]
  cases course.run progress with
  | mk result progress' => cases result <;> rfl

theorem run_within {α : Type} (path : Path) (course : Course α) (stack : List Path) (seen : List (List Path)) :
    (Course.within path course).run ⟨stack, seen⟩ =
      match course.run ⟨stack ++ [path], (stack ++ [path]) :: seen⟩ with
      | (result, ⟨stack', seen'⟩) => (result, ⟨stack'.dropLast, stack'.dropLast :: seen'⟩) := by
  unfold Course.within
  rw [run_bind]
  show ExceptT.run (observing course >>= _ : Course α) ⟨stack ++ [path], (stack ++ [path]) :: seen⟩ = _
  rw [run_bind, run_observing]
  cases course.run ⟨stack ++ [path], (stack ++ [path]) :: seen⟩ with
  | mk result progress =>
    cases result <;> rfl

/-- A course that ends with a result and leaves the stack as it was, with nothing but good stacks on the way. -/
def Tracks {α : Type} (Good : List Path → Prop) (stack : List Path) (result : Except Fault α)
    (course : Course α) : Prop :=
  ∀ seen, ∃ more, (∀ earlier ∈ more, Good earlier) ∧
    course.run ⟨stack, seen⟩ = (result, ⟨stack, more ++ seen⟩)

namespace Tracks

variable {α β : Type} {Good : List Path → Prop} {stack : List Path} {x : Except Fault α} {course : Course α}

theorem pure (a : α) : Tracks Good stack (.ok a) (Pure.pure a) :=
  fun _ => ⟨[], nofun, rfl⟩

theorem throw (fault : Fault) : Tracks Good stack (.error fault : Except Fault α) (MonadExcept.throw fault) :=
  fun _ => ⟨[], nofun, rfl⟩

theorem ofExcept (result : Except Fault α) : Tracks Good stack result (MonadExcept.ofExcept result) := by
  cases result with
  | ok a => exact pure a
  | error fault => exact throw fault

/-- What a course comes to depends on nothing but how it runs. -/
theorem of_run {course' : Course α} (h : Tracks Good stack x course')
    (hrun : ∀ seen, course.run ⟨stack, seen⟩ = course'.run ⟨stack, seen⟩) : Tracks Good stack x course := by
  intro seen
  rw [hrun seen]
  exact h seen

theorem bind {f : α → Except Fault β} {next : α → Course β} (h : Tracks Good stack x course)
    (hnext : ∀ a, Tracks Good stack (f a) (next a)) : Tracks Good stack (x >>= f) (course >>= next) := by
  intro seen
  obtain ⟨more, hgood, hrun⟩ := h seen
  rw [run_bind, hrun]
  cases x with
  | error fault => exact ⟨more, hgood, rfl⟩
  | ok a =>
    obtain ⟨more', hgood', hrun'⟩ := hnext a (more ++ seen)
    refine ⟨more' ++ more, List.forall_mem_append.mpr ⟨hgood', hgood⟩, ?_⟩
    rw [List.append_assoc]
    exact hrun'

/-- **What has been put on the stack comes off it,** however the course ends. -/
theorem within {path : Path} (h : Tracks Good (stack ++ [path]) x course) (hgood : Good stack)
    (hpushed : Good (stack ++ [path])) : Tracks Good stack x (Course.within path course) := by
  intro seen
  obtain ⟨more, hmore, hrun⟩ := h ((stack ++ [path]) :: seen)
  have hall : ∀ earlier ∈ stack :: (more ++ [stack ++ [path]]), Good earlier :=
    List.forall_mem_cons.mpr ⟨hgood, List.forall_mem_append.mpr ⟨hmore, List.forall_mem_singleton.mpr hpushed⟩⟩
  refine ⟨stack :: (more ++ [stack ++ [path]]), hall, ?_⟩
  rw [run_within, hrun, List.cons_append, List.append_assoc]
  dsimp only
  rw [List.dropLast_concat]
  rfl

end Tracks

section Tracked

variable {Good : List Path → Prop} {stack : List Path} {resolve : Path → Except Fault String}
  {ask : Path → Course String}

/-- **An evaluation leaves the stack as it was** if imports do, and comes to what it comes to without one. -/
theorem evalOn_tracks (hask : ∀ path, Tracks Good stack (resolve path) (ask path)) (scope : Scope) :
    ∀ e : Expr, Tracks Good stack (e.eval (scope.using resolve)) (e.evalOn scope ask)
  | .str text => .pure (Value.str text)
  | .bool b => .pure (Value.bool b)
  | .nil => .pure Value.nil
  | .var head fields => by
    unfold Expr.eval Expr.evalOn
    have hfind : (scope.using resolve).find? head = scope.find? head := rfl
    rw [hfind]
    cases scope.find? head with
    | some v => exact .ofExcept _
    | none => exact .throw _
  | .imported path => by
    refine .bind (evalOn_tracks hask scope path) fun v => ?_
    cases v with
    | str text => exact .bind (hask ⟨text⟩) fun inlined => .pure _
    | nil => exact .throw _
    | bool b => exact .throw _
    | list items => exact .throw _
    | map fields => exact .throw _
  | .not inner => .bind (evalOn_tracks hask scope inner) fun v => .pure _
  | .eq lhs rhs =>
    .bind (evalOn_tracks hask scope lhs) fun a => .bind (evalOn_tracks hask scope rhs) fun b => .pure _
  | .ne lhs rhs =>
    .bind (evalOn_tracks hask scope lhs) fun a => .bind (evalOn_tracks hask scope rhs) fun b => .pure _
  | .and lhs rhs => by
    refine .bind (evalOn_tracks hask scope lhs) fun a => ?_
    split
    · exact evalOn_tracks hask scope rhs
    · exact .pure a
  | .or lhs rhs => by
    refine .bind (evalOn_tracks hask scope lhs) fun a => ?_
    split
    · exact .pure a
    · exact evalOn_tracks hask scope rhs

theorem renderEachOn_tracks {body : Value → Nat → Except Fault String} {bodyOn : Value → Nat → Course String}
    (hbody : ∀ item index, Tracks Good stack (body item index) (bodyOn item index)) :
    ∀ (index : Nat) (items : List Value),
      Tracks Good stack (renderEach body index items) (renderEachOn bodyOn index items)
  | _, [] => .pure ""
  | index, item :: rest =>
    .bind (hbody item index) fun _ => .bind (renderEachOn_tracks hbody (index + 1) rest) fun _ => .pure _

mutual

/-- **A rendering leaves the stack as it was** if imports do. -/
theorem renderOn_tracks (hask : ∀ path, Tracks Good stack (resolve path) (ask path)) :
    ∀ (scope : Scope) (node : Node),
      Tracks Good stack (render (scope.using resolve) node) (renderOn scope ask node)
  | scope, .text text => by
    unfold render renderOn
    exact .pure text
  | scope, .output e => by
    unfold render renderOn
    refine .bind (evalOn_tracks hask scope e) fun v => ?_
    cases v.print? with
    | some text => exact .pure text
    | none => exact .throw _
  | scope, .branch clauses otherwise => by
    unfold render renderOn
    refine .bind (renderFirstOn_tracks hask scope clauses) fun taken => ?_
    cases taken with
    | some text => exact .pure text
    | none => exact renderAllOn_tracks hask scope otherwise
  | scope, .loop name items body => by
    unfold render renderOn
    refine .bind (evalOn_tracks hask scope items) fun v => ?_
    cases v.items? with
    | some list =>
      refine renderEachOn_tracks (fun item index => ?_) 0 list
      exact renderAllOn_tracks hask (scope.enter name item index) body
    | none => exact .throw _

theorem renderFirstOn_tracks (hask : ∀ path, Tracks Good stack (resolve path) (ask path)) :
    ∀ (scope : Scope) (clauses : List (Expr × List Node)),
      Tracks Good stack (renderFirst (scope.using resolve) clauses) (renderFirstOn scope ask clauses)
  | scope, [] => by
    unfold renderFirst renderFirstOn
    exact .pure none
  | scope, (test, body) :: rest => by
    unfold renderFirst renderFirstOn
    refine .bind (evalOn_tracks hask scope test) fun v => ?_
    split
    · exact .bind (renderAllOn_tracks hask scope body) fun text => .pure _
    · exact renderFirstOn_tracks hask scope rest

theorem renderAllOn_tracks (hask : ∀ path, Tracks Good stack (resolve path) (ask path)) :
    ∀ (scope : Scope) (nodes : List Node),
      Tracks Good stack (renderAll (scope.using resolve) nodes) (renderAllOn scope ask nodes)
  | scope, [] => by
    unfold renderAll renderAllOn
    exact .pure ""
  | scope, node :: rest => by
    unfold renderAll renderAllOn
    refine .bind (renderOn_tracks hask scope node) fun text => ?_
    exact .bind (renderAllOn_tracks hask scope rest) fun more => .pure _

end

theorem renderSourceOn_tracks (hask : ∀ path, Tracks Good stack (resolve path) (ask path)) (label : Path)
    (globals : Binding) (source : String) :
    Tracks Good stack (Engine.renderSource label globals resolve source)
      (Engine.renderSourceOn label globals ask source) := by
  refine .bind (.ofExcept _) fun nodes => ?_
  exact .bind (renderAllOn_tracks hask (Engine.outermost label globals) nodes) fun text => .pure _

end Tracked

/-! ## The stack of a resolution -/

variable {engine : Engine} {globals : Binding} {There : List Raw → Prop} {pages : List (List Raw)}
  {names : List Raw} {room : Nat} {stack : List Path} {path : Path}

theorem run_resolveOn_busy (hnames : normalize path = .ok names) (hbusy : Busy stack names)
    (seen : List (List Path)) :
    (engine.resolveOn globals room path).run ⟨stack, seen⟩ =
      (.error ⟨Path.ofNames names, .cycle (stack ++ [Path.ofNames names])⟩, ⟨stack, seen⟩) := by
  rw [Engine.resolveOn, hnames]
  show ExceptT.run (if _ then _ else _ : Course String) _ = _
  rw [if_pos (any_busy_iff.mpr hbusy)]
  rfl

theorem run_resolveOn_full (hnames : normalize path = .ok names) (hidle : ¬Busy stack names)
    (hfull : engine.limit ≤ stack.length) (seen : List (List Path)) :
    (engine.resolveOn globals room path).run ⟨stack, seen⟩ =
      (.error ⟨Path.ofNames names, .tooDeep engine.limit⟩, ⟨stack, seen⟩) := by
  rw [Engine.resolveOn, hnames]
  show ExceptT.run (if _ then _ else if _ then _ else _ : Course String) _ = _
  rw [if_neg (mt any_busy_iff.mp hidle), if_pos hfull]
  rfl

theorem run_resolveOn_unread {fault : Files.Fault} (hnames : normalize path = .ok names)
    (hidle : ¬Busy stack names) (hroom : stack.length < engine.limit)
    (hread : engine.sources.read names = .error fault) (seen : List (List Path)) :
    (engine.resolveOn globals (room + 1) path).run ⟨stack, seen⟩ =
      (.error ⟨Path.ofNames names, .unreadable (engine.sources.root.join (Path.ofNames names)) fault⟩,
        ⟨stack, seen⟩) := by
  rw [Engine.resolveOn, hnames]
  show ExceptT.run (if _ then _ else if _ then _ else _ : Course String) _ = _
  rw [if_neg (mt any_busy_iff.mp hidle), if_neg (Nat.not_le.mpr hroom), hread]
  rfl

/-- A template that can be read is rendered while it is on the stack. -/
theorem run_resolveOn_read {source : String} (hnames : normalize path = .ok names)
    (hidle : ¬Busy stack names) (hroom : stack.length < engine.limit)
    (hread : engine.sources.read names = .ok source) (seen : List (List Path)) :
    (engine.resolveOn globals (room + 1) path).run ⟨stack, seen⟩ =
      (Course.within (Path.ofNames names) (Engine.renderSourceOn (Path.ofNames names) globals
        (engine.resolveOn globals room) source)).run ⟨stack, seen⟩ := by
  rw [Engine.resolveOn, hnames]
  show ExceptT.run (if _ then _ else if _ then _ else _ : Course String) _ = _
  rw [if_neg (mt any_busy_iff.mp hidle), if_neg (Nat.not_le.mpr hroom), hread]
  rfl

/-- The stacks that hold templates in progress. -/
def HeldStack (limit : Nat) (There : List Raw → Prop) (stack : List Path) : Prop :=
  ∃ pages, Held limit There pages ∧ stack = stackOf pages

/-- A path that leads to no further template comes to the same, whoever holds the stack. -/
theorem tracks_of_idle {Good : List Path → Prop} (hpages : Held engine.limit There pages)
    (hidle : ∀ names, normalize path = .ok names → names ∉ pages → pages.length < engine.limit →
      Tracks Good (stackOf pages) (engine.resolveUnder globals (stackOf pages) path)
        (engine.resolveOn globals room path)) :
    Tracks Good (stackOf pages) (engine.resolveUnder globals (stackOf pages) path)
      (engine.resolveOn globals room path) := by
  cases hnames : normalize path with
  | error cause =>
    rw [resolveUnder_refused hnames, Engine.resolveOn, hnames]
    exact .throw ⟨path, cause⟩
  | ok names =>
    by_cases hbusy : names ∈ pages
    · have hstack := (hpages.busy_iff hnames).mpr hbusy
      rw [resolveUnder_busy hnames hstack]
      exact .of_run (.throw _) (run_resolveOn_busy hnames hstack)
    rcases Nat.lt_or_ge pages.length engine.limit with hroom | hfull
    · exact hidle names hnames hbusy hroom
    · have hstack := mt (hpages.busy_iff hnames).mp hbusy
      rw [← length_stackOf] at hfull
      rw [resolveUnder_full hnames hstack hfull]
      exact .of_run (.throw _) (run_resolveOn_full hnames hstack hfull)

/-- **A resolution with one stack leaves the stack as it was,** and comes to what it comes to when longer stacks
are handed on. By induction on the room: what is imported finds a stack that is longer by the template that is
rendered. -/
theorem resolveOn_tracks (globals : Binding) (hthere : ∀ names source, names ≠ [] →
      (∀ name ∈ names, Path.IsName name) → engine.sources.read names = .ok source → There names)
    (hpages : Held engine.limit There pages) (hroom : engine.limit ≤ pages.length + room) (path : Path) :
    Tracks (HeldStack engine.limit There) (stackOf pages) (engine.resolveUnder globals (stackOf pages) path)
      (engine.resolveOn globals room path) := by
  induction room generalizing pages path with
  | zero =>
    refine tracks_of_idle hpages fun names _ _ hfree => ?_
    exact absurd hroom (Nat.not_le.mpr hfree)
  | succ room ih =>
    refine tracks_of_idle hpages fun names hnames hbusy hfree => ?_
    have hstack := mt (hpages.busy_iff hnames).mp hbusy
    have hfree' := length_stackOf pages ▸ hfree
    cases hread : engine.sources.read names with
    | error fault =>
      rw [resolveUnder_unread hnames hstack hfree' hread]
      exact .of_run (.throw _) (run_resolveOn_unread hnames hstack hfree' hread)
    | ok source =>
      obtain ⟨hfull, hnamed⟩ := normalize_eq_ok hnames
      -- the template is put on the stack, and the induction is used on the longer one
      have hnext := hpages.concat hnames hbusy hfree (hthere names source hfull hnamed hread)
      rw [resolveUnder_read hnames hstack hfree' hread, stackOf_concat]
      refine .of_run (.within ?_ ⟨pages, hpages, rfl⟩ ⟨_, hnext, stackOf_concat pages names⟩)
        (run_resolveOn_read hnames hstack hfree' hread)
      rw [stackOf_concat]
      refine renderSourceOn_tracks (ih hnext ?_) (Path.ofNames names) globals source
      rw [List.length_append, List.length_singleton]
      omega

/-! ## A source directory without links -/

variable {files : Files} {root : Path} {base : Location} {limit : Nat}

/-- A chain of names that leads from a directory to a file. -/
def LeadsToFile (files : Files) (base : Location) (names : List Raw) : Prop :=
  ∃ content executable, files.find? (base ++ names) = some (.file content executable)

/-- The chains of names that lead from a directory to a file. -/
def filesBelow (files : Files) (base : Location) : List (List Raw) :=
  (files.subtree base).filterMap fun
    | (names, .file ..) => some names
    | _ => none

theorem mem_filesBelow (hproper : files.Proper) (hfull : names ≠ []) (h : LeadsToFile files base names) :
    names ∈ filesBelow files base := by
  obtain ⟨content, executable, hfind⟩ := h
  exact List.mem_filterMap.mpr ⟨_, hproper.mem_subtree.mpr ⟨hfull, hfind⟩, rfl⟩

/-- Without links, a template that can be read is a file. -/
theorem leadsToFile_of_read {source : String} (hground : files.Ground root base) (hfull : names ≠ [])
    (hnames : ∀ name ∈ names, Path.IsName name)
    (h : (Engine.below files root limit).sources.read names = .ok source) : LeadsToFile files base names := by
  rw [below_read, Path.join_ofNames hnames hfull] at h
  obtain ⟨content, hread, -⟩ := bind_eq_ok.mp h
  exact ⟨content, hground.read_eq ⟨hfull, hnames, .inl rfl⟩ hread⟩

/-- A stack of paths in their normal form, each of a file, without repetition and within the limit. -/
structure StackOfFiles (files : Files) (base : Location) (limit : Nat) (stack : List Path) : Prop where
  nodup : stack.Nodup
  short : stack.length ≤ limit
  file : ∀ busy ∈ stack, ∃ names, normalize busy = .ok names ∧ busy = Path.ofNames names ∧
    LeadsToFile files base names

theorem normalize_ofNames (hfull : names ≠ []) (hnames : ∀ name ∈ names, Path.IsName name) :
    normalize (Path.ofNames names) = .ok names := by
  have hnormal : (Path.ofNames names).names? = some names := by
    rw [Path.names?_eq_some_iff, Path.components_ofNames hnames, List.filterMap_map]
    exact ⟨by simp, by simp, List.filterMap_some⟩
  unfold normalize
  rw [hnormal]
  cases names with
  | nil => exact absurd rfl hfull
  | cons name rest => rfl

theorem stackOfFiles_iff :
    StackOfFiles files base limit stack ↔ HeldStack limit (LeadsToFile files base) stack := by
  constructor
  · rintro ⟨hnodup, hshort, hfile⟩
    obtain ⟨pages, hpages, rfl⟩ : ∃ pages, (∀ names ∈ pages, (names ≠ [] ∧ ∀ name ∈ names, Path.IsName name) ∧
        LeadsToFile files base names) ∧ stack = stackOf pages := by
      -- the other facts are about the whole stack and would not survive the induction
      clear hnodup hshort
      induction stack with
      | nil => exact ⟨[], nofun, rfl⟩
      | cons busy rest ih =>
        obtain ⟨hfirst, hrest⟩ := List.forall_mem_cons.mp hfile
        obtain ⟨names, hnames, rfl, hleads⟩ := hfirst
        obtain ⟨pages, hpages, rfl⟩ := ih hrest
        exact ⟨names :: pages, List.forall_mem_cons.mpr ⟨⟨normalize_eq_ok hnames, hleads⟩, hpages⟩, rfl⟩
    refine ⟨pages, ⟨hnodup.of_map, ?_, fun names h => (hpages names h).1, fun names h => (hpages names h).2⟩, rfl⟩
    rw [← length_stackOf]
    exact hshort
  · rintro ⟨pages, hpages, rfl⟩
    refine ⟨?_, ?_, ?_⟩
    · refine hpages.nodup.map_on fun names hnames names' hnames' heq => ?_
      exact (Path.ofNames_same_iff (hpages.named names hnames).2 (hpages.named names' hnames').2).mp (heq ▸ rfl)
    · rw [length_stackOf]
      exact hpages.short
    · intro busy hbusy
      obtain ⟨names, hnames, rfl⟩ := List.mem_map.mp hbusy
      obtain ⟨hfull, hnamed⟩ := hpages.named names hnames
      exact ⟨names, normalize_ofNames hfull hnamed, rfl, hpages.there names hnames⟩

/-- With more room than there are files, the limit is never exceeded. -/
theorem not_tooDeep_of_files (hground : files.Ground root base) {fault : Fault}
    (hfiles : (filesBelow files base).length < limit)
    (h : (Engine.below files root limit).resolve globals path = .error fault) :
    fault.cause.kind ≠ .depthExceeded := by
  obtain ⟨chain, hchain, hending⟩ := ending_of_asked .nothing (List.mem_singleton_self path) h
  intro hkind
  have hexplains := explains_of_ending hending
  unfold Explains at hexplains
  rw [hkind] at hexplains
  obtain ⟨-, -, -, -, hlength, -⟩ := hexplains
  have hheld := hchain.held
  have hsub : chain ⊆ filesBelow files base := by
    intro names hnames
    obtain ⟨hfull, hnamed⟩ := hheld.named names hnames
    obtain ⟨source, hread⟩ := hheld.there names hnames
    exact mem_filesBelow hground.proper hfull (leadsToFile_of_read hground hfull hnamed hread)
  have hcount := (hheld.nodup.subperm hsub).length_le
  omega

/-- **Cycle detection alone bounds a resolution.** Below a source directory without links, the stack of a
resolution holds at any time different files below that directory, in their normal form and no more than the
limit allows. Every import finds such a stack and leaves it as it was, whether it ends well or not. So with a
limit above the number of files, no resolution has ever too many templates in progress. -/
theorem resolve_bounded (hground : files.Ground root base) (globals : Binding) (limit : Nat) :
    (∀ path, ∃ seen, (∀ stack ∈ seen, StackOfFiles files base limit stack) ∧
      ((Engine.below files root limit).resolveOn globals limit path).run ⟨[], []⟩ =
        ((Engine.below files root limit).resolve globals path, ⟨[], seen⟩)) ∧
    (∀ stack room path seen, StackOfFiles files base limit stack → limit ≤ stack.length + room →
      ∃ more, (∀ stack' ∈ more, StackOfFiles files base limit stack') ∧
        ((Engine.below files root limit).resolveOn globals room path).run ⟨stack, seen⟩ =
          ((Engine.below files root limit).resolveUnder globals stack path, ⟨stack, more ++ seen⟩)) ∧
    ((filesBelow files base).length < limit → ∀ path fault,
      (Engine.below files root limit).resolve globals path = .error fault →
        fault.cause.kind ≠ .depthExceeded) := by
  have hevery : ∀ stack room path seen, StackOfFiles files base limit stack → limit ≤ stack.length + room →
      ∃ more, (∀ stack' ∈ more, StackOfFiles files base limit stack') ∧
        ((Engine.below files root limit).resolveOn globals room path).run ⟨stack, seen⟩ =
          ((Engine.below files root limit).resolveUnder globals stack path, ⟨stack, more ++ seen⟩) := by
    intro stack room path seen hstack hroom
    obtain ⟨pages, hpages, rfl⟩ := stackOfFiles_iff.mp hstack
    rw [length_stackOf] at hroom
    have htracks := resolveOn_tracks globals (fun names source hfull hnamed hread =>
      leadsToFile_of_read hground hfull hnamed hread) hpages hroom path
    obtain ⟨more, hmore, hrun⟩ := htracks seen
    exact ⟨more, fun stack' h => stackOfFiles_iff.mpr (hmore stack' h), hrun⟩
  refine ⟨?_, hevery, ?_⟩
  · intro path
    have hempty : StackOfFiles files base limit [] := ⟨List.nodup_nil, Nat.zero_le _, nofun⟩
    obtain ⟨more, hmore, hrun⟩ := hevery [] limit path [] hempty (Nat.le_add_left _ _)
    rw [List.append_nil] at hrun
    exact ⟨more, hmore, hrun⟩
  · intro hfiles path fault h
    exact not_tooDeep_of_files hground hfiles h

/-- A page that imports itself is never too deep with room for two templates, and each time that it does so, the
stack stays as it is. -/
theorem resolve_bounded_desk :
    (filesBelow (desk "east" "1") ["east", "book"]).length < 2 ∧
    StackOfFiles (desk "east" "1") ["east", "book"] 2 [⟨"page"⟩] ∧
    (∃ more, ((Engine.below (desk "east" "1") ⟨"book"⟩ 2).resolveOn [] 1 ⟨"./page"⟩).run ⟨[⟨"page"⟩], []⟩ =
      (.error ⟨⟨"page"⟩, .cycle [⟨"page"⟩, ⟨"page"⟩]⟩, ⟨[⟨"page"⟩], more ++ []⟩)) ∧
    ∀ path fault, (Engine.below (desk "east" "1") ⟨"book"⟩ 2).resolve [] path = .error fault →
      fault.cause.kind ≠ .depthExceeded := by
  obtain ⟨-, hevery, hdepth⟩ := resolve_bounded ground_desk_east [] 2
  have hnormal : normalize ⟨"page"⟩ = .ok ["page"] := by decide +kernel
  have hpage : Path.ofNames ["page"] = ⟨"page"⟩ := by decide +kernel
  have hstack : StackOfFiles (desk "east" "1") ["east", "book"] 2 [⟨"page"⟩] := by
    refine ⟨List.nodup_singleton _, by decide, ?_⟩
    intro busy hbusy
    rw [List.mem_singleton.mp hbusy]
    exact ⟨["page"], hnormal, hpage.symm, _, _, rfl⟩
  have hfiles : (filesBelow (desk "east" "1") ["east", "book"]).length < 2 := by decide +kernel
  refine ⟨hfiles, hstack, ?_, hdepth hfiles⟩
  obtain ⟨more, -, hrun⟩ := hevery [⟨"page"⟩] 1 ⟨"./page"⟩ [] hstack (by decide)
  have hnormal' : normalize ⟨"./page"⟩ = .ok ["page"] := by decide +kernel
  have hbusy : Busy [⟨"page"⟩] ["page"] := any_busy_iff.mp (by decide +kernel)
  rw [resolveUnder_busy hnormal' hbusy, hpage] at hrun
  exact ⟨more, hrun⟩

end Bindery.Template
