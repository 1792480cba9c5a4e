import Bindery.Build.Staging
import Bindery.Proofs.Files.Access

/-!
# `Proofs.Build.Work` — tasks that keep to their place

A task on the file tree either goes on after its first part or fails with it (`run_bind_cases`), so that
what holds after every part holds however the task ends. What every part of a build keeps is the ground
of the project and everything that is not below the directory of the build (`Within`).

**Contents.**
* `Work.run_bind_cases`, `Work.run_bind_ok` and the runs of the steps that tasks are made of;
* `Within` and `Laid`, preorders on trees;
* `makeDirs_outcome`, `run_makeDirs`, `run_write`, `run_copyEntry` — the steps that change the tree.
-/

namespace Bindery.Build

open Files (Entry Content Ground Writable Paved Below Roads)

/-! ## Runs -/

namespace Work

variable {α β : Type} {files files' : Files}

/-- A task with a second part fails with its first part, or goes on after it. -/
theorem run_bind_cases {work : Work α} {next : α → Work β} {result : Except Fault β}
    (h : (work >>= next).run files = (result, files')) :
    (∃ fault, work.run files = (.error fault, files') ∧ result = .error fault) ∨
      ∃ a files₁, work.run files = (.ok a, files₁) ∧ (next a).run files₁ = (result, files') := by
  rw [run_bind] at h
  cases hwork : work.run files with
  | mk outcome files₁ =>
    rw [hwork] at h
    cases outcome with
    | error fault =>
      cases h
      exact .inl ⟨fault, rfl, rfl⟩
    | ok a => exact .inr ⟨a, files₁, rfl, h⟩

/-- A task that ends well has done so in both parts. -/
theorem run_bind_ok {work : Work α} {next : α → Work β} {b : β}
    (h : (work >>= next).run files = (.ok b, files')) :
    ∃ a files₁, work.run files = (.ok a, files₁) ∧ (next a).run files₁ = (.ok b, files') := by
  rcases run_bind_cases h with ⟨fault, -, hok⟩ | hdone
  · cases hok
  · exact hdone

/-- A list of tasks that ends well has come to each of them, and that one has ended well, too. -/
theorem run_foldlM_ok {f : β → α → Work β} {list : List α} {a : α} {b c : β} (hmem : a ∈ list)
    (h : (list.foldlM f b).run files = (.ok c, files')) :
    ∃ front later b₁ files₁ b₂ files₂, list = front ++ a :: later ∧ a ∉ front ∧
      (front.foldlM f b).run files = (.ok b₁, files₁) ∧ (f b₁ a).run files₁ = (.ok b₂, files₂) := by
  obtain ⟨front, later, rfl, hnot⟩ := List.eq_append_cons_of_mem hmem
  rw [List.foldlM_append] at h
  obtain ⟨b₁, files₁, hfront, h⟩ := run_bind_ok h
  rw [List.foldlM_cons] at h
  obtain ⟨b₂, files₂, hone, -⟩ := run_bind_ok h
  exact ⟨front, later, b₁, files₁, b₂, files₂, rfl, hnot, hfront, hone⟩

theorem run_pure {a : α} {result : Except Fault α} (h : (pure a : Work α).run files = (result, files')) :
    result = .ok a ∧ files' = files := by
  cases (show (Except.ok a, files) = (result, files') from h)
  exact ⟨rfl, rfl⟩

theorem run_fail {fault : Fault} {result : Except Fault α}
    (h : (Work.fail fault : Work α).run files = (result, files')) :
    result = .error fault ∧ files' = files := by
  cases (show (Except.error fault, files) = (result, files') from h)
  exact ⟨rfl, rfl⟩

theorem run_lift {outcome result : Except Fault α}
    (h : (liftM outcome : Work α).run files = (result, files')) : result = outcome ∧ files' = files := by
  cases outcome with
  | error fault =>
    cases (show (Except.error fault, files) = (result, files') from h)
    exact ⟨rfl, rfl⟩
  | ok a =>
    cases (show (Except.ok a, files) = (result, files') from h)
    exact ⟨rfl, rfl⟩

/-- A task that begins with the tree as it is. -/
theorem run_get (next : Files → Work α) (files : Files) :
    (do let files ← get; next files : Work α).run files = (next files).run files := rfl

theorem run_change {action : Action} {path : Path} {step : Files → Except Files.Fault Files}
    {result : Except Fault Unit} (h : (Work.change action path step).run files = (result, files')) :
    (result = .ok () ∧ step files = .ok files') ∨ ((∀ a, result ≠ .ok a) ∧ files' = files) := by
  rw [Work.change, run_get] at h
  cases hstep : step files with
  | ok changed =>
    rw [hstep] at h
    cases (show (Except.ok (), changed) = (result, files') from h)
    exact .inl ⟨rfl, rfl⟩
  | error fault =>
    rw [hstep] at h
    obtain ⟨rfl, rfl⟩ := run_fail h
    refine .inr ⟨?_, rfl⟩
    intro a hok
    cases hok

theorem run_look {action : Action} {path : Path} {query : Files → Except Files.Fault α}
    {result : Except Fault α} (h : (Work.look action path query).run files = (result, files')) :
    files' = files ∧ ∀ a, result = .ok a → query files = .ok a := by
  rw [Work.look, run_get] at h
  cases hquery : query files with
  | ok answer =>
    rw [hquery] at h
    obtain ⟨rfl, rfl⟩ := run_pure h
    exact ⟨rfl, fun a hok => by cases hok; rfl⟩
  | error fault =>
    rw [hquery] at h
    obtain ⟨rfl, rfl⟩ := run_fail h
    refine ⟨rfl, ?_⟩
    intro a hok
    cases hok

end Work

/-! ## Keeping to a directory -/

variable {files files' : Files} {root path source : Path} {base location : Location}
  {area more names : List Raw}

theorem below_append (hfull : more ≠ []) : Below (base ++ area) (base ++ (area ++ more)) := by
  obtain ⟨name, rest, rfl⟩ := List.exists_cons_of_ne_nil hfull
  exact ⟨name, rest, by simp⟩

/-- Nothing has changed but what is below the directory of a build, which is still there. -/
structure Within (root : Path) (base : Location) (area : List Raw) (files files' : Files) : Prop where
  ground : files'.Ground root base
  home : files'.home = files.home
  dir : files'.find? (base ++ area) = some .dir
  same : ∀ location, ¬Below (base ++ area) location → files'.find? location = files.find? location

namespace Within

theorem refl (hground : files.Ground root base) (hdir : files.find? (base ++ area) = some .dir) :
    Within root base area files files :=
  ⟨hground, rfl, hdir, fun _ _ => rfl⟩

theorem trans {files'' : Files} (h : Within root base area files files')
    (h' : Within root base area files' files'') : Within root base area files files'' where
  ground := h'.ground
  home := h'.home.trans h.home
  dir := h'.dir
  same := fun location hout => (h'.same location hout).trans (h.same location hout)

theorem of_same (hground : files'.Ground root base) (hhome : files'.home = files.home)
    (hdir : files.find? (base ++ area) = some .dir)
    (hsame : ∀ location, ¬Below (base ++ area) location → files'.find? location = files.find? location) :
    Within root base area files files' where
  ground := hground
  home := hhome
  dir := by
    have hself : ¬Below (base ++ area) (base ++ area) := by
      rintro ⟨name, rest, heq⟩
      simp at heq
    rw [hsame _ hself, hdir]
  same := hsame

theorem put {entry : Entry} (hdir : files.find? (base ++ area) = some .dir) (hfull : more ≠ [])
    (hground : (files.put (base ++ (area ++ more)) entry).Ground root base) :
    Within root base area files (files.put (base ++ (area ++ more)) entry) :=
  .of_same hground rfl hdir fun location hout => by
    have hother : location ≠ base ++ (area ++ more) := by
      rintro rfl
      exact hout (below_append hfull)
    exact Files.find?_put_of_ne hother _ _

theorem remove (hdir : files.find? (base ++ area) = some .dir) (hfull : more ≠ [])
    (hground : (files.remove (base ++ (area ++ more))).Ground root base) :
    Within root base area files (files.remove (base ++ (area ++ more))) :=
  .of_same hground rfl hdir fun location hout => by
    have hother : location ≠ base ++ (area ++ more) := by
      rintro rfl
      exact hout (below_append hfull)
    exact Files.find?_remove_of_ne hother _

/-- Directories that are missing on the way to a place below a directory that is there are below it. -/
theorem paved (hground : files.Ground root base) (hdir : files.find? (base ++ area) = some .dir)
    (h : Paved files files' root base (area ++ more)) : Within root base area files files' := by
  refine .of_same h.ground h.home hdir fun location hout => ?_
  rcases h.found location with hsame | ⟨hnone, -, pre, -, hpre, rfl⟩
  · exact hsame
  · exfalso
    -- what leads to the directory is there, and what does not is below it
    rcases List.prefix_or_prefix_of_prefix hpre (List.prefix_append area more) with ⟨rest, rfl⟩ | ⟨rest, rfl⟩
    · have hthere : files.find? (base ++ pre) = some .dir :=
        hground.proper.dir_of_prefix ⟨rest, List.append_assoc _ _ _⟩ hdir
      rw [hthere] at hnone
      cases hnone
    · by_cases hend : rest = []
      · rw [hend, List.append_nil, hdir] at hnone
        cases hnone
      · exact hout (below_append hend)

end Within

/-- Nothing but files has been replaced below the directory of a build, so that every path to a directory still
leads there. -/
structure Laid (root : Path) (base : Location) (area : List Raw) (files files' : Files) : Prop
    extends Within root base area files files' where
  roads : Roads files files'

namespace Laid

theorem refl (hground : files.Ground root base) (hdir : files.find? (base ++ area) = some .dir) :
    Laid root base area files files :=
  ⟨.refl hground hdir, fun _ _ hfind _ => hfind⟩

theorem trans {files'' : Files} (h : Laid root base area files files')
    (h' : Laid root base area files' files'') : Laid root base area files files'' :=
  ⟨h.toWithin.trans h'.toWithin, fun location entry hfind hentry =>
    h'.roads location entry (h.roads location entry hfind hentry) hentry⟩

theorem putFile (hground : files.Ground root base) (hdir : files.find? (base ++ area) = some .dir)
    (hbelow : root.IsBelow (area ++ more) path) (hfull : more ≠ [])
    (hwritable : Writable files base (area ++ more)) (content : Content) (executable : Bool) :
    Laid root base area files (files.put (base ++ (area ++ more)) (.file content executable)) :=
  ⟨.put hdir hfull (hground.putFile hbelow hwritable _ _), hground.roads_putFile hwritable _ _⟩

theorem paved (hground : files.Ground root base) (hdir : files.find? (base ++ area) = some .dir)
    (h : Paved files files' root base (area ++ more)) : Laid root base area files files' :=
  ⟨.paved hground hdir h, h.roads⟩

/-- Ground is still ground, wherever it is. -/
theorem ground_of {origin : Path} {start : Location} (h : Laid root base area files files')
    (horigin : files.Ground origin start) : files'.Ground origin start := by
  refine horigin.change h.ground.proper h.home h.roads ?_
  intro rest target hfind
  by_cases hbelow : Below (base ++ area) (start ++ rest)
  · -- no link has been made in the directory of the build
    obtain ⟨name, more, heq⟩ := hbelow
    rw [heq, List.append_assoc] at hfind
    exact h.ground.plain _ _ hfind
  · rw [h.same _ hbelow] at hfind
    exact horigin.plain rest target hfind

end Laid

/-! ## Steps that change the tree -/

section Steps

variable {result : Except Fault Unit} {action : Action} {content : Content}

/-- A step that may fail after it has changed the tree. -/
theorem run_step (step : Files → Except Files.Fault Unit × Files) (fault : Files.Fault → Fault) (files : Files) :
    (do
      let (outcome, changed) := step (← get)
      set changed
      if let .error cause := outcome then Work.fail (fault cause) : Work Unit).run files =
    match step files with
    | (.ok (), changed) => (.ok (), changed)
    | (.error cause, changed) => (.error (fault cause), changed) := by
  show ExceptT.run (match step files with
    | (outcome, changed) => do
      set changed
      if let .error cause := outcome then Work.fail (fault cause) : Work Unit) files = _
  cases step files with
  | mk outcome changed => cases outcome <;> rfl

theorem makeDirs_run (path : Path) (files : Files) :
    (makeDirs path).run files =
      match files.makeDirs path with
      | (.ok (), made) => (.ok (), made)
      | (.error fault, made) => (.error (.files .creating path fault), made) :=
  run_step (Files.makeDirs path) (.files .creating path) files

/-- Making directories ends as it does in the tree. -/
theorem makeDirs_outcome (h : (makeDirs path).run files = (result, files')) :
    ∃ outcome, files.makeDirs path = (outcome, files') ∧ (result = .ok () → outcome = .ok ()) := by
  rw [makeDirs_run] at h
  cases hmade : files.makeDirs path with
  | mk outcome made =>
    rw [hmade] at h
    cases outcome with
    | ok done =>
      cases h
      exact ⟨_, rfl, fun _ => rfl⟩
    | error fault =>
      cases h
      exact ⟨_, rfl, nofun⟩

theorem run_makeDirs (hground : files.Ground root base) (hdir : files.find? (base ++ area) = some .dir)
    (hbelow : root.IsBelow (area ++ more) path) (h : (makeDirs path).run files = (result, files')) :
    Within root base area files files' ∧ Paved files files' root base (area ++ more) ∧
      (result = .ok () → files'.find? (base ++ (area ++ more)) = some .dir) := by
  obtain ⟨outcome, hmade, houtcome⟩ := makeDirs_outcome h
  obtain ⟨hpaved, hdone⟩ := hground.makeDirs_eq hbelow hmade
  exact ⟨.paved hground hdir hpaved, hpaved, fun hok => hdone (houtcome hok)⟩

theorem within_write (hground : files.Ground root base) (hdir : files.find? (base ++ area) = some .dir)
    (hbelow : root.IsBelow (area ++ more) path) (hfull : more ≠ []) (h : files.write path content = .ok files') :
    Within root base area files files' ∧ files' = files.put (base ++ (area ++ more))
      (.file content (files.executableAt (base ++ (area ++ more)))) := by
  obtain ⟨hwritable, rfl⟩ := hground.write_eq hbelow h
  exact ⟨.put hdir hfull (hground.putFile hbelow hwritable _ _), rfl⟩

theorem run_write (hground : files.Ground root base) (hdir : files.find? (base ++ area) = some .dir)
    (hbelow : root.IsBelow (area ++ more) path) (hfull : more ≠ [])
    (h : (Work.change action path (Files.write path content)).run files = (result, files')) :
    Within root base area files files' ∧ (result = .ok () →
      files' = files.put (base ++ (area ++ more))
        (.file content (files.executableAt (base ++ (area ++ more))))) := by
  rcases Work.run_change h with ⟨rfl, hwrite⟩ | ⟨hfault, rfl⟩
  · obtain ⟨hwithin, hput⟩ := within_write hground hdir hbelow hfull hwrite
    exact ⟨hwithin, fun _ => hput⟩
  · exact ⟨.refl hground hdir, fun hok => absurd hok (hfault ())⟩

theorem usable_of_run_write
    (h : (Work.change action path (Files.write path content)).run files = (.ok (), files')) :
    Files.Usable path := by
  rcases Work.run_change h with ⟨-, hwrite⟩ | ⟨hfault, -⟩
  · exact Ground.usable_of_write hwrite
  · exact absurd rfl (hfault ())

theorem run_copyEntry {origin : Path} {start : Location} (hground : files.Ground root base)
    (hdir : files.find? (base ++ area) = some .dir) (horigin : files.Ground origin start)
    (hsource : origin.IsBelow names source) (hbelow : root.IsBelow (area ++ more) path) (hfull : more ≠ [])
    (hother : base ++ (area ++ more) ≠ start ++ names)
    (h : (copyEntry source path).run files = (result, files')) :
    Laid root base area files files' ∧ (result = .ok () →
      Writable files base (area ++ more) ∧ ∃ content executable,
        files.find? (start ++ names) = some (.file content executable) ∧
        files' = files.put (base ++ (area ++ more)) (.file content executable)) := by
  rcases Work.run_change h with ⟨rfl, hcopy⟩ | ⟨hfault, rfl⟩
  · obtain ⟨hwritable, content, executable, hfind, rfl⟩ := hground.copy_eq horigin hsource hbelow hother hcopy
    exact ⟨.putFile hground hdir hbelow hfull hwritable _ _,
      fun _ => ⟨hwritable, content, executable, hfind, rfl⟩⟩
  · exact ⟨.refl hground hdir, fun hok => absurd hok (hfault ())⟩

end Steps

end Bindery.Build
