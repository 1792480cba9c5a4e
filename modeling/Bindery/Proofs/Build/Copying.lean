import Bindery.Proofs.Build.Overlay

/-!
# `Proofs.Build.Copying` — copies and what is taken away from them

A copy of a directory without links lays the tree of the source over what is at the target (`Copied`), for such a
tree is what is seen in it. The source is not below the directory of the build, so that no copy changes it.

**Contents.**
* `Copied` — the tree after a copy;
* `run_copyTree`, `run_copyDir`, `run_copyFile`, `run_prune` — what the stages call, with `absentees`, the names that
  are not there to be taken away.
-/

namespace Bindery.Build

open Files (Entry Ground Writable Below)

variable {files files' : Files} {root origin source target : Path} {base start location : Location}
  {area more names : List Raw} {name : Raw}

/-- What is at `source` has been laid over what is at `target`. Directories on the way there have been
made. -/
structure Copied (files files' : Files) (source target : Location) : Prop where
  copied : ∀ rest, files'.find? (target ++ rest) =
    (files.find? (source ++ rest)).or (files.find? (target ++ rest))
  kept : ∀ location, ¬target <+: location → files'.find? location = files.find? location ∨
    files.find? location = none ∧ files'.find? location = some .dir ∧ location <+: target

/-- A place that no change below the directory of the build reaches. -/
def Apart (area names : List Raw) : Prop :=
  ∀ (base : Location) rest, ¬Below (base ++ area) (base ++ (names ++ rest))

theorem Apart.find?_eq (h : Apart area names) (hwithin : Within root base area files files')
    (rest : List Raw) : files'.find? (base ++ (names ++ rest)) = files.find? (base ++ (names ++ rest)) :=
  hwithin.same _ (h base rest)

theorem Apart.outOf (h : Apart area names) (base : Location) : OutOf (base ++ area) (base ++ names) := by
  intro rest
  rw [List.append_assoc]
  exact h base rest

/-! ## Trees -/

/-- What is seen in a tree without links is what is there. -/
theorem Copied.of_overlaid {source target : Location} (hplain : Files.Linkless files source)
    (h : Overlaid (fun rest => files.seen (source ++ rest)) files files' target) :
    Copied files files' source target where
  copied := fun rest => (h.copied rest).trans (by rw [Files.seen_eq fun target => hplain rest target])
  kept := h.kept

/-- What is found at or below ground is what look-up finds there. -/
theorem found_at (horigin : files.Ground origin start) (hsource : origin.IsAt names source) {spot : Files.Spot}
    (hspot : files.spot true source = .ok spot) : spot = files.spotAt (start ++ names) := by
  rcases hsource with ⟨rfl, rfl⟩ | hbelow
  · rw [horigin.leads.spot_eq hspot, List.append_nil, Files.spotAt_eq horigin.dir]
  · exact (horigin.spot_eq hbelow hspot).1

/-- A tree on ground of its own can be copied. -/
theorem Copyable.of_ground {place : Location} (horigin : files.Ground origin start)
    (hsource : origin.IsAt names source) (hout : OutOf place (start ++ names)) :
    Copyable files place source (start ++ names) where
  finds := fun _ hspot => found_at horigin hsource hspot
  out := hout
  links := (horigin.plain.append names).linksOut place

/-- **A copy of a tree lays it over the target.** -/
theorem run_copyTree {depth : Nat} {result : Except Fault Nat} (hground : files.Ground root base)
    (hdir : files.find? (base ++ area) = some .dir) (horigin : files.Ground origin start)
    (hsource : origin.IsAt names source) (hbelow : root.IsBelow (area ++ more) target) (hfull : more ≠ [])
    (hout : OutOf (base ++ area) (start ++ names)) (h : (copyTree depth source target).run files = (result, files')) :
    Laid root base area files files' ∧
      ∀ count, result = .ok count → Copied files files' (start ++ names) (base ++ (area ++ more)) := by
  obtain ⟨hlaid, hdone⟩ := treeOverlaid root base area depth hground hdir (.of_ground horigin hsource hout) hbelow
    hfull h
  exact ⟨hlaid, fun count hok => .of_overlaid (horigin.plain.append names) (hdone count hok).1⟩

/-! ## What the stages call -/

theorem run_copyDir {result : Except Fault Nat}
    (hground : files.Ground root base) (hdir : files.find? (base ++ area) = some .dir)
    (hsource : root.IsBelow names source) (hbelow : root.IsBelow (area ++ more) target) (hfull : more ≠ [])
    (hapart : Apart area names) (h : (copyDir source target).run files = (result, files')) :
    Within root base area files files' ∧ ∀ count, result = .ok count →
      files.find? (base ++ names) = some .dir ∧
      Copied files files' (base ++ names) (base ++ (area ++ more)) := by
  rw [copyDir_run] at h
  by_cases hthere : files.isDirectory source = true
  · have hfind := hground.isDirectory_eq hsource hthere
    rw [if_pos hthere] at h
    split at h
    · next location link hspot =>
      have hlink := (Ground.find?_of_spotAt (hground.spot_eq hsource hspot).1).2
      exact absurd hlink (hground.plain _ _)
    · obtain ⟨hlaid, hcopied⟩ := run_copyTree hground hdir hground (.inr hsource) hbelow.slash hfull
        (hapart.outOf base) h
      exact ⟨hlaid.toWithin, fun count hok => ⟨hfind, hcopied count hok⟩⟩
  · rw [if_neg hthere] at h
    obtain ⟨rfl, rfl⟩ := Work.run_fail h
    exact ⟨.refl hground hdir, nofun⟩

theorem run_copyFile {result : Except Fault Unit}
    (hground : files.Ground root base) (hdir : files.find? (base ++ area) = some .dir)
    (hsource : root.IsBelow names source) (hbelow : root.IsBelow (area ++ more) target) (hfull : more ≠ [])
    (hapart : Apart area names) (h : (copyFile source target).run files = (result, files')) :
    Within root base area files files' ∧ (result = .ok () →
      Writable files base (area ++ more) ∧ ∃ content executable,
        files.find? (base ++ names) = some (.file content executable) ∧
        files' = files.put (base ++ (area ++ more)) (.file content executable)) := by
  have hother : base ++ (area ++ more) ≠ base ++ names := fun heq =>
    hapart base [] (by rw [List.append_nil, ← heq]; exact below_append hfull)
  have hrun : (copyFile source target).run files =
      (if files.isFile source then copyEntry source target
        else Work.fail (.missingSource source)).run files :=
    Work.run_get (fun files => if files.isFile source then copyEntry source target
      else Work.fail (.missingSource source)) files
  rw [hrun] at h
  by_cases hthere : files.isFile source = true
  · rw [if_pos hthere] at h
    exact (run_copyEntry hground hdir hground hsource hbelow hfull hother h).imp Laid.toWithin id
  · rw [if_neg hthere] at h
    obtain ⟨rfl, rfl⟩ := Work.run_fail h
    exact ⟨.refl hground hdir, nofun⟩

variable {sheet : String} {sheets : List String}

/-- Some names are gone from the directory at a location, and nothing else has changed. -/
structure Pruned (files files' : Files) (target : Location) (sheets : List String) : Prop where
  gone : ∀ sheet ∈ sheets, files'.find? (target ++ [(sheet : Raw)]) = none
  kept : ∀ location, (∀ sheet ∈ sheets, location ≠ target ++ [(sheet : Raw)]) →
    files'.find? location = files.find? location

theorem Pruned.cons {files₁ : Files} {target : Location} (hgone : files₁.find? (target ++ [(sheet : Raw)]) = none)
    (hkept : ∀ location, location ≠ target ++ [(sheet : Raw)] → files₁.find? location = files.find? location)
    (hrest : Pruned files₁ files' target sheets) : Pruned files files' target (sheet :: sheets) where
  gone := by
    intro sheet' hmem
    by_cases hlater : sheet' ∈ sheets
    · exact hrest.gone sheet' hlater
    · have hsame : sheet' = sheet := (List.mem_cons.mp hmem).resolve_right hlater
      rw [hrest.kept _ fun next hnext heq => hlater ?_, hsame, hgone]
      have hlast := (List.append_inj' heq rfl).2
      rwa [Raw.ofText_inj.mp (List.cons.inj hlast).1]
  kept := by
    intro location hout
    rw [hrest.kept location fun sheet hmem => hout sheet (List.mem_cons_of_mem _ hmem),
      hkept location (hout sheet List.mem_cons_self)]

/-- There is something in a directory under a name. -/
def present (files : Files) (target : Location) (sheet : String) : Bool :=
  (files.find? (target ++ [(sheet : Raw)])).isSome

/-- The names that are not there when their turn comes, if every turn takes away what is there. -/
def absentees : (there : String → Bool) → List String → List String
  | _, [] => []
  | there, sheet :: sheets =>
    let later := absentees (fun other => there other && other ≠ sheet) sheets
    if there sheet then later else sheet :: later

theorem absentees_there {target : Location} {entry : Entry}
    (hfind : files.find? (target ++ [(sheet : Raw)]) = some entry) :
    absentees (present files target) (sheet :: sheets) =
      absentees (present (files.remove (target ++ [(sheet : Raw)])) target) sheets := by
  have hthere : present files target sheet = true := by
    unfold present
    rw [hfind]
    rfl
  have hlater : present (files.remove (target ++ [(sheet : Raw)])) target =
      fun other => present files target other && other ≠ sheet := by
    funext other
    unfold present
    by_cases hsame : other = sheet
    · rw [hsame, Files.find?_remove_self (by simp)]
      simp
    · rw [Files.find?_remove_of_ne (by simp [hsame])]
      simp [hsame]
  rw [absentees, hlater]
  exact if_pos hthere

theorem absentees_none {target : Location} (hfind : files.find? (target ++ [(sheet : Raw)]) = none) :
    absentees (present files target) (sheet :: sheets) = sheet :: absentees (present files target) sheets := by
  have hnot : present files target sheet = false := by
    unfold present
    rw [hfind]
    rfl
  have hlater : (fun other => present files target other && other ≠ sheet) = present files target := by
    funext other
    by_cases hsame : other = sheet
    · rw [hsame, hnot]
      rfl
    · simp [hsame]
  rw [absentees, hlater]
  exact if_neg (by rw [hnot]; exact Bool.false_ne_true)

theorem run_prune {result : Except Fault (List String)}
    (hground : files.Ground root base) (hdir : files.find? (base ++ area) = some .dir)
    (hbelow : root.IsBelow (area ++ more) target) (hnames : ∀ sheet ∈ sheets, Path.IsName sheet)
    (h : (prune target sheets).run files = (result, files')) :
    Within root base area files files' ∧ ∀ missing, result = .ok missing →
      Pruned files files' (base ++ (area ++ more)) sheets ∧
        missing = absentees (present files (base ++ (area ++ more))) sheets := by
  induction sheets generalizing files files' result with
  | nil =>
    obtain ⟨rfl, rfl⟩ := Work.run_pure h
    refine ⟨.refl hground hdir, fun missing hok => ⟨⟨nofun, fun _ _ => rfl⟩, ?_⟩⟩
    cases hok
    rfl
  | cons sheet sheets ih =>
    have hname := hnames sheet List.mem_cons_self
    have hrest : ∀ sheet ∈ sheets, Path.IsName sheet := fun sheet hmem => hnames sheet (List.mem_cons_of_mem _ hmem)
    have hbelow' : root.IsBelow (area ++ (more ++ [(sheet : Raw)])) (target.join ⟨sheet⟩) := by
      rw [← List.append_assoc]
      exact hbelow.join hname
    have hplace : base ++ (area ++ (more ++ [(sheet : Raw)])) = base ++ (area ++ more) ++ [(sheet : Raw)] := by simp
    rw [prune, Work.run_get] at h
    -- a name is removed, or not there and told, or ends the whole with another fault
    split at h
    · next files₁ hunlink =>
      obtain ⟨⟨content, executable, hfind⟩, rfl⟩ := hground.unlink_eq hbelow' hunlink
      have hfile : files.find? (base ++ (area ++ (more ++ [(sheet : Raw)]))) ≠ some .dir := by
        rw [hfind]
        simp
      have hwithin := Within.remove hdir (by simp) (hground.remove (by simp) hfile)
      obtain ⟨hwithin', hpruned⟩ := ih hwithin.ground hwithin.dir hrest h
      rw [hplace] at hfind hwithin hwithin' hpruned
      refine ⟨hwithin.trans hwithin', fun missing hok => ?_⟩
      obtain ⟨hpruned, hmissing⟩ := hpruned missing hok
      refine ⟨.cons ?_ ?_ hpruned, hmissing.trans (absentees_there hfind).symm⟩
      · exact Files.find?_remove_self (by simp) _
      · intro location hother
        exact Files.find?_remove_of_ne hother _
    · next hunlink =>
      have hnone := hground.unlink_notFound hbelow' hunlink
      rcases Work.run_bind_cases h with ⟨fault, hprune, rfl⟩ | ⟨missing, files₁, hprune, hreturn⟩
      · refine ⟨(ih hground hdir hrest hprune).1, fun missing hok => ?_⟩
        cases hok
      · obtain ⟨hwithin, hpruned⟩ := ih hground hdir hrest hprune
        obtain ⟨rfl, rfl⟩ := Work.run_pure hreturn
        obtain ⟨hpruned, hmissing⟩ := hpruned missing rfl
        rw [hplace] at hnone
        refine ⟨hwithin, fun missing' hok => ⟨.cons hnone (fun _ _ => rfl) hpruned, ?_⟩⟩
        cases hok
        rw [absentees_none hnone, hmissing]
    · obtain ⟨rfl, rfl⟩ := Work.run_fail h
      refine ⟨.refl hground hdir, fun missing hok => ?_⟩
      cases hok

end Bindery.Build
