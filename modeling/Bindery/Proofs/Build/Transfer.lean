import Bindery.Proofs.Build.Overlay

/-!
# `Proofs.Build.Transfer` — a directory is copied to any other one

The target of a copy may be missing, and its path may be of any form that goes up only from directories that are
there. The first step makes the target; from then on it is a directory without links that its path leads to, and
the copy lays what is seen in the source over it (`copyTree_transfers`). No copy takes a directory or a link away,
so that the path still leads there in the end (`Work.Paves`).

A path that goes up from a part that is missing is made with that part, which may be in the target itself
(`copyDir_makes_detour`).

**Contents.**
* `Work.Paves`, `paves_copyTree` — tasks after which every directory is where it was;
* `copyTree_transfers`, `copyDir_transfers` — what a copy has done that ends well.
-/

namespace Bindery.Build

open Files (Entry Roads Linkless LinksOut Opened)

variable {files files' : Files} {source target : Path} {origin place location : Location}

/-! ## Paths that lead to directories -/

namespace Work

variable {α β : Type}

/-- However the task ends, every path that led to a directory leads there still. -/
def Paves (work : Work α) : Prop :=
  ∀ files result files', work.run files = (result, files') → files'.home = files.home ∧ Roads files files'

namespace Paves

theorem pure (a : α) : Paves (Pure.pure a : Work α) := by
  intro files result files' h
  obtain ⟨-, rfl⟩ := run_pure h
  exact ⟨rfl, fun _ _ hfind _ => hfind⟩

theorem fail (fault : Fault) : Paves (Work.fail fault : Work α) := by
  intro files result files' h
  obtain ⟨-, rfl⟩ := run_fail h
  exact ⟨rfl, fun _ _ hfind _ => hfind⟩

theorem look {action : Action} {path : Path} {query : Files → Except Files.Fault α} :
    Paves (Work.look action path query) := by
  intro files result files' h
  obtain ⟨rfl, -⟩ := run_look h
  exact ⟨rfl, fun _ _ hfind _ => hfind⟩

theorem bind {work : Work α} {next : α → Work β} (h : Paves work) (hnext : ∀ a, Paves (next a)) :
    Paves (work >>= next) := by
  intro files result files' hrun
  rcases run_bind_cases hrun with ⟨fault, hwork, -⟩ | ⟨a, files₁, hwork, hrest⟩
  · exact h _ _ _ hwork
  · obtain ⟨hhome, hroads⟩ := h _ _ _ hwork
    obtain ⟨hhome', hroads'⟩ := hnext a _ _ _ hrest
    refine ⟨hhome'.trans hhome, fun location entry hfind hentry => ?_⟩
    exact hroads' _ _ (hroads _ _ hfind hentry) hentry

theorem foldlM {f : β → α → Work β} {list : List α} (h : ∀ b a, Paves (f b a)) : ∀ b, Paves (list.foldlM f b) := by
  induction list with
  | nil => exact pure
  | cons a list ih =>
    intro b
    rw [List.foldlM_cons]
    exact bind (h b a) ih

end Paves

end Work

open Work (Paves)

theorem paves_makeDirs (target : Path) : Paves (makeDirs target) := by
  intro files result files' h
  obtain ⟨outcome, hmade, -⟩ := makeDirs_outcome h
  have hgrown := Files.grown_of_makeDirs hmade
  exact ⟨hgrown.home, hgrown.roads⟩

/-- A copy of a file takes the place of a file or of nothing. -/
theorem paves_copyEntry (source target : Path) : Paves (copyEntry source target) := by
  intro files result files' h
  rcases Work.run_change h with ⟨-, hcopy⟩ | ⟨-, rfl⟩
  · obtain ⟨location, content, executable, destination, mode, -, hwritable, rfl⟩ := Files.copy_eq_ok hcopy
    obtain ⟨hplain, hfree⟩ := Files.free_of_writable hwritable
    exact ⟨rfl, .putFile hplain hfree _ _⟩
  · exact ⟨rfl, fun _ _ hfind _ => hfind⟩

theorem paves_copyChild {depth : Nat} (htree : ∀ source target, Paves (copyTree depth source target))
    (source target : Path) (count : Nat) (child : Raw × Entry) :
    Paves (copyChild depth source target count child) := by
  obtain ⟨name, entry⟩ := child
  cases entry with
  | dir => exact .bind (htree _ _) fun _ => .pure _
  | file content executable => exact .bind (paves_copyEntry _ _) fun _ => .pure _
  | link target => exact .bind (paves_copyEntry _ _) fun _ => .pure _

theorem paves_copyTree (depth : Nat) : ∀ source target, Paves (copyTree depth source target) := by
  induction depth with
  | zero => exact fun _ _ => .fail _
  | succ depth ih =>
    intro source target
    rw [copyTree_succ]
    exact .bind .look fun entries => .bind (paves_makeDirs target) fun _ => .foldlM (paves_copyChild ih source target) 0

/-! ## One copy -/

/-- What a copy to a place has done that ends well, if the source and the place are apart, there is no link at the
place, and all links in the source lead to files that are not there. -/
structure Transferred (files files' : Files) (origin place : Location) (count : Nat) : Prop where
  counted : count = files.fileCount origin
  overlaid : Overlaid (fun rest => files.seen (origin ++ rest)) files files' place

/-- Once the target has been made, the entries of the source are laid over it. -/
theorem transferred_of_children {files₁ : Files} {depth count : Nat} (hproper : files.Proper)
    (horigin : files.find? origin = some .dir) (hleads : files.Leads source origin)
    (hopened : Opened place files files₁) (hmade : files₁.Leads target place)
    (hdir : files₁.find? place = some .dir) (habove : ¬origin <+: place) (hbelow : ¬place <+: origin)
    (hplain : Linkless files place) (hlinks : LinksOut files origin place)
    (h : ((files.children origin).foldlM (copyChild depth source target) 0).run files₁ = (.ok count, files')) :
    Transferred files files' origin place count := by
  have hout : OutOf place origin := outOf_of_not_prefix habove hbelow
  -- what has been made is on the way to the place, so that the source is as it was, and so is what its links lead to
  have hsource : ∀ rest, files₁.find? (origin ++ rest) = files.find? (origin ++ rest) := by
    intro rest
    rcases hopened.found (origin ++ rest) with hsame | ⟨-, -, hway⟩
    · exact hsame
    · exact absurd ((List.prefix_append _ _).trans hway) habove
  have hother : ∀ location, ¬place <+: location → files.find? location ≠ none →
      files₁.find? location = files.find? location := by
    intro location _ hthere
    rcases hopened.found location with hsame | ⟨hnone, -, -⟩
    · exact hsame
    · exact absurd hnone hthere
  -- now the place is ground without links, on which the entries are laid
  have hground : files₁.Ground target place :=
    ⟨hopened.proper, hmade, hdir, fun rest link hfind => hplain rest link (hopened.link hfind)⟩
  have hdir' : files₁.find? (place ++ []) = some .dir := by rwa [List.append_nil]
  have hdir'' : files₁.find? (place ++ ([] ++ [])) = some .dir := by rwa [List.append_nil, List.append_nil]
  have hchildren : ∀ entry ∈ files.children origin, files₁.find? (origin ++ [entry.1]) = some entry.2 := by
    intro entry hmem
    rw [hsource]
    exact hproper.mem_children.mp hmem
  have hlinks₁ := hlinks.change hopened.roads hsource hother
  obtain ⟨-, hdone⟩ := overlay_copyChildren (treeOverlaid target place [] depth) hground hdir'
    (hleads.mono hopened.home hopened.roads) (.inl ⟨rfl, rfl⟩) hdir''
    (fun entry _ => by rw [List.append_nil]; exact hout.append [entry.1])
    (fun entry _ => by rw [List.append_nil]; exact hlinks₁.append [entry.1]) hchildren h
  obtain ⟨hsome, rfl⟩ := hdone count rfl
  rw [List.append_nil, List.append_nil] at hsome
  constructor
  · rw [hproper.fileCount_eq_entriesCount, Nat.zero_add]
    exact hproper.entriesCount_congr hopened.proper fun entry _ rest => by rw [List.append_assoc, hsource]
  · refine hsome.directory hproper horigin (fun entry _ rest => ?_) hopened.found hdir
    exact hlinks.seen_congr hopened.roads hsource hother (entry.1 :: rest)

theorem copyTree_transfers {depth count : Nat} (hproper : files.Proper) (hhome : files.find? files.home = some .dir)
    (hleads : files.Leads source origin) (hsolid : files.Solid target)
    (h : (copyTree depth source target).run files = (.ok count, files')) :
    ∃ place, files'.Leads target place ∧ (∀ location, files.Leads target location → location = place) ∧
      (¬origin <+: place → ¬place <+: origin → Linkless files place → LinksOut files origin place →
        Transferred files files' origin place count) := by
  cases depth with
  | zero =>
    obtain ⟨hok, -⟩ := Work.run_fail h
    cases hok
  | succ depth =>
    have horigin := hleads.dir hproper hhome
    have hfinds : ∀ spot, files.spot true source = .ok spot → spot = files.spotAt origin := by
      intro spot hspot
      rw [hleads.spot_eq hspot, Files.spotAt_eq horigin]
    rw [copyTree_succ] at h
    obtain ⟨entries, files₀, hlist, h⟩ := Work.run_bind_ok h
    obtain ⟨rfl, hlist⟩ := Work.run_look hlist
    obtain ⟨-, -, rfl⟩ := children_of_list hfinds (hlist entries rfl)
    obtain ⟨made, files₁, hmake, h⟩ := Work.run_bind_ok h
    obtain ⟨outcome, hmade, houtcome⟩ := makeDirs_outcome hmake
    cases houtcome rfl
    obtain ⟨place, hplace, hopened, -⟩ := Files.founded_of_makeDirs hproper hhome hsolid hmade
    -- what leads to the place still leads there when all entries have been copied
    obtain ⟨hhome', hroads⟩ :=
      Paves.foldlM (paves_copyChild (paves_copyTree depth) source target) 0 files₁ _ files' h
    refine ⟨place, hplace.mono hhome' hroads, fun location hbefore => ?_, fun habove hbelow hplain hlinks => ?_⟩
    · exact (hbefore.mono hopened.home hopened.roads).unique hplace
    · have hdir := hplace.dir hopened.proper (hopened.home_dir hhome)
      exact transferred_of_children hproper horigin hleads hopened hplace hdir habove hbelow hplain hlinks h

/-! ## Copies of directories -/

theorem stops_join_empty (path : Path) : (path.join ⟨""⟩).stops = path.stops := by
  have hjoin : (path.join ⟨""⟩).stops = path.stops ++ Path.stops ⟨""⟩ := Path.stops_join rfl
  exact hjoin.trans (List.append_nil _)

theorem start_join_empty (files : Files) (path : Path) : files.start (path.join ⟨""⟩) = files.start path :=
  Files.start_congr (Path.isAbsolute_join rfl) files

theorem leads_join_empty : files.Leads (target.join ⟨""⟩) location ↔ files.Leads target location := by
  unfold Files.Leads
  rw [stops_join_empty, start_join_empty]

/-- **A copy of a directory that ends well lays what is seen in it over the target, and counts the files.** The
target's path goes up only from directories that are there. The source and the target are apart, there is no link in
the target, and the links in the source lead to files outside of it. -/
theorem copyDir_transfers :
    (∀ (source target : Path) (files files' : Files) (origin : Location) (count : Nat), files.Proper →
      files.find? files.home = some .dir → files.Leads source origin → files.Solid target →
      (copyDir source target).run files = (.ok count, files') →
      ∃ place, files'.Leads target place ∧ (∀ location, files.Leads target location → location = place) ∧
        (¬origin <+: place → ¬place <+: origin → Linkless files place → LinksOut files origin place →
          Transferred files files' origin place count)) ∧
    ∀ (source target : Path) (files : Files), files.isDirectory source = false →
      (copyDir source target).run files = (.error (.missingSource source), files) := by
  constructor
  · intro source target files files' origin count hproper hhome hleads hsolid h
    obtain ⟨-, -, hcopy⟩ := copyDir_eq_ok h
    have hsolid' : files.Solid (target.join ⟨""⟩) := by
      unfold Files.Solid
      rw [stops_join_empty, start_join_empty]
      exact hsolid
    obtain ⟨place, hplace, hbefore, htransferred⟩ := copyTree_transfers hproper hhome hleads hsolid' hcopy
    refine ⟨place, leads_join_empty.mp hplace, fun location hlocation => ?_, htransferred⟩
    exact hbefore location (leads_join_empty.mpr hlocation)
  · intro source target files hmissing
    exact copyDir_missing hmissing

/-- Something to copy with a link out of it, and a directory in which it partly is already. -/
def depot : Files where
  home := []
  entries :=
    [(["d"], .dir), (["d", "a"], .file (.ofText "old") false), (["d", "k"], .file (.ofText "kept") false),
     (["s"], .dir), (["s", "a"], .file (.ofText "new") true), (["s", "e"], .dir), (["s", "l"], .link ⟨"../t"⟩),
     (["t"], .file (.ofText "t") false)]

theorem depot_links {target : Path} (h : depot.find? location = some (.link target)) :
    location = [("s" : Raw), "l"] ∧ target = ⟨"../t"⟩ := by
  unfold Files.find? at h
  split at h
  · cases h
  · simpa [depot] using Dict.mem_of_find? h

/-- Files are replaced or kept, the empty directory is there, and so is the file that the link leads to. -/
theorem copyDir_transfers_depot :
    (∃ files', (copyDir ⟨"s"⟩ ⟨"s/../d"⟩).run depot = (.ok 2, files') ∧
      files'.find? ["d", "a"] = some (.file (.ofText "new") true) ∧
      files'.find? ["d", "e"] = some .dir ∧ files'.find? ["d", "k"] = some (.file (.ofText "kept") false) ∧
      files'.find? ["d", "l"] = some (.file (.ofText "t") false)) ∧
    (copyDir ⟨"t"⟩ ⟨"d"⟩).run depot = (.error (.missingSource ⟨"t"⟩), depot) := by
  obtain ⟨hcopies, hmissing⟩ := copyDir_transfers
  constructor
  · have hproper : depot.Proper :=
      .of_entries (by unfold Dict.Sorted; decide +kernel) (by decide +kernel) (by decide +kernel)
    have hleads : depot.Leads ⟨"s"⟩ ["s"] := rfl
    have hbefore : depot.Leads ⟨"s/../d"⟩ ["d"] := rfl
    have hplain : Linkless depot ["d"] := by
      intro rest target hfind
      have hlocation := (depot_links hfind).1
      simp at hlocation
    have hlinks : LinksOut depot ["s"] ["d"] := by
      intro rest target hfind
      obtain ⟨hlocation, rfl⟩ := depot_links hfind
      rw [hlocation]
      exact ⟨["t"], .ofText "t", false, rfl, by decide⟩
    have hok : ((copyDir ⟨"s"⟩ ⟨"s/../d"⟩).run depot).1.isOk = true := by decide +kernel
    cases hrun : (copyDir ⟨"s"⟩ ⟨"s/../d"⟩).run depot with
    | mk result files' =>
      rw [hrun] at hok
      cases result with
      | error fault => cases hok
      | ok count =>
        obtain ⟨place, -, hplace, htransferred⟩ := hcopies _ _ _ _ _ _ hproper rfl hleads hbefore.solid hrun
        cases hplace _ hbefore
        obtain ⟨rfl, hover⟩ := htransferred (by decide) (by decide) hplain hlinks
        exact ⟨files', rfl, hover.copied ["a"], hover.copied ["e"], hover.copied ["k"], hover.copied ["l"]⟩
  · exact hmissing _ _ _ rfl

/-- A directory with nothing in it, and something to copy into it. -/
def yard : Files where
  home := []
  entries := [(["d"], .dir), (["s"], .dir), (["s", "a"], .file (.ofText "a") false)]

/-- A path that goes up from a part that is missing is made with that part: a directory that is not in the source,
and was not in the target. -/
theorem copyDir_makes_detour :
    Linkless yard [] ∧ yard.Leads ⟨"s"⟩ ["s"] ∧
      ∃ files', (copyDir ⟨"s"⟩ ⟨"d/x/.."⟩).run yard = (.ok 1, files') ∧ files'.Leads ⟨"d/x/.."⟩ ["d"] ∧
        yard.find? ["s", "x"] = none ∧ yard.find? ["d", "x"] = none ∧ files'.find? ["d", "x"] = some .dir := by
  refine ⟨.of_entries (by simp [yard]) _, rfl, ?_⟩
  refine ⟨(yard.put ["d", "x"] .dir).put ["d", "a"] (.file (.ofText "a") false), ?_, ?_, ?_, ?_, ?_⟩
  · rfl
  · rfl
  · rfl
  · rfl
  · rfl

end Bindery.Build
