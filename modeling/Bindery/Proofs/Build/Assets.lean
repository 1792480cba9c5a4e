import Bindery.Proofs.Build.Keeping
import Bindery.Proofs.Build.Pruning

/-!
# `Proofs.Build.Assets` — the assets of a build

Assets are copied to a place where there is nothing. Nothing needs to be known about where that place is: if it
is among the assets, a copy of a directory on the way to it is again a copy to a place in that directory, one
name deeper, so that no such copy ever comes to an end (`not_copied_inside`). What is copied in the end is
apart from the place (`run_copyTree_free`). The style sheets for other formats are taken away from the copy,
and those that are not there are warned of (`Staged`).

**Contents.**
* `copyTree_eq_ok` — a copy that ends well;
* `not_copied_inside` — a tree is never copied into one of its directories;
* `run_copyTree_free`, `run_copyDir_free` — a copy to a place where there is nothing;
* `absentees_eq_filter` — names that are not there, if none of them is there twice;
* `Staged`, `assets_staged` — assets as they are staged, and what is taken away from any directory.
-/

namespace Bindery

/-- The names on the way to the place for assets. -/
def Format.assetNames (format : Format) : List Raw :=
  format.contentNames ++ [("assets" : Raw)]

namespace Build

open Files (Entry Paved)

variable {files files' : Files} {root origin source target : Path} {base start : Location}
  {more names : List Raw} {depth count : Nat}

/-! ## Copies to a place where there is nothing -/

/-- A copy that ends well has made the directory for it, and has gone through the entries as they were before. -/
theorem copyTree_eq_ok (hground : files.Ground root base) (horigin : files.Ground origin start)
    (hsource : origin.IsAt names source) (hbelow : root.IsBelow more target)
    (h : (copyTree (depth + 1) source target).run files = (.ok count, files')) :
    ∃ files₁, Paved files files₁ root base more ∧ files₁.find? (base ++ more) = some .dir ∧
      files₁.Ground origin start ∧ files₁.Leads source (start ++ names) ∧
      ((files.children (start ++ names)).foldlM (copyChild depth source target) 0).run files₁ =
        (.ok count, files') := by
  rw [copyTree_succ] at h
  obtain ⟨entries, files₀, hlist, h⟩ := Work.run_bind_ok h
  obtain ⟨rfl, hlist⟩ := Work.run_look hlist
  obtain ⟨hleads, -, rfl⟩ := children_of_list (fun _ hspot => found_at horigin hsource hspot) (hlist entries rfl)
  obtain ⟨made, files₁, hmake, h⟩ := Work.run_bind_ok h
  have hbase : files₀.find? (base ++ []) = some .dir := by
    rw [List.append_nil, hground.dir]
  obtain ⟨-, hpaved, hmade⟩ := run_makeDirs hground hbase hbelow hmake
  exact ⟨files₁, hpaved, hmade rfl, (Laid.paved hground hbase hpaved).ground_of horigin,
    hleads.mono hpaved.home hpaved.roads, h⟩

/-- The entries of a directory are copied apart from the one that leads to the target. -/
theorem run_copyChildren_apart {entries : List (Raw × Entry)} {total : Nat} {first : Raw}
    {rest : List Raw} (hground : files.Ground root base) (horigin : files.Ground origin start)
    (hleads : files.Leads source (start ++ names)) (hbelow : root.IsBelow more target)
    (htarget : files.find? (base ++ more) = some .dir)
    (hinside : base ++ more = start ++ (names ++ first :: rest))
    (hentries : ∀ entry ∈ entries, files.find? (start ++ names ++ [entry.1]) = some entry.2)
    (hfirst : ∀ entry ∈ entries, entry.1 ≠ first)
    (h : (entries.foldlM (copyChild depth source target) count).run files = (.ok total, files')) :
    Laid root base more files files' := by
  have hat : root.IsAt (more ++ []) target := by
    rw [List.append_nil]
    exact .inr hbelow
  have htarget' : files.find? (base ++ (more ++ [])) = some .dir := by rwa [List.append_nil]
  have hout : ∀ entry ∈ entries, OutOf (base ++ more) (start ++ names ++ [entry.1]) := by
    rintro ⟨name, entry⟩ hmem rest' ⟨last, rest'', heq⟩
    rw [hinside] at heq
    refine hfirst _ hmem ?_
    simpa using congrArg (fun place => place[(start ++ names).length]?) heq
  exact (overlay_copyChildren (treeOverlaid root base more depth) hground htarget hleads hat htarget' hout
    (fun entry _ => ((horigin.plain.append names).append [entry.1]).linksOut _) hentries h).1

/-- **A tree is never copied into one of its directories.** `first` is that directory, and the target is below
it. -/
theorem not_copied_inside {first second : Raw} {rest : List Raw} (hground : files.Ground root base)
    (horigin : files.Ground origin start) (hsource : origin.IsAt names source)
    (hbelow : root.IsBelow more target)
    (hinside : base ++ more = start ++ (names ++ first :: second :: rest))
    (hdir : files.find? (start ++ (names ++ [first])) = some .dir) :
    (copyTree depth source target).run files ≠ (.ok count, files') := by
  intro h
  induction depth generalizing names more source target first second rest files files' count with
  | zero =>
    obtain ⟨hok, -⟩ := Work.run_fail h
    cases hok
  | succ depth ih =>
    have hname : Path.IsName first := hground.proper.isName hdir first (by simp)
    have hmem : (first, Entry.dir) ∈ files.children (start ++ names) := by
      refine hground.proper.mem_children.mpr ?_
      rwa [List.append_assoc]
    obtain ⟨files₁, hpaved, htarget, horigin₁, hleads, h⟩ := copyTree_eq_ok hground horigin hsource hbelow h
    obtain ⟨front, later, count₁, files₂, count₂, files₃, hsplit, hnot, hfront, hchild⟩ :=
      Work.run_foldlM_ok hmem h
    -- the entries before that directory have been copied
    have hentries : ∀ entry ∈ front, files.find? (start ++ names ++ [entry.1]) = some entry.2 := by
      intro entry hentry
      refine hground.proper.mem_children.mp ?_
      rw [hsplit]
      exact List.mem_append_left _ hentry
    have hother : ∀ entry ∈ front, entry.1 ≠ first := by
      rintro ⟨name, entry⟩ hentry rfl
      have hfind := hentries _ hentry
      rw [List.append_assoc, hdir] at hfind
      cases hfind
      exact hnot hentry
    have hlaid : Laid root base more files₁ files₂ :=
      run_copyChildren_apart hpaved.ground horigin₁ hleads hbelow htarget hinside
        (fun entry hentry => hpaved.kept (hentries entry hentry)) hother hfront
    -- the next copy goes one name deeper, and so does its target
    have hinside' : base ++ (more ++ [first]) = start ++ (names ++ [first] ++ second :: (rest ++ [first])) := by
      rw [← List.append_assoc, hinside]
      simp
    have hway : start ++ (names ++ [first] ++ [second]) <+: base ++ more := by
      rw [hinside]
      exact ⟨rest, by simp⟩
    have hdir' : files₂.find? (start ++ (names ++ [first] ++ [second])) = some .dir :=
      hlaid.roads _ _ (hpaved.ground.proper.dir_of_prefix hway htarget) nofun
    obtain ⟨third, rest', hrest⟩ : ∃ third rest', rest ++ [first] = third :: rest' :=
      List.exists_cons_of_ne_nil (by simp)
    rw [hrest] at hinside'
    obtain ⟨count₃, files₄, hcopy, -⟩ := Work.run_bind_ok hchild
    exact ih hlaid.ground (hlaid.ground_of horigin₁) (.inr (hsource.join hname)) (hbelow.join hname) hinside'
      hdir' hcopy

/-- What is copied to a place where there is nothing is not around that place, nor in it. -/
theorem not_prefix_free {name : Raw} {entry : Entry} {files₁ : Files} (hground : files.Ground root base)
    (horigin : files.Ground origin start) (hbelow : root.IsBelow more target)
    (hfree : ∀ rest, files.find? (base ++ (more ++ rest)) = none) (hpaved : Paved files files₁ root base more)
    (hmade : files₁.find? (base ++ more) = some .dir) (hfind : files.find? (start ++ [name]) = some entry)
    (h : (copyTree (depth + 1) origin target).run files = (.ok count, files')) :
    ¬start ++ [name] <+: base ++ more ∧ ¬base ++ more <+: start ++ [name] := by
  have hnone : files.find? (base ++ more) = none := by
    rw [← hfree [], List.append_nil]
  constructor
  · rintro ⟨rest, heq⟩
    cases rest with
    | nil =>
      rw [← heq, List.append_nil, hfind] at hnone
      cases hnone
    | cons second rest =>
      -- something on the way to the target can only be a directory
      have hway : start ++ [name] <+: base ++ more := ⟨_, heq⟩
      have hdir := hpaved.ground.proper.dir_of_prefix hway hmade
      rw [hpaved.kept hfind] at hdir
      cases hdir
      have hinside : base ++ more = start ++ ([] ++ name :: second :: rest) := by
        rw [← heq]
        simp
      exact not_copied_inside hground horigin (.inl ⟨rfl, rfl⟩) hbelow hinside hfind h
  · intro hway
    rcases List.prefix_concat_iff.mp hway with heq | hway
    · rw [heq, hfind] at hnone
      cases hnone
    · rw [hground.proper.dir_of_prefix hway horigin.dir] at hnone
      cases hnone

/-- **What is copied to a place where there is nothing is there in the end, as it was in the beginning.** -/
theorem run_copyTree_free (hground : files.Ground root base) (horigin : files.Ground origin start)
    (hbelow : root.IsBelow more target) (hfree : ∀ rest, files.find? (base ++ (more ++ rest)) = none)
    (h : (copyTree depth origin target).run files = (.ok count, files')) :
    Copied files files' start (base ++ more) := by
  cases depth with
  | zero =>
    obtain ⟨hok, -⟩ := Work.run_fail h
    cases hok
  | succ depth =>
    have hcopy := h
    obtain ⟨files₁, hpaved, hmade, horigin₁, hleads, h⟩ := copyTree_eq_ok hground horigin (.inl ⟨rfl, rfl⟩) hbelow h
    rw [List.append_nil] at h hleads
    have hchildren : ∀ entry ∈ files.children start, files.find? (start ++ [entry.1]) = some entry.2 :=
      fun entry hmem => hground.proper.mem_children.mp hmem
    have hapart {name : Raw} {entry : Entry} (hfind : files.find? (start ++ [name]) = some entry) :=
      not_prefix_free hground horigin hbelow hfree hpaved hmade hfind hcopy
    have hout {name : Raw} {entry : Entry} (hfind : files.find? (start ++ [name]) = some entry) :
        OutOf (base ++ more) (start ++ [name]) :=
      outOf_of_not_prefix (hapart hfind).1 (hapart hfind).2
    have hkept (name : Raw) (entry : Entry) (hfind : files.find? (start ++ [name]) = some entry)
        (rest : List Raw) : files₁.find? (start ++ name :: rest) = files.find? (start ++ name :: rest) := by
      rcases hpaved.on_way (start ++ name :: rest) with hsame | ⟨-, -, hway⟩
      · exact hsame
      · exact absurd (List.IsPrefix.trans ⟨rest, by simp⟩ hway) (hapart hfind).1
    have hat : root.IsAt (more ++ []) target := by
      rw [List.append_nil]
      exact .inr hbelow
    have hmade' : files₁.find? (base ++ (more ++ [])) = some .dir := by rwa [List.append_nil]
    obtain ⟨-, hdone⟩ := overlay_copyChildren (treeOverlaid root base more depth) hpaved.ground hmade hleads hat hmade'
      (fun entry hmem => hout (hchildren entry hmem)) (fun entry _ => (horigin₁.plain.append [entry.1]).linksOut _)
      (fun entry hmem => hpaved.kept (hchildren entry hmem)) h
    have hsome := (hdone count rfl).1
    rw [List.append_nil] at hsome
    refine .of_overlaid horigin.plain (hsome.directory hground.proper horigin.dir ?_ hpaved.on_way hmade)
    intro entry hmem rest
    rw [Files.seen_eq fun target => horigin₁.plain _ target, Files.seen_eq fun target => horigin.plain _ target]
    exact hkept entry.1 entry.2 (hchildren entry hmem) rest

theorem run_copyDir_free (hground : files.Ground root base) (horigin : files.Ground origin start)
    (hbelow : root.IsBelow more target) (hfree : ∀ rest, files.find? (base ++ (more ++ rest)) = none)
    (h : (copyDir origin target).run files = (.ok count, files')) : Copied files files' start (base ++ more) := by
  obtain ⟨-, -, hcopy⟩ := copyDir_eq_ok h
  exact run_copyTree_free hground horigin hbelow.slash hfree hcopy

/-! ## Style sheets for other formats -/

/-- If no name is there twice, the names that are not there at their turn are those that are not there in the
beginning. -/
theorem absentees_eq_filter {there : String → Bool} {names : List String} (hnodup : names.Nodup) :
    absentees there names = names.filter fun name => !there name := by
  induction names generalizing there with
  | nil => rfl
  | cons name names ih =>
    obtain ⟨hfirst, hnodup⟩ := List.nodup_cons.mp hnodup
    have hlater : absentees (fun other => there other && other ≠ name) names =
        names.filter fun name => !there name := by
      rw [ih hnodup]
      refine List.filter_congr fun other hmem => ?_
      have hother : other ≠ name := by
        rintro rfl
        exact hfirst hmem
      simp [hother]
    rw [absentees, hlater, List.filter_cons]
    cases there name <;> rfl

/-- Assets as they should be staged, with a warning for each style sheet that should have been taken away but was
not there. Only containers go without the style sheets for other formats. -/
structure Staged (format : Format) (source staged : View) (warnings : List String) : Prop where
  whole : format = .html ∨ format = .pdf → staged = source ∧ warnings = []
  gone : format = .epub ∨ format = .mobi → ∀ other, other ≠ format → staged ["css", other.stylesheet] = none
  kept : format = .epub ∨ format = .mobi → ∀ names : List Raw,
    (∀ other, other ≠ format → names ≠ [("css" : Raw), other.stylesheet]) → staged names = source names
  warned : format = .epub ∨ format = .mobi → warnings =
    (Format.all.filter fun other => other ≠ format && (source ["css", other.stylesheet]).isNone).map fun other =>
      "stylesheet " ++ other.stylesheet ++ " was not present"

theorem staged_drop (format : Format) (source : View) :
    Staged format source (source.drop (format.foreignSheets.map fun name => [("css" : Raw), Raw.ofText name]))
      ((format.foreignSheets.filter fun name => (source ["css", Raw.ofText name]).isNone).map fun name =>
        "stylesheet " ++ name ++ " was not present") := by
  have hcontainer (h : format = .epub ∨ format = .mobi) :
      format.foreignSheets = (Format.all.filter (· ≠ format)).map Format.stylesheet := by
    unfold Format.foreignSheets
    rcases h with rfl | rfl
    · exact if_pos rfl
    · exact if_pos rfl
  have hsheet (h : format = .epub ∨ format = .mobi) (name : String) :
      name ∈ format.foreignSheets ↔ ∃ other, other ≠ format ∧ other.stylesheet = name := by
    rw [hcontainer h]
    simp [Format.mem_all]
  refine ⟨fun h => ?_, fun h other hother => ?_, fun h names hout => ?_, fun h => ?_⟩
  · have hnone : format.foreignSheets = [] := by
      rcases h with rfl | rfl <;> rfl
    rw [hnone]
    exact ⟨funext fun names => if_neg List.not_mem_nil, rfl⟩
  · exact if_pos (List.mem_map_of_mem ((hsheet h _).mpr ⟨other, hother, rfl⟩))
  · refine if_neg fun hmem => ?_
    obtain ⟨name, hname, rfl⟩ := List.mem_map.mp hmem
    obtain ⟨other, hother, rfl⟩ := (hsheet h name).mp hname
    exact hout other hother rfl
  · rw [hcontainer h, List.filter_map, List.filter_filter, List.map_map]
    simp only [Bool.and_comm]
    rfl

namespace Site

variable {site : Site} {place assets : Location} {output : Output}

/-- The assets that are staged, and that nothing else has changed but for directories on the way to them. -/
theorem run_copyAssets_free (hassets : files.Ground (site.sourceDir.join ⟨"assets"⟩) assets)
    (hground : files.Ground site.buildDir place)
    (hfree : ∀ rest, files.find? (place ++ (site.format.assetNames ++ rest)) = none)
    (h : site.copyAssets.run files = (.ok output, files')) :
    output.artifact = none ∧
      Staged site.format (files.view assets) (files'.view (place ++ site.format.assetNames)) output.warnings ∧
      ∀ location, ¬place ++ site.format.assetNames <+: location →
        files'.find? location = files.find? location ∨
          files.find? location = none ∧ files'.find? location = some .dir ∧
            location <+: place ++ site.format.assetNames := by
  have hbelow : site.buildDir.IsBelow site.format.assetNames (site.contentDir.join ⟨"assets"⟩) :=
    site.below_content (by decide)
  have hcss := hbelow.join (show Path.IsName "css" by decide)
  have hnodup : site.format.foreignSheets.Nodup := by
    cases site.format <;> decide
  obtain ⟨count, files₁, hcopy, hrest⟩ := Work.run_bind_ok h
  obtain ⟨missing, files₂, hprune, hreturn⟩ := Work.run_bind_ok hrest
  obtain ⟨hok, rfl⟩ := Work.run_pure hreturn
  cases hok
  have hcopied := run_copyDir_free hground hassets hbelow hfree hcopy
  have hwithin := keeps_copyDir hbelow files _ files₁ hground hcopy
  -- nothing was at the place, so that what is there after the copy is what has been copied
  have hview : files₁.view (place ++ site.format.assetNames) = files.view assets := by
    funext names
    have hlaid := hcopied.copied names
    rw [List.append_assoc, hfree, Option.or_none] at hlaid
    unfold Files.view
    rw [← hlaid, List.append_assoc]
  have hpruned : Pruned files₁ files' (place ++ (site.format.assetNames ++ [("css" : Raw)]))
        site.format.foreignSheets ∧
      missing = absentees (present files₁ (place ++ (site.format.assetNames ++ [("css" : Raw)])))
        site.format.foreignSheets :=
    (run_prune hwithin.ground hwithin.dir hcss site.format.isName_foreignSheets hprune).2 missing rfl
  obtain ⟨hpruned, rfl⟩ := hpruned
  have hpresent (name : String) : present files₁ (place ++ (site.format.assetNames ++ [("css" : Raw)])) name =
      (files.view assets ["css", name]).isSome := by
    rw [← hview]
    unfold present Files.view
    simp only [List.append_assoc, List.singleton_append]
  refine ⟨rfl, ?_, fun location hout => ?_⟩
  · have hstaged := staged_drop site.format (files.view assets)
    rw [view_pruned hpruned, hview, absentees_eq_filter hnodup]
    simp only [hpresent, Option.not_isSome]
    exact hstaged
  · have hkept : files'.find? location = files₁.find? location := by
      refine hpruned.kept location fun name _ heq => hout ?_
      rw [heq, ← List.append_assoc]
      exact (List.prefix_append _ _).trans (List.prefix_append _ _)
    rw [hkept]
    exact hcopied.kept location hout

end Site

/-- **Staged assets are those of the project, less the style sheets for other formats; and what is taken away from
any directory are the names that are given, apart from those that are not there at their turn.** -/
theorem assets_staged :
    (∀ (site : Site) (files files' : Files) (assets place : Location) (output : Output),
      files.Ground (site.sourceDir.join ⟨"assets"⟩) assets → files.Ground site.buildDir place →
      (∀ rest, files.find? (place ++ (site.format.assetNames ++ rest)) = none) →
      site.copyAssets.run files = (.ok output, files') →
      output.artifact = none ∧
        Staged site.format (files.view assets) (files'.view (place ++ site.format.assetNames)) output.warnings ∧
        ∀ location, ¬place ++ site.format.assetNames <+: location →
          files'.find? location = files.find? location ∨
            files.find? location = none ∧ files'.find? location = some .dir ∧
              location <+: place ++ site.format.assetNames) ∧
    ∀ (dir : Path) (names missing : List String) (files files' : Files),
      (∀ name ∈ names, Path.IsName name) → (prune dir names).run files = (.ok missing, files') →
      (∀ location, files.Leads dir location → TakenFrom dir files files' location names missing) ∧
      (∀ location, files.Leads dir location → (files.clear location).Leads dir location →
        Pruned files files' location names ∧ (∀ name ∈ names, files.find? (location ++ [(name : Raw)]) ≠ some .dir) ∧
          missing = absentees (present files location) names) ∧
      ((∀ location, ¬files.Leads dir location) → missing = names ∧ files' = files) := by
  refine ⟨?_, ?_⟩
  · intro site files files' assets place output hassets hground hfree h
    exact Site.run_copyAssets_free hassets hground hfree h
  · intro dir names missing files files' hnames h
    refine ⟨?_, ?_, ?_⟩
    · intro location hleads
      exact taken_of_prune hnames hleads h
    · intro location hleads hdirect
      exact (taken_of_prune hnames hleads h).of_direct hdirect
    · intro hnowhere
      exact prune_nowhere hnames hnowhere h

/-! ## A leaflet -/

/-- A project with two style sheets, and a clean directory for a build. -/
def leaflet : Files where
  home := []
  entries :=
    [(["l"], .dir), (["l", "book"], .dir), (["l", "book", "assets"], .dir),
     (["l", "book", "assets", "css"], .dir),
     (["l", "book", "assets", "css", "stylesheet.epub.css"], .file (.ofText "e") false),
     (["l", "book", "assets", "css", "stylesheet.pdf.css"], .file (.ofText "p") false),
     (["l", "builds"], .dir), (["l", "builds", "epub"], .dir)]

/-- A site whose sources and whose build are in the leaflet. -/
def leafletSite : Site where
  root := ⟨"l"⟩
  book := { title := "L", author := "A", identifier := "I" }
  format := .epub

/-- Names of which one is not there, and one is not there any more at its second turn. -/
def leafletNames : List String :=
  ["a", "stylesheet.pdf.css", "stylesheet.pdf.css"]

theorem ground_leaflet_assets :
    leaflet.Ground (leafletSite.sourceDir.join ⟨"assets"⟩) ["l", "book", "assets"] where
  proper := .of_entries (by unfold Dict.Sorted; decide +kernel) (by decide +kernel) (by decide +kernel)
  leads := by unfold Files.Leads; decide +kernel
  dir := by decide +kernel
  plain := .of_entries (by simp [leaflet]) _

theorem ground_leaflet_build : leaflet.Ground leafletSite.buildDir ["l", "builds", "epub"] where
  proper := ground_leaflet_assets.proper
  leads := by unfold Files.Leads; decide +kernel
  dir := by decide +kernel
  plain := .of_entries (by simp [leaflet]) _

/-- The leaflet in a container has its own style sheet and no other one, and what is missing is told once for each
turn. -/
theorem assets_staged_leaflet :
    (∃ output files', leafletSite.copyAssets.run leaflet = (.ok output, files') ∧
      files'.find? ["l", "builds", "epub", "OEBPS", "assets", "css", "stylesheet.epub.css"] =
        some (.file (.ofText "e") false) ∧
      files'.find? ["l", "builds", "epub", "OEBPS", "assets", "css", "stylesheet.pdf.css"] = none ∧
      output.warnings = ["stylesheet stylesheet.html.css was not present",
        "stylesheet stylesheet.mobi.css was not present"]) ∧
    ∃ files', (prune ⟨"l/book/assets/css"⟩ leafletNames).run leaflet =
        (.ok ["a", "stylesheet.pdf.css"], files') ∧
      Pruned leaflet files' ["l", "book", "assets", "css"] leafletNames := by
  obtain ⟨hstaged, hpruned⟩ := assets_staged
  constructor
  · have hnames : leafletSite.format.assetNames = [("OEBPS" : Raw), "assets"] := rfl
    have hfree : ∀ rest,
        leaflet.find? (["l", "builds", "epub"] ++ (leafletSite.format.assetNames ++ rest)) = none := by
      intro rest
      simp [hnames, leaflet, Files.find?, Dict.find?]
    have hok : (leafletSite.copyAssets.run leaflet).1.isOk = true := by decide +kernel
    cases hrun : leafletSite.copyAssets.run leaflet with
    | mk result files' =>
      rw [hrun] at hok
      cases result with
      | error fault => cases hok
      | ok output =>
        obtain ⟨-, hassets, -⟩ :=
          hstaged _ _ _ _ _ _ ground_leaflet_assets ground_leaflet_build hfree hrun
        refine ⟨output, files', rfl, ?_, ?_, ?_⟩
        · refine (hassets.kept (.inl rfl) ["css", "stylesheet.epub.css"] ?_).trans (by decide +kernel)
          intro other
          cases other <;> decide
        · exact hassets.gone (.inl rfl) .pdf (by decide)
        · rw [hassets.warned (.inl rfl)]
          decide +kernel
  · have hleads : leaflet.Leads ⟨"l/book/assets/css"⟩ ["l", "book", "assets", "css"] := by
      unfold Files.Leads
      decide +kernel
    have hdirect : (leaflet.clear ["l", "book", "assets", "css"]).Leads ⟨"l/book/assets/css"⟩
        ["l", "book", "assets", "css"] := by
      unfold Files.Leads
      decide +kernel
    have hok : ((prune ⟨"l/book/assets/css"⟩ leafletNames).run leaflet).1.isOk = true := by decide +kernel
    cases hrun : (prune ⟨"l/book/assets/css"⟩ leafletNames).run leaflet with
    | mk result files' =>
      rw [hrun] at hok
      cases result with
      | error fault => cases hok
      | ok missing =>
        obtain ⟨-, htaken, -⟩ := hpruned _ _ _ _ _ (by decide +kernel) hrun
        obtain ⟨hgone, -, rfl⟩ := htaken _ hleads hdirect
        have hmissing : absentees (present leaflet ["l", "book", "assets", "css"]) leafletNames =
            ["a", "stylesheet.pdf.css"] := by
          decide +kernel
        exact ⟨files', by rw [hmissing], hgone⟩

end Build

end Bindery
