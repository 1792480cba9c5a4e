import Bindery.Build.Site
import Bindery.Proofs.Build.Packing
import Bindery.Proofs.Template.Source

/-!
# `Proofs.Build.Stages` — what each stage does to the directory of a build

Every stage after the first one, apart from the tools, keeps to the directory of the build, however it
ends. When it ends well, what it has done is a change of the view of that directory in terms of the
sources as they are.

**Contents.**
* `Site.area`, `Format.contentNames` — where a build puts things, as names;
* `Site.source`, `Site.made` — the views that stages read and change;
* `run_render`, `run_scaffold`, `run_copyAssets`, `run_packContainer`.
-/

namespace Bindery

/-- The names on the way to the place for pages and assets. -/
def Format.contentNames (format : Format) : List Raw :=
  if format.isContainer then ["OEBPS"] else []

theorem Format.isName_foreignSheets (format : Format) : ∀ name ∈ format.foreignSheets, Path.IsName name := by
  cases format <;> decide

namespace Build

open Files (Entry Content Ground Paved Below)

namespace Site

variable {site : Site} {shop : Workshop} {files files' : Files} {base : Location}

/-! ## Places -/

/-- The names on the way to the directory of a build. -/
def area (site : Site) : List Raw :=
  ["builds", site.format.name]

/-- What is on the way to the directory of a build is on the way to the project, or is that directory or the
one around it. -/
theorem area_way {location : Location} {name : Raw} (h : location <+: base ++ [("builds" : Raw), name]) :
    location <+: base ∨ location = base ++ [("builds" : Raw)] ∨ location = base ++ [("builds" : Raw), name] := by
  rcases List.prefix_or_prefix_of_prefix h (List.prefix_append base _) with habove | ⟨rest, rfl⟩
  · exact .inl habove
  · have hrest : rest <+: [("builds" : Raw), name] := (List.prefix_append_right_inj _).mp h
    rcases List.prefix_cons_iff.mp hrest with rfl | ⟨more, rfl, hmore⟩
    · rw [List.append_nil]
      exact .inl List.prefix_rfl
    · rcases List.prefix_cons_iff.mp hmore with rfl | ⟨last, rfl, hlast⟩
      · exact .inr (.inl rfl)
      · rw [List.prefix_nil.mp hlast]
        exact .inr (.inr rfl)

theorem isName_formatName (format : Format) : Path.IsName format.name := by
  cases format <;> decide

theorem buildDir_eq (site : Site) : site.buildDir = site.root.below site.area := by
  have hname := isName_formatName site.format
  show site.buildDir = (site.root.join ⟨"builds"⟩).join ⟨site.format.name⟩
  rw [← Path.join_slash (by decide) hname.isAbsolute]
  unfold buildDir
  refine congrArg site.root.join ?_
  cases site.format <;> decide

/-- The names on the way to the directory of a build can be looked up. -/
theorem area_names (site : Site) :
    ∀ name ∈ site.area, Path.IsName name ∧ name.size ≤ Files.longestName := by
  unfold area
  cases site.format <;> decide

theorem isBelow_buildDir (site : Site) : site.root.IsBelow site.area site.buildDir where
  full := List.cons_ne_nil _ _
  named := fun name hmem => (site.area_names name hmem).1
  written := .inl site.buildDir_eq

theorem isBelow_contentDir (site : Site) :
    site.root.IsBelow (site.area ++ site.format.contentNames) site.contentDir := by
  unfold contentDir Format.contentDir Format.contentNames
  split
  · exact site.isBelow_buildDir.join (by decide)
  · rw [List.append_nil]
    exact site.isBelow_buildDir.slash

theorem isBelow_content (site : Site) {name : Raw} (hname : Path.IsName name) :
    site.root.IsBelow (site.area ++ (site.format.contentNames ++ [name])) (site.contentDir.join ⟨name⟩) := by
  rw [← List.append_assoc]
  exact site.isBelow_contentDir.join hname

theorem isBelow_sourceDir (site : Site) : site.root.IsBelow ["book"] site.sourceDir :=
  .of_join (by decide)

/-- The sources are not in the directory of the build. -/
theorem apart_source (site : Site) (names : List Raw) : Apart site.area ("book" :: names) := by
  rintro base rest ⟨name, more, heq⟩
  unfold area at heq
  rw [List.append_assoc] at heq
  have hhead := (List.cons.inj (List.append_cancel_left heq)).1
  exact absurd hhead (by decide)

/-- What is in the source directory, by the names that lead there. -/
def source (files : Files) (base : Location) : View :=
  fun names => files.find? (base ++ (("book" : Raw) :: names))

theorem source_eq (hwithin : Within site.root base site.area files files') :
    source files' base = source files base :=
  funext fun names => (site.apart_source []).find?_eq hwithin names

theorem view_source (files : Files) (base : Location) (names : List Raw) :
    files.view (base ++ (("book" : Raw) :: names)) = fun rest => source files base (names ++ rest) := by
  funext rest
  unfold Files.view source
  rw [List.append_assoc, List.cons_append]

/-- What is in the directory of the build. -/
def made (site : Site) (files : Files) (base : Location) : View :=
  files.view (base ++ site.area)

theorem made_apply (site : Site) (files : Files) (base : Location) (names : List Raw) :
    site.made files base names = files.find? (base ++ (site.area ++ names)) :=
  view_apply files base site.area names

/-! ## Pages -/

theorem isName_output {stage : Stage} {page : Page} (h : stage.page? = some page) :
    Path.IsName page.output.raw := by
  cases stage <;> cases h <;> decide

/-- Writes a page that has been rendered. -/
def writePage (destination : Path) (text : String) : Work Output := do
  if let some parent := destination.parent? then makeDirs parent
  Work.change .writing destination (Files.write destination (.ofText text))
  return { artifact := some destination }

theorem render_run (site : Site) (shop : Workshop) (page : Page) (files : Files) :
    (site.render shop page).run files =
      (match (Template.Engine.below files site.sourceDir shop.importLimit).resolve (site.binding shop)
          page.template with
        | .error fault => Work.fail (.template fault)
        | .ok text => writePage (site.contentDir.join page.output) text).run files := by
  unfold render
  refine (Work.run_get _ files).trans ?_
  dsimp only
  generalize (Template.Engine.below files site.sourceDir shop.importLimit).resolve (site.binding shop)
    page.template = outcome
  cases outcome <;> rfl

theorem run_writePage {name : Raw} {text : String} {result : Except Fault Output}
    (hground : files.Ground site.root base) (hdir : files.find? (base ++ site.area) = some .dir)
    (hname : Path.IsName name)
    (h : (writePage (site.contentDir.join ⟨name⟩) text).run files = (result, files')) :
    Within site.root base site.area files files' ∧ ∀ output, result = .ok output →
      Files.Usable (site.contentDir.join ⟨name⟩) ∧
        (site.made files base site.format.contentNames = some .dir →
          site.made files base (site.format.contentNames ++ [name]) = none →
          site.made files' base = (site.made files base).put (site.format.contentNames ++ [name])
            (.file (.ofText text) false)) := by
  have hbelow := site.isBelow_content hname
  obtain ⟨parent, hparent, hbelow'⟩ :
      ∃ parent, (site.contentDir.join ⟨name⟩).parent? = some parent ∧
        site.root.IsBelow (site.area ++ site.format.contentNames) parent := by
    rw [← List.append_assoc] at hbelow
    exact hbelow.parent? (by simp [area])
  unfold writePage at h
  rw [hparent] at h
  have h : (do
      makeDirs parent
      Work.change .writing (site.contentDir.join ⟨name⟩)
        (Files.write (site.contentDir.join ⟨name⟩) (.ofText text))
      return { artifact := some (site.contentDir.join ⟨name⟩) } : Work Output).run files =
      (result, files') := h
  rcases Work.run_bind_cases h with ⟨fault, hmake, rfl⟩ | ⟨done, files₁, hmake, hrest⟩
  · exact ⟨(run_makeDirs hground hdir hbelow' hmake).1, nofun⟩
  obtain ⟨hwithin, hpaved, -⟩ := run_makeDirs hground hdir hbelow' hmake
  have hfull : site.format.contentNames ++ [name] ≠ [] := by simp
  rcases Work.run_bind_cases hrest with ⟨fault, hwrite, rfl⟩ | ⟨done', files₂, hwrite, hreturn⟩
  · exact ⟨hwithin.trans (run_write hwithin.ground hwithin.dir hbelow hfull hwrite).1, nofun⟩
  obtain ⟨hwithin', hput⟩ := run_write hwithin.ground hwithin.dir hbelow hfull hwrite
  obtain ⟨-, rfl⟩ := Work.run_pure hreturn
  refine ⟨hwithin.trans hwithin', fun output _ => ⟨usable_of_run_write hwrite, fun hthere hfree => ?_⟩⟩
  rw [made_apply] at hthere hfree
  -- the directory of the page was there already, so that making it has changed nothing
  have hsame : site.made files₁ base = site.made files base :=
    view_paved_there hground.proper hpaved hthere
  have hfree' : files₁.find? (base ++ (site.area ++ (site.format.contentNames ++ [name]))) = none := by
    rw [← hfree, ← made_apply, ← made_apply, hsame]
  have hput := hput rfl
  rw [Files.executableAt_none hfree'] at hput
  rw [← hsame, hput]
  exact view_put hfull

/-- A page is rendered from the sources as they are. -/
theorem run_render {page : Page} {result : Except Fault Output}
    (hground : files.Ground site.root base) (hdir : files.find? (base ++ site.area) = some .dir)
    (hname : Path.IsName page.output.raw) (h : (site.render shop page).run files = (result, files')) :
    Within site.root base site.area files files' ∧ ∀ output, result = .ok output →
      ∃ text, (Template.Engine.below files site.sourceDir shop.importLimit).resolve (site.binding shop)
          page.template = .ok text ∧
        Files.Usable (site.contentDir.join page.output) ∧
        (site.made files base site.format.contentNames = some .dir →
          site.made files base (site.format.contentNames ++ [page.output.raw]) = none →
          site.made files' base = (site.made files base).put
            (site.format.contentNames ++ [page.output.raw]) (.file (.ofText text) false)) := by
  rw [render_run] at h
  split at h
  · obtain ⟨rfl, rfl⟩ := Work.run_fail h
    exact ⟨.refl hground hdir, nofun⟩
  · next text hresolve =>
    obtain ⟨hwithin, hmade⟩ := run_writePage hground hdir hname h
    exact ⟨hwithin, fun output hok => ⟨text, hresolve, hmade output hok⟩⟩

/-! ## The container -/

theorem run_scaffold {result : Except Fault Unit}
    (hground : files.Ground site.root base) (hdir : files.find? (base ++ site.area) = some .dir)
    (h : (site.scaffold).run files = (result, files')) :
    Within site.root base site.area files files' ∧ (result = .ok () → site.format.isContainer = true →
      ∃ content executable,
        source files base ["epub", mimetype] = some (.file content executable) ∧
        site.made files' base =
          (((site.made files base).lay ["META-INF"] fun rest =>
            source files base ("epub" :: "META-INF" :: rest)).put ["OEBPS"] .dir).put [(mimetype : Raw)]
              (.file content executable)) := by
  have hpackaging : site.root.IsBelow ["book", "epub"] (site.sourceDir.join ⟨"epub"⟩) :=
    site.isBelow_sourceDir.join (by decide)
  have hmeta : site.root.IsBelow ["book", "epub", "META-INF"]
      ((site.sourceDir.join ⟨"epub"⟩).join ⟨"META-INF"⟩) := hpackaging.join (by decide)
  have htype : site.root.IsBelow ["book", "epub", mimetype]
      ((site.sourceDir.join ⟨"epub"⟩).join ⟨mimetype⟩) := hpackaging.join (by decide)
  have hmeta' : site.root.IsBelow (site.area ++ [("META-INF" : Raw)]) (site.buildDir.join ⟨"META-INF"⟩) :=
    site.isBelow_buildDir.join (by decide)
  have htype' : site.root.IsBelow (site.area ++ [(mimetype : Raw)]) (site.buildDir.join ⟨mimetype⟩) :=
    site.isBelow_buildDir.join (by decide)
  rcases Work.run_bind_cases h with ⟨fault, hcopy, rfl⟩ | ⟨count, files₁, hcopy, hrest⟩
  · exact ⟨(run_copyDir hground hdir hmeta hmeta' (by simp) (site.apart_source _) hcopy).1, nofun⟩
  obtain ⟨hwithin, hcopied⟩ := run_copyDir hground hdir hmeta hmeta' (by simp) (site.apart_source _) hcopy
  rcases Work.run_bind_cases hrest with ⟨fault, hmake, rfl⟩ | ⟨done, files₂, hmake, hfile⟩
  · exact ⟨hwithin.trans (run_makeDirs hwithin.ground hwithin.dir site.isBelow_contentDir hmake).1, nofun⟩
  obtain ⟨hwithin', hpaved, hdone⟩ := run_makeDirs hwithin.ground hwithin.dir site.isBelow_contentDir hmake
  obtain ⟨hwithin'', hput⟩ :=
    run_copyFile hwithin'.ground hwithin'.dir htype htype' (by simp) (site.apart_source _) hfile
  refine ⟨hwithin.trans (hwithin'.trans hwithin''), fun hok hcontainer => ?_⟩
  obtain ⟨-, content, executable, hfind, hput⟩ := hput hok
  have hnames : site.format.contentNames = [("OEBPS" : Raw)] := if_pos hcontainer
  rw [hnames] at hpaved hdone
  -- each step is told as a change of what was made, and the three are put together
  have hcopied' := view_copied hground.proper (by simpa using hdir) (hcopied count rfl).2
  have hpaved' := view_paved hwithin.ground.proper hpaved (by simpa using hwithin.dir) (hdone rfl)
  refine ⟨content, executable, ?_, ?_⟩
  · rw [← source_eq (hwithin.trans hwithin')]
    exact hfind
  · rw [hput]
    refine (view_put (by simp)).trans ?_
    rw [hpaved', hcopied', view_source]
    rfl

/-- The assets, less the style sheets for other formats. -/
theorem run_copyAssets {result : Except Fault Output}
    (hground : files.Ground site.root base) (hdir : files.find? (base ++ site.area) = some .dir)
    (h : (site.copyAssets).run files = (result, files')) :
    Within site.root base site.area files files' ∧ ∀ output, result = .ok output →
      site.made files base site.format.contentNames = some .dir →
      site.made files' base =
        ((site.made files base).lay (site.format.contentNames ++ [("assets" : Raw)]) fun rest =>
          source files base ("assets" :: rest)).drop
            (site.format.foreignSheets.map fun name =>
              site.format.contentNames ++ [("assets" : Raw), "css", Raw.ofText name]) := by
  have hassets : site.root.IsBelow ["book", "assets"] (site.sourceDir.join ⟨"assets"⟩) :=
    site.isBelow_sourceDir.join (by decide)
  have hassets' := site.isBelow_content (show Path.IsName "assets" by decide)
  have hcss : site.root.IsBelow (site.area ++ (site.format.contentNames ++ [("assets" : Raw), "css"]))
      ((site.contentDir.join ⟨"assets"⟩).join ⟨"css"⟩) := by
    have hjoin := hassets'.join (show Path.IsName "css" by decide)
    simpa using hjoin
  rcases Work.run_bind_cases h with ⟨fault, hcopy, rfl⟩ | ⟨count, files₁, hcopy, hrest⟩
  · exact ⟨(run_copyDir hground hdir hassets hassets' (by simp) (site.apart_source _) hcopy).1, nofun⟩
  obtain ⟨hwithin, hcopied⟩ := run_copyDir hground hdir hassets hassets' (by simp) (site.apart_source _) hcopy
  rcases Work.run_bind_cases hrest with ⟨fault, hprune, rfl⟩ | ⟨missing, files₂, hprune, hreturn⟩
  · exact ⟨hwithin.trans (run_prune hwithin.ground hwithin.dir hcss site.format.isName_foreignSheets hprune).1, nofun⟩
  obtain ⟨hwithin', hpruned⟩ := run_prune hwithin.ground hwithin.dir hcss site.format.isName_foreignSheets hprune
  obtain ⟨-, rfl⟩ := Work.run_pure hreturn
  refine ⟨hwithin.trans hwithin', fun output _ hthere => ?_⟩
  rw [made_apply] at hthere
  have hcopied' := view_copied hground.proper (by simpa using hthere) (hcopied count rfl).2
  refine (view_pruned (hpruned missing rfl).1).trans ?_
  rw [hcopied', view_source]
  unfold made
  simp only [List.append_assoc, List.cons_append, List.nil_append]

theorem archive_eq {path : Path} (h : site.archive = .ok path) : path = site.buildDir.join ⟨"book.epub"⟩ := by
  unfold archive Format.archive? at h
  split at h
  · next name hname =>
    split at hname
    · cases hname
      exact (Except.ok.inj h).symm
    · cases hname
  · cases h

/-- The container, packed. -/
theorem run_packContainer {result : Except Fault Output}
    (hground : files.Ground site.root base) (hdir : files.find? (base ++ site.area) = some .dir)
    (h : (site.packContainer).run files = (result, files')) :
    Within site.root base site.area files files' ∧ ∀ output, result = .ok output →
      site.made files base ["book.epub"] = none →
      ∃ type executable listed, site.made files base [(mimetype : Raw)] = some (.file type executable) ∧
        Complete (site.made files base) "book.epub" listed ∧
        site.made files' base = (site.made files base).put ["book.epub"]
          (.file (.archive (⟨mimetype, true, type.toBytes⟩ ::
            listed.map fun (names, content) => packedAs names content)) false) := by
  have hepub : Path.IsName "book.epub" := by decide
  unfold packContainer at h
  rcases Work.run_bind_cases h with ⟨fault, hlift, rfl⟩ | ⟨archive, files₁, hlift, hrest⟩
  · obtain ⟨-, rfl⟩ := Work.run_lift hlift
    exact ⟨.refl hground hdir, nofun⟩
  obtain ⟨harchive, rfl⟩ := Work.run_lift hlift
  rw [archive_eq harchive.symm] at hrest
  rcases Work.run_bind_cases hrest with ⟨fault, hpack, rfl⟩ | ⟨done, files₂, hpack, hreturn⟩
  · exact ⟨(run_pack hground hdir site.isBelow_buildDir hepub hpack).1, nofun⟩
  obtain ⟨hwithin, harchived⟩ := run_pack hground hdir site.isBelow_buildDir hepub hpack
  obtain ⟨-, rfl⟩ := Work.run_pure hreturn
  refine ⟨hwithin, fun output _ hfree => ?_⟩
  obtain ⟨type, executable, htype, ⟨listed, hcomplete, hentry⟩, hkept⟩ := harchived rfl
  rw [made_apply] at hfree
  rw [List.append_assoc, Files.executableAt_none hfree] at hentry
  refine ⟨type, executable, listed, ?_, hcomplete, view_entry hentry fun location hother => ?_⟩
  · rw [made_apply, htype]
  · exact hkept location (by rwa [List.append_assoc])

end Site

end Build

end Bindery
