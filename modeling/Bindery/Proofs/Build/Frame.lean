import Bindery.Project
import Bindery.Proofs.Build.Keeping

/-!
# `Proofs.Build.Frame` — builds touch only their own directory

A project may hold links anywhere, if only the directory of the build and the one around it are none. The
first stage takes away whatever is in the directory of the build, links as well, entry by entry, and follows
none of them; that holds for every entry, so it holds wherever the stage ends (`run_clean_nest`). From then on
there is no link below that directory for a stage to write through, so that the stages before the tools keep to
it (`Site.keeps_perform`). The tools come last; what they are trusted with is that directory, on the trees that
they come upon (`Site.ToolsConfined`).

**Contents.**
* `Framed`, a preorder on trees — what differs is below the directory of a build, or whether that is there;
* `Fresh` and `run_clean_nest` — the first stage;
* `Site.Met`, `Site.ToolsConfined` — what tools come upon, and that they keep to the directory;
* `framed_run` — every run, whatever becomes of it;
* `run_idle` — runs that do not come to their first stage;
* `Project.builds_framed` — builds by name, of a project and at a root.
-/

namespace Bindery

namespace Build

open Files (Entry Ground Nest Opened Below Linkless Thinned)

variable {site : Site} {shop : Workshop} {files files' : Files} {base location : Location} {format : Format}
  {stage : Stage} {stages : List Stage}

/-- Two trees that differ at most in what is below the directory of a build, and in whether that directory and
the one around it are there. -/
structure Framed (base : Location) (format : Format) (files files' : Files) : Prop where
  home : files'.home = files.home
  same : ∀ location, ¬Below (base ++ [("builds" : Raw), format.name]) location →
    files'.find? location = files.find? location ∨
      (location = base ++ [("builds" : Raw)] ∨ location = base ++ [("builds" : Raw), format.name]) ∧
        (files.find? location = none ∨ files.find? location = some .dir) ∧
        (files'.find? location = none ∨ files'.find? location = some .dir)

namespace Framed

theorem refl (files : Files) : Framed base format files files :=
  ⟨rfl, fun _ _ => .inl rfl⟩

theorem trans {files'' : Files} (h : Framed base format files files')
    (h' : Framed base format files' files'') : Framed base format files files'' where
  home := h'.home.trans h.home
  same := by
    intro location hout
    rcases h.same location hout with hsame | ⟨hplace, hbefore, hafter⟩
    · rw [← hsame]
      exact h'.same location hout
    · rcases h'.same location hout with hsame' | ⟨-, -, hafter'⟩
      · rw [hsame']
        exact .inr ⟨hplace, hbefore, hafter⟩
      · exact .inr ⟨hplace, hbefore, hafter'⟩

theorem of_within (h : Within site.buildDir (base ++ site.area) [] files files') :
    Framed base site.format files files' := by
  refine ⟨h.home, fun location hout => .inl (h.same location ?_)⟩
  rwa [List.append_nil]

theorem put {place : Location} (hbelow : Below (base ++ [("builds" : Raw), format.name]) place) (entry : Entry)
    (files : Files) : Framed base format files (files.put place entry) := by
  refine ⟨rfl, fun location hout => .inl (Files.find?_put_of_ne ?_ _ _)⟩
  rintro rfl
  exact hout hbelow

/-- What is missing on the way to the directory of the build is that directory or the one around it. -/
theorem of_opened (hproper : files.Proper) (hdir : files.find? base = some .dir)
    (h : Opened (base ++ [("builds" : Raw), format.name]) files files') : Framed base format files files' := by
  refine ⟨h.home, fun location hout => (h.found location).imp id ?_⟩
  rintro ⟨hnone, hmade, hway⟩
  refine ⟨(Site.area_way hway).resolve_left fun habove => ?_, .inl hnone, .inr hmade⟩
  rw [hproper.dir_of_prefix habove hdir] at hnone
  cases hnone

end Framed

/-! ## The first stage -/

/-- The directory of the build is there, with nothing in it but directories. The root leads nowhere else than
before, if it still leads anywhere. -/
structure Fresh (site : Site) (base : Location) (files : Files) : Prop where
  proper : files.Proper
  dir : files.find? (base ++ site.area) = some .dir
  hollow : ∀ location, Below (base ++ site.area) location →
    files.find? location = none ∨ files.find? location = some .dir
  leads : ∀ location, files.Leads site.root location → location = base

namespace Fresh

/-- There is no link to write through. -/
theorem plain (h : Fresh site base files) : Linkless files (base ++ site.area) := by
  intro rest target hfind
  by_cases hend : rest = []
  · rw [hend, List.append_nil, h.dir] at hfind
    cases hfind
  · have hbelow : Below (base ++ site.area) (base ++ site.area ++ rest) := by
      rw [List.append_assoc]
      exact below_append hend
    rcases h.hollow _ hbelow with hnone | hdir
    · rw [hnone] at hfind
      cases hfind
    · rw [hdir] at hfind
      cases hfind

theorem ground (h : Fresh site base files) (hleads : files.Leads site.root location) :
    files.Ground site.buildDir (base ++ site.area) := by
  have hbase : files.Leads site.root base := h.leads _ hleads ▸ hleads
  have harea : base ++ site.area = base ++ [("builds" : Raw)] ++ [site.format.name] :=
    Nest.inner_eq base "builds" site.format.name
  have hdir := h.dir
  have hplain := h.plain
  rw [harea] at hdir hplain ⊢
  have hshort : (Raw.ofText site.format.name).size ≤ Files.longestName := by
    cases site.format <;> decide
  have houter := hbase.join (show Path.IsName "builds" by decide) (by decide) (h.proper.closed _ _ _ hdir)
  rw [Site.buildDir_join]
  exact ⟨h.proper, houter.join (Site.isName_formatName _) hshort hdir, hdir, hplain⟩

end Fresh

/-- The directory was there, and has been emptied. -/
theorem Fresh.of_swept (hnest : files.Nest site.root base "builds" site.format.name)
    (hdir : files.find? (base ++ site.area) = some .dir)
    (hthinned : Thinned (Below (base ++ site.area)) files files')
    (hswept : Swept site.buildDir (base ++ site.area) files') : Fresh site base files' where
  proper := hthinned.proper
  dir := by rw [hthinned.kept not_below_self, hdir]
  hollow := hswept.hollow
  leads := fun _ hleads => (hthinned.leads hleads).unique hnest.leads

/-- There was nothing in the place of the directory, and it has been made. -/
theorem Fresh.of_opened (hnest : files.Nest site.root base "builds" site.format.name)
    (hopened : Opened (base ++ site.area) files files') (hnone : files.find? (base ++ site.area) = none)
    (hdir : files'.find? (base ++ site.area) = some .dir) : Fresh site base files' where
  proper := hopened.proper
  dir := hdir
  hollow := by
    intro location hbelow
    rcases hopened.found location with hsame | ⟨-, hmade, -⟩
    · exact .inl (hsame.trans (hnest.proper.none_of_below hbelow hnone))
    · exact .inr hmade
  leads := fun location hleads => hleads.unique (hnest.change hopened).leads

/-- What has been taken away was below the directory of the build. -/
theorem Framed.of_thinned (h : Thinned (Below (base ++ site.area)) files files') :
    Framed base site.format files files' :=
  ⟨h.home, fun _ hout => .inl (h.kept hout)⟩

/-- **Emptying the directory of a build follows no link,** neither when it is there nor when it is made, and however
many of its entries have been taken away. -/
theorem run_emptyDir_nest {result : Except Fault Unit} {order : Files.Order}
    (hnest : files.Nest site.root base "builds" site.format.name)
    (h : (emptyDir site.buildDir order).run files = (result, files')) :
    Framed base site.format files files' ∧ (result = .ok () → Fresh site base files') := by
  have hbuilds : Path.IsName "builds" := by decide
  have hformat := Site.isName_formatName site.format
  rcases emptyDir_cases h with ⟨place, hspot, hsteps⟩ | ⟨rfl, hfails⟩ | ⟨hhas, outcome, hmade, houtcome⟩
  · obtain ⟨hthinned, hswept⟩ := run_sweep hnest.proper (Files.leads_of_spot hspot) hsteps
    rw [Site.buildDir_join] at hspot
    obtain ⟨rfl, hfind⟩ := Ground.find?_of_spotAt (hnest.spot_eq hbuilds hformat hspot).2
    exact ⟨.of_thinned hthinned, fun hok => .of_swept hnest hfind hthinned (hswept hok)⟩
  · exact ⟨.refl _, fun hok => absurd hok hfails⟩
  · rw [Site.buildDir_join] at hmade
    obtain ⟨hopened, hdone⟩ := hnest.makeDirs_eq hbuilds hformat (by decide) hmade
    refine ⟨.of_opened hnest.proper hnest.dir hopened, fun hok => ?_⟩
    obtain ⟨hdir, hthere | hnone⟩ := hdone (houtcome hok)
    · -- what a path leads to is there
      rw [← Site.buildDir_join] at hthere
      unfold Files.has at hhas
      rw [eq_of_beq hthere] at hhas
      cases hhas
    · exact .of_opened hnest hopened hnone hdir

theorem run_clean_nest {result : Except Fault Output}
    (hnest : files.Nest site.root base "builds" site.format.name)
    (h : (site.perform shop .clean).run files = (result, files')) :
    Framed base site.format files files' ∧ ∀ output, result = .ok output → Fresh site base files' := by
  rw [Site.perform_clean] at h
  rcases Work.run_bind_cases h with ⟨fault, hempty, rfl⟩ | ⟨done, files₁, hempty, hreturn⟩
  · exact ⟨(run_emptyDir_nest hnest hempty).1, nofun⟩
  · obtain ⟨-, rfl⟩ := Work.run_pure hreturn
    obtain ⟨hframed, hfresh⟩ := run_emptyDir_nest hnest hempty
    exact ⟨hframed, fun _ _ => hfresh rfl⟩

/-! ## Tools -/

/-- The trees that a tool can come upon in a build that starts with `files`: the directory of the build is
there, without links in it, and all else is as it was; or other calls of the build have been at work. -/
inductive Site.Met (site : Site) (shop : Workshop) (base : Location) (files : Files) : Files → Prop where
  | first {tree : Files} (hproper : tree.Proper) (hdir : tree.find? (base ++ site.area) = some .dir)
      (hplain : Linkless tree (base ++ site.area)) (hframed : Framed base site.format files tree) :
      Met site shop base files tree
  | next {tree : Files} {stage : Stage} {call : Tool.Call} (hmet : Met site shop base files tree)
      (hcall : site.call? shop.platform stage = some (.ok call)) :
      Met site shop base files (shop.runner call tree).2

/-- What a build that starts with `files` has a tool do is confined to the directory of the build. -/
def Site.ToolsConfined (site : Site) (shop : Workshop) (base : Location) (files : Files) : Prop :=
  ∀ stage call tree, site.call? shop.platform stage = some (.ok call) → site.Met shop base files tree →
    Framed base site.format tree (shop.runner call tree).2

theorem framed_tools {origin : Files} (hconfined : site.ToolsConfined shop base origin)
    (hstages : ∀ stage ∈ stages, stage.isTool = true) (hmet : site.Met shop base origin files) :
    Framed base site.format files (runStages site shop stages files).files := by
  have hstep : ∀ stage ∈ stages, ∀ files result files', site.Met shop base origin files →
      (site.perform shop stage).run files = (result, files') →
      Framed base site.format files files' ∧ site.Met shop base origin files' := by
    intro stage hmem files result files' hmet hperform
    rcases Site.run_tool (hstages _ hmem) hperform with ⟨-, rfl⟩ | ⟨call, hcall, rfl, -⟩
    · exact ⟨.refl _, hmet⟩
    · exact ⟨hconfined stage call files hcall hmet, hmet.next hcall⟩
  rw [← List.append_nil stages]
  exact runStages_files _ (fun _ _ => .refl _) (fun _ _ _ => .trans) hstep (fun _ _ => .refl _) hmet

/-! ## Runs -/

/-- Stages that keep to the directory, and then tools. -/
theorem framed_work {origin : Files} {tools : List Stage} (hconfined : site.ToolsConfined shop base origin)
    (hstages : ∀ stage ∈ stages, stage ∈ site.format.work) (htools : ∀ stage ∈ tools, stage.isTool = true)
    (horigin : Framed base site.format origin files)
    (hground : files.Ground site.buildDir (base ++ site.area)) :
    Framed base site.format files (runStages site shop (stages ++ tools) files).files := by
  refine runStages_files
    (fun files => Framed base site.format origin files ∧ files.Ground site.buildDir (base ++ site.area))
    (fun _ _ => .refl _) (fun _ _ _ => .trans) ?_ ?_ ⟨horigin, hground⟩
  · rintro stage hmem files result files' ⟨horigin, hground⟩ hperform
    have hwithin := Site.keeps_perform (hstages _ hmem) _ _ _ hground hperform
    have hstep : Framed base site.format files files' := .of_within hwithin
    exact ⟨hstep, horigin.trans hstep, hwithin.ground⟩
  · rintro files ⟨horigin, hground⟩
    exact framed_tools hconfined htools (.first hground.proper hground.dir hground.plain horigin)

/-- The stages after the first one. -/
theorem framed_fresh {origin : Files} (hconfined : site.ToolsConfined shop base origin)
    (horigin : Framed base site.format origin files) (hfresh : Fresh site base files) :
    Framed base site.format files (runStages site shop (site.format.work ++ site.format.tools) files).files := by
  by_cases hleads : ∃ location, files.Leads site.root location
  · obtain ⟨location, hleads⟩ := hleads
    exact framed_work hconfined (fun _ hmem => hmem) (fun _ hmem => (List.mem_filter.mp hmem).2) horigin
      (hfresh.ground hleads)
  · rw [runStages_lost fun location h => hleads ⟨location, h⟩]
    exact .refl files

/-- **A run touches nothing but the directory of its build,** however it ends. -/
theorem framed_run (format : Format) (hnest : files.Nest site.root base "builds" site.format.name)
    (hconfined : site.ToolsConfined shop base files) :
    Framed base site.format files (run format site shop files).files := by
  unfold run
  split
  next hformat =>
    subst hformat
    rw [Format.stages_eq]
    refine runStages_files_cons _ (.refl files) fun result files' hperform => ?_
    obtain ⟨hframed, hfresh⟩ := run_clean_nest hnest hperform
    exact ⟨hframed, fun output hsettle =>
      hframed.trans (framed_fresh hconfined hframed (hfresh output (settle_eq_ok hsettle rfl)))⟩
  next => exact .refl files

/-- **A run that does not come to its first stage does nothing:** it is the same run whatever the tools would
do, it calls none of them, and it leaves the tree as it was. -/
theorem run_idle (hidle : format ≠ site.format ∨ shop.cancelled .clean = true) (runner : Runner) :
    run format site { shop with runner := runner } files = run format site shop files ∧
      (run format site shop files).calls = [] ∧ (run format site shop files).files = files := by
  by_cases hformat : format = site.format
  · have hcancelled : shop.cancelled .clean = true := hidle.resolve_left (fun h => h hformat)
    have hstopped (runner : Runner) : run format site { shop with runner := runner } files =
        .stopped ⟨.clean, .cancelled⟩ files := by
      unfold run
      rw [if_pos hformat, Format.stages_eq]
      exact if_pos hcancelled
    rw [hstopped, show run format site shop files = _ from hstopped shop.runner]
    exact ⟨rfl, rfl, rfl⟩
  · unfold run
    rw [if_neg hformat, if_neg hformat]
    exact ⟨rfl, rfl, rfl⟩

end Build

/-! ## Builds -/

namespace Project

open Files (Entry Nest)
open Build (Framed Site Workshop Runner pamphlet pamphletSite pamphletShop pamphletRunner)

variable {project : Project} {format : Format} {name : String}

theorem buildNamed_eq (h : Format.find? name = some format) (shop : Workshop) (files : Files) :
    project.buildNamed name shop files =
      project.finish format (Build.run format (project.site format) shop files) := by
  unfold buildNamed
  rw [h]
  rfl

theorem build_eq {root : Path} {fresh : String} {files : Files} (h : Format.find? name = some format)
    (hload : load files root fresh = .ok project) (shop : Book → Workshop) :
    build root name fresh shop files = project.buildNamed name (shop project.book) files := by
  rw [buildNamed_eq h]
  unfold build
  rw [h]
  dsimp only
  rw [hload]
  rfl

/-- A project that is loaded has the root that it was looked for at. -/
theorem root_of_load {root : Path} {fresh : String} {files : Files} (h : load files root fresh = .ok project) :
    project.root = root := by
  unfold load at h
  cases hbook : Book.load files root fresh with
  | error fault =>
    rw [hbook] at h
    cases h
  | ok book =>
    rw [hbook] at h
    cases h
    rfl

/-- A build that does not get as far as a run changes nothing, whatever the tools would do. -/
theorem build_unstarted {root : Path} {fresh : String} {files : Files}
    (h : Format.find? name = none ∨ ∃ fault, load files root fresh = .error fault) :
    ∃ fault, ∀ shop, build root name fresh shop files = (.error fault, files) := by
  unfold build
  cases hname : Format.find? name with
  | none => exact ⟨.unknownFormat name, fun shop => rfl⟩
  | some format =>
    rcases h with hnone | ⟨fault, hload⟩
    · rw [hname] at hnone
      cases hnone
    · refine ⟨.book fault, fun shop => ?_⟩
      dsimp only
      rw [hload]

theorem buildNamed_framed {shop : Workshop} {files : Files} {base : Location}
    (h : Format.find? name = some format) (hnest : files.Nest project.root base "builds" format.name)
    (hconfined : (project.site format).ToolsConfined shop base files) :
    Framed base format files (project.buildNamed name shop files).2 := by
  rw [buildNamed_eq h]
  have hnest : files.Nest (project.site format).root base "builds" (project.site format).format.name := hnest
  exact Build.framed_run format hnest hconfined

theorem buildNamed_idle {shop : Workshop} {files : Files} (h : Format.find? name = some format)
    (hcancelled : shop.cancelled .clean = true) (runner : Runner) :
    project.buildNamed name { shop with runner := runner } files = project.buildNamed name shop files ∧
      (project.buildNamed name shop files).2 = files := by
  obtain ⟨hsame, -, hfiles⟩ :
      Build.run format (project.site format) { shop with runner := runner } files =
          Build.run format (project.site format) shop files ∧
        (Build.run format (project.site format) shop files).calls = [] ∧
        (Build.run format (project.site format) shop files).files = files :=
    Build.run_idle (.inr hcancelled) runner
  rw [buildNamed_eq h, buildNamed_eq h, hsame]
  exact ⟨rfl, hfiles⟩

/-- **Builds touch only their own directory.** Wherever there are links in a project, if only the directory of
the build and the one around it are none: what a build leaves differs from what it found only below that
directory, and in whether the two are there, whatever the tools do in it and however the build ends. A link in
that directory goes, and what it led to stays. A build whose format is unknown or not that of its context, whose
configuration is not loaded, or which is cancelled from the start changes nothing and calls no tool. -/
theorem builds_framed (base : Location) (files : Files) :
    (∀ (format : Format) (site : Site) (shop : Workshop),
      (files.Nest site.root base "builds" site.format.name → site.ToolsConfined shop base files →
        Framed base site.format files (Build.run format site shop files).files) ∧
      (format ≠ site.format ∨ shop.cancelled .clean = true → ∀ runner,
        Build.run format site { shop with runner := runner } files = Build.run format site shop files ∧
          (Build.run format site shop files).calls = [] ∧ (Build.run format site shop files).files = files)) ∧
    (∀ (project : Project) (name : String),
      (Format.find? name = none → ∀ shop,
        project.buildNamed name shop files = (.error (.unknownFormat name), files)) ∧
      ∀ format shop, Format.find? name = some format →
        (files.Nest project.root base "builds" format.name → (project.site format).ToolsConfined shop base files →
          Framed base format files (project.buildNamed name shop files).2) ∧
        (shop.cancelled .clean = true → ∀ runner,
          project.buildNamed name { shop with runner := runner } files = project.buildNamed name shop files ∧
            (project.buildNamed name shop files).2 = files)) ∧
    ∀ (root : Path) (name fresh : String),
      (Format.find? name = none ∨ (∃ fault, load files root fresh = .error fault) →
        ∃ fault, ∀ shop, build root name fresh shop files = (.error fault, files)) ∧
      ∀ format project shop, Format.find? name = some format → load files root fresh = .ok project →
        (files.Nest root base "builds" format.name →
          (project.site format).ToolsConfined (shop project.book) base files →
          Framed base format files (build root name fresh shop files).2) ∧
        ((shop project.book).cancelled .clean = true → ∀ runner,
          build root name fresh (fun book => { shop book with runner := runner }) files =
              build root name fresh shop files ∧
            (build root name fresh shop files).2 = files) := by
  refine ⟨fun format site shop => ⟨Build.framed_run format, Build.run_idle⟩, fun project name => ⟨?_, ?_⟩,
    fun root name fresh => ⟨build_unstarted, ?_⟩⟩
  · intro hname shop
    unfold buildNamed
    rw [hname]
  · exact fun format shop hname => ⟨buildNamed_framed hname, buildNamed_idle hname⟩
  · intro format project shop hname hload
    refine ⟨fun hnest hconfined => ?_, fun hcancelled runner => ?_⟩
    · rw [build_eq hname hload]
      exact buildNamed_framed hname (root_of_load hload ▸ hnest) hconfined
    · rw [build_eq hname hload, build_eq hname hload]
      exact buildNamed_idle hname hcancelled runner

/-- What an old build of the pamphlet has left, with links to its sources, beside its configuration. In place of
the directory of another format there is a link, too. -/
def pamphletLinked : Dict Location Entry :=
  [(["p", "builds"], .dir), (["p", "builds", "html"], .link ⟨"../book"⟩), (["p", "builds", "pdf"], .dir),
   (["p", "builds", "pdf", "assets"], .link ⟨"../../book/assets"⟩),
   (["p", "builds", "pdf", "book.html"], .link ⟨"../../book/book.html.erb"⟩),
   (["p", "config"], .dir), (["p", "config", "book.yml"], .file (.ofText "title: P\nauthor: A\n") false)]

theorem nest_pamphletLinked : (pamphlet pamphletLinked).Nest ⟨"p"⟩ ["p"] "builds" Format.pdf.name where
  proper := .of_entries (by unfold Dict.Sorted; decide +kernel) (by decide +kernel) (by decide +kernel)
  leads := by unfold Files.Leads; decide +kernel
  dir := by decide +kernel
  outer := by
    have hdir : (pamphlet pamphletLinked).find? ["p", "builds"] = some .dir := by decide +kernel
    intro target hlink
    cases hdir.symm.trans hlink
  inner := by
    have hdir : (pamphlet pamphletLinked).find? ["p", "builds", "pdf"] = some .dir := by decide +kernel
    intro target hlink
    cases hdir.symm.trans hlink

theorem toolsConfined_pamphlet {site : Site} (hformat : site.format = .pdf) (files : Files) :
    site.ToolsConfined pamphletShop ["p"] files := by
  intro stage call tree _ _
  rw [hformat]
  show Framed ["p"] .pdf tree (pamphletRunner call tree).2
  unfold pamphletRunner
  split
  · exact .put ⟨"book.pdf", [], rfl⟩ _ _
  · exact .refl tree

/-- The pamphlet is printed, and what the links led to is as it was. With a name that is no format's, in the
context of another format, or cancelled from the start, nothing happens to it. -/
theorem builds_framed_pamphlet :
    Framed ["p"] .pdf (pamphlet pamphletLinked)
        (Build.run .pdf pamphletSite pamphletShop (pamphlet pamphletLinked)).files ∧
      (Build.run .html pamphletSite pamphletShop (pamphlet pamphletLinked)).calls = [] ∧
      (∃ project, load (pamphlet pamphletLinked) ⟨"p"⟩ "I" = .ok project ∧
        Framed ["p"] .pdf (pamphlet pamphletLinked)
          (project.buildNamed "pdf" pamphletShop (pamphlet pamphletLinked)).2 ∧
        Framed ["p"] .pdf (pamphlet pamphletLinked)
          (build ⟨"p"⟩ "p" "I" (fun _ => pamphletShop) (pamphlet pamphletLinked)).2 ∧
        (project.buildNamed "pdf" { pamphletShop with cancelled := fun _ => true } (pamphlet pamphletLinked)).2 =
          pamphlet pamphletLinked ∧
        (build ⟨"p"⟩ "p" "I" (fun _ => { pamphletShop with cancelled := fun _ => true })
          (pamphlet pamphletLinked)).2 = pamphlet pamphletLinked) ∧
      ∃ fault, ∀ shop, build ⟨"p"⟩ "azw3" "I" shop (pamphlet pamphletLinked) =
        (.error fault, pamphlet pamphletLinked) := by
  obtain ⟨hrun, hnamed, hbuild⟩ := builds_framed ["p"] (pamphlet pamphletLinked)
  obtain ⟨project, hload⟩ : ∃ project, load (pamphlet pamphletLinked) ⟨"p"⟩ "I" = .ok project := by
    have hloads : (load (pamphlet pamphletLinked) ⟨"p"⟩ "I").toOption.isSome = true := by decide +kernel
    cases hload : load (pamphlet pamphletLinked) ⟨"p"⟩ "I" with
    | ok project => exact ⟨project, rfl⟩
    | error fault =>
      rw [hload] at hloads
      cases hloads
  have hroot := root_of_load hload
  have hpdf : Format.find? "pdf" = some .pdf := by decide
  have halias : Format.find? "p" = some .pdf := by decide
  refine ⟨(hrun .pdf pamphletSite pamphletShop).1 nest_pamphletLinked (toolsConfined_pamphlet rfl _),
    ((hrun .html pamphletSite pamphletShop).2 (.inl (by decide)) pamphletRunner).2.1,
    ⟨project, hload, ?_, ?_, ?_, ?_⟩, (hbuild ⟨"p"⟩ "azw3" "I").1 (.inl (by decide))⟩
  · refine ((hnamed project "pdf").2 .pdf pamphletShop hpdf).1 ?_ (toolsConfined_pamphlet rfl _)
    rw [hroot]
    exact nest_pamphletLinked
  · exact ((hbuild ⟨"p"⟩ "p" "I").2 .pdf project _ halias hload).1 nest_pamphletLinked
      (toolsConfined_pamphlet rfl _)
  · exact (((hnamed project "pdf").2 .pdf _ hpdf).2 rfl pamphletRunner).2
  · exact (((hbuild ⟨"p"⟩ "p" "I").2 .pdf project _ halias hload).2 rfl pamphletRunner).2

end Project

end Bindery
