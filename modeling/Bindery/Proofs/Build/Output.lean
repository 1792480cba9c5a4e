import Bindery.Proofs.Build.Layout
import Bindery.Proofs.Build.Run

/-!
# `Proofs.Build.Output` — what a build has made

A build that ends well has gone through all of its stages. The directory of the build is empty after the
first one, each later stage changes what is in it in a way that does not depend on how it came there, and
the project around it stays as it is (`Made`). Step by step this gives the view of the directory after the
last stage, which is then compared with what is to be there (`layout`).

**Contents.**
* `Made`, with a lemma for each stage;
* `Documented` — tools that do what they are called for, and nothing else;
* `made_pages`, `made_container` and `run_output`;
* `booklet`, a book that is bound for a hand-held device.
-/

namespace Bindery

open Files (Entry Content)

namespace Build

open Files (Ground Below)

variable {site : Site} {shop : Workshop} {base : Location} {files tree tree' final : Files} {view : View}
  {stage : Stage} {stages : List Stage}

/-! ## From stage to stage -/

/-- What is in the directory of the build by now, and that the sources are as they were. -/
structure Made (site : Site) (base : Location) (files tree : Files) (view : View) : Prop where
  ground : tree.Ground site.root base
  dir : tree.find? (base ++ site.area) = some .dir
  source : Site.source tree base = Site.source files base
  view : site.made tree base = view

theorem Made.of_emptied (hemptied : Emptied site.root base site.area files tree)
    (hleads : ∃ location, tree.Leads site.root location) : Made site base files tree .hollow where
  ground := by
    obtain ⟨location, hleads⟩ := hleads
    exact ⟨hemptied.proper, hemptied.leads _ hleads ▸ hleads, hemptied.base_dir, hemptied.plain⟩
  dir := hemptied.dir
  source := by
    funext names
    have hway : ¬base ++ (("book" : Raw) :: names) <+: base ++ site.area := by
      intro hway
      have hbook := (List.prefix_append_right_inj _).mp hway
      exact absurd (List.cons_prefix_cons.mp hbook).1 (by decide)
    have hbelow : ¬Below (base ++ site.area) (base ++ (("book" : Raw) :: names)) := site.apart_source [] base names
    unfold Site.source
    rw [hemptied.found _ hbelow, if_neg hway]
  view := by
    funext names
    rw [Site.made_apply]
    cases names with
    | nil =>
      rw [List.append_nil]
      exact hemptied.dir
    | cons name rest =>
      obtain ⟨location, hleads⟩ := hleads
      exact hemptied.empty location hleads _ (below_append (List.cons_ne_nil _ _))

theorem Made.step {view' : View} (hmade : Made site base files tree view)
    (hwithin : Within site.root base site.area tree tree') (hview : site.made tree' base = view') :
    Made site base files tree' view' where
  ground := hwithin.ground
  dir := hwithin.dir
  source := (Site.source_eq hwithin).trans hmade.source
  view := hview

/-- The templates are resolved as they were at the start. -/
theorem Made.resolve_eq (hmade : Made site base files tree view) (hground : files.Ground site.root base)
    (path : Path) :
    (Template.Engine.below tree site.sourceDir shop.importLimit).resolve (site.binding shop) path =
      (Template.Engine.below files site.sourceDir shop.importLimit).resolve (site.binding shop) path :=
  Template.resolve_below_congr hground hmade.ground (by decide)
    (fun rest => congrFun hmade.source rest) path

/-- What the template of a stage comes to. -/
def Site.resolve (site : Site) (shop : Workshop) (files : Files) : Path → Except Template.Fault String :=
  (Template.Engine.below files site.sourceDir shop.importLimit).resolve (site.binding shop)

/-- The text of a page, if it has one. -/
def Site.pageText (site : Site) (shop : Workshop) (files : Files) (template : Path) : String :=
  match site.resolve shop files template with
  | .ok text => text
  | .error _ => ""

/-- The texts of all pages. -/
def Site.pages (site : Site) (shop : Workshop) (files : Files) : Pages where
  book := site.pageText shop files ⟨"book.html.erb"⟩
  cover := site.pageText shop files ⟨"frontmatter/cover.html.erb"⟩
  contents := site.pageText shop files ⟨"frontmatter/toc.html.erb"⟩
  package := site.pageText shop files ⟨"epub/OEBPS/content.opf.erb"⟩
  ncx := site.pageText shop files ⟨"epub/OEBPS/toc.ncx.erb"⟩

/-- A stage that may not fail has ended well. -/
theorem Ran.cons_ok (hran : Ran site shop (stage :: stages) tree final)
    (hadvisory : stage.isAdvisory = false) : ∃ output tree',
      (site.perform shop stage).run tree = (.ok output, tree') ∧ Ran site shop stages tree' final := by
  cases hran with
  | cons hperform hok rest =>
    obtain ⟨output, rfl⟩ := hok hadvisory
    exact ⟨output, _, hperform, rest⟩

theorem Ran.page {page : Page} (hran : Ran site shop (stage :: stages) tree final)
    (hground : files.Ground site.root base) (hmade : Made site base files tree view)
    (hpage : stage.page? = some page) (hthere : view site.format.contentNames = some .dir)
    (hfree : view (site.format.contentNames ++ [page.output.raw]) = none) :
    site.resolve shop files page.template = .ok (site.pageText shop files page.template) ∧
      Files.Usable (site.contentDir.join page.output) ∧
      ∃ tree', Made site base files tree' (view.put (site.format.contentNames ++ [page.output.raw])
        (pageEntry (site.pageText shop files page.template))) ∧ Ran site shop stages tree' final := by
  have hadvisory : stage.isAdvisory = false := by
    cases stage <;> first | rfl | cases hpage
  obtain ⟨output, tree', hperform, hrest⟩ := hran.cons_ok hadvisory
  rw [Site.perform_page hpage] at hperform
  obtain ⟨hwithin, hrendered⟩ :=
    Site.run_render hmade.ground hmade.dir (Site.isName_output hpage) hperform
  obtain ⟨text, hresolve, husable, hput⟩ := hrendered output rfl
  rw [hmade.resolve_eq hground] at hresolve
  -- rendered amid the build, the page comes to the text that it had before the build began
  have hresolve : site.resolve shop files page.template = .ok text := hresolve
  have htext : site.pageText shop files page.template = text := by
    unfold Site.pageText
    rw [hresolve]
  refine ⟨?_, husable, tree', hmade.step hwithin ?_, hrest⟩
  · rw [hresolve, htext]
  · rw [← hmade.view] at hthere hfree
    rw [hput hthere hfree, hmade.view, htext]
    rfl

theorem Ran.scaffold (hran : Ran site shop (.scaffoldContainer :: stages) tree final)
    (hmade : Made site base files tree view) (hcontainer : site.format.isContainer = true) :
    ∃ content executable tree', Site.source files base ["epub", mimetype] = some (.file content executable) ∧
      Made site base files tree' (((view.lay ["META-INF"] fun rest =>
        Site.source files base ("epub" :: "META-INF" :: rest)).put ["OEBPS"] .dir).put [(mimetype : Raw)]
          (.file content executable)) ∧ Ran site shop stages tree' final := by
  obtain ⟨output, tree', hperform, hrest⟩ := hran.cons_ok rfl
  rw [Site.perform_scaffoldContainer] at hperform
  rcases Work.run_bind_cases hperform with ⟨fault, -, hcontra⟩ | ⟨done, tree₁, hscaffold, hreturn⟩
  · cases hcontra
  · obtain ⟨-, rfl⟩ := Work.run_pure hreturn
    obtain ⟨hwithin, hlaid⟩ := Site.run_scaffold hmade.ground hmade.dir hscaffold
    obtain ⟨content, executable, hmimetype, hview⟩ := hlaid rfl hcontainer
    rw [hmade.source] at hmimetype
    rw [hmade.source, hmade.view] at hview
    exact ⟨content, executable, tree', hmimetype, hmade.step hwithin hview, hrest⟩

theorem Ran.assets (hran : Ran site shop (.copyAssets :: stages) tree final)
    (hmade : Made site base files tree view) (hthere : view site.format.contentNames = some .dir) :
    ∃ tree', Made site base files tree' ((view.lay (site.format.contentNames ++ [("assets" : Raw)]) fun rest =>
      Site.source files base ("assets" :: rest)).drop (site.format.foreignSheets.map fun name =>
        site.format.contentNames ++ [("assets" : Raw), "css", Raw.ofText name])) ∧
      Ran site shop stages tree' final := by
  obtain ⟨output, tree', hperform, hrest⟩ := hran.cons_ok rfl
  rw [Site.perform_copyAssets] at hperform
  obtain ⟨hwithin, hcopied⟩ := Site.run_copyAssets hmade.ground hmade.dir hperform
  rw [← hmade.view] at hthere
  have hview := hcopied output rfl hthere
  rw [hmade.source, hmade.view] at hview
  exact ⟨tree', hmade.step hwithin hview, hrest⟩

theorem Ran.package (hran : Ran site shop (.package :: stages) tree final)
    (hmade : Made site base files tree view) (hfree : view ["book.epub"] = none) :
    ∃ type executable listed tree', view [(mimetype : Raw)] = some (.file type executable) ∧
      Complete view "book.epub" listed ∧
      Made site base files tree' (view.put ["book.epub"] (.file (.archive (⟨mimetype, true, type.toBytes⟩ ::
        listed.map fun (names, content) => packedAs names content)) false)) ∧
      Ran site shop stages tree' final := by
  obtain ⟨output, tree', hperform, hrest⟩ := hran.cons_ok rfl
  rw [Site.perform_package] at hperform
  obtain ⟨hwithin, hpacked⟩ := Site.run_packContainer hmade.ground hmade.dir hperform
  rw [hmade.view] at hpacked
  obtain ⟨type, executable, listed, hmimetype, hcomplete, hview⟩ := hpacked output rfl hfree
  exact ⟨type, executable, listed, tree', hmimetype, hcomplete, hmade.step hwithin hview, hrest⟩

/-! ## Tools -/

/-- The file that a tool makes in the directory of the build. -/
def Site.product? (site : Site) : Stage → Option Raw
  | .convertToDevice | .convertToPdf => some site.format.artifact.raw
  | _ => none

theorem Site.of_product? (h : site.product? stage ≠ none) : stage = .convertToDevice ∨ stage = .convertToPdf := by
  cases stage
  case convertToDevice => exact .inl rfl
  case convertToPdf => exact .inr rfl
  all_goals exact absurd rfl h

/-- What a tool makes is the finished book. -/
theorem Site.product?_eq {name : Raw} (h : site.product? stage = some name) : name = site.format.artifact.raw := by
  rcases Site.of_product? (by rw [h]; nofun) with rfl | rfl
  · exact (Option.some.inj h).symm
  · exact (Option.some.inj h).symm

/-- Tools that change nothing, except that one that makes a file makes it when it succeeds. -/
structure Documented (site : Site) (shop : Workshop) (base : Location) : Prop where
  idle : ∀ stage call files, site.call? shop.platform stage = some (.ok call) →
    (site.product? stage = none ∨
      ∀ exit, (shop.runner call files).1 = .ok exit → exit.isSuccess = false) →
    (shop.runner call files).2 = files
  makes : ∀ stage call files name exit, site.call? shop.platform stage = some (.ok call) →
    site.product? stage = some name → (shop.runner call files).1 = .ok exit → exit.isSuccess = true →
    ∃ content executable,
      (shop.runner call files).2 = files.put (base ++ (site.area ++ [name])) (.file content executable)

theorem Ran.validate (hran : Ran site shop (.validate :: stages) tree final)
    (htools : Documented site shop base) : Ran site shop stages tree final := by
  cases hran with
  | cons hperform hok rest =>
    rcases Site.run_tool rfl hperform with ⟨-, rfl⟩ | ⟨call, hcall, rfl, -⟩
    · exact rest
    · rwa [htools.idle .validate call tree hcall (.inl rfl)] at rest

/-- The tree that a tool has left that has made the finished book. -/
def Site.Converted (site : Site) (shop : Workshop) (stage : Stage) (final : Files) : Prop :=
  ∃ call tree exit, site.call? shop.platform stage = some (.ok call) ∧
    shop.runner call tree = (.ok exit, final) ∧ exit.isSuccess = true

theorem Ran.convert (hran : Ran site shop [stage] tree final) (htools : Documented site shop base)
    (hmade : Made site base files tree view) (hproduct : site.product? stage = some site.format.artifact.raw)
    (hfree : view [site.format.artifact.raw] = none) :
    site.Converted shop stage final ∧ ∃ content executable,
      Made site base files final (view.put [site.format.artifact.raw] (.file content executable)) := by
  have htool : stage.isTool = true ∧ stage.isAdvisory = false := by
    cases stage <;> first | exact ⟨rfl, rfl⟩ | cases hproduct
  obtain ⟨output, tree', hperform, hrest⟩ := hran.cons_ok htool.2
  cases hrest
  have hname : Path.IsName site.format.artifact.raw := by
    cases site.format <;> decide
  rcases Site.run_tool htool.1 hperform with ⟨⟨fault, hcontra⟩, -⟩ | ⟨call, hcall, hleft, hsuccess⟩
  · cases hcontra
  obtain ⟨exit, hexit, hsuccess⟩ := hsuccess output rfl
  obtain ⟨content, executable, hput⟩ := htools.makes stage call tree _ exit hcall hproduct hexit hsuccess
  rw [← hleft] at hput
  rw [← hmade.view, Site.made_apply] at hfree
  have hfull : [site.format.artifact.raw] ≠ [] := List.cons_ne_nil _ _
  -- what the tool makes is new, so it is in nobody's way
  have hground : (tree.put (base ++ (site.area ++ [site.format.artifact.raw]))
      (.file content executable)).Ground site.root base := by
    have hbelow := site.isBelow_buildDir.join hname
    refine hmade.ground.put hbelow.full hbelow.named ?_ nofun fun hdir => ?_
    · rw [List.dropLast_concat]
      exact hmade.dir
    · rw [hfree] at hdir
      cases hdir
  refine ⟨⟨call, tree, exit, hcall, Prod.ext hexit hleft.symm, hsuccess⟩, content, executable, ?_⟩
  rw [hput]
  refine hmade.step (.put hmade.dir hfull hground) ?_
  unfold Site.made
  rw [view_put hfull, ← hmade.view]
  rfl

/-! ## Whole builds -/

/-- The first stage, and that the next one has found the sources. -/
theorem Ran.clean (hran : Ran site shop (.clean :: stage :: stages) files final)
    (hground : files.Ground site.root base) (hadvisory : stage.isAdvisory = false)
    (hneeds : stage.page? ≠ none ∨ stage = .scaffoldContainer) :
    ∃ tree, Made site base files tree .hollow ∧ Ran site shop (stage :: stages) tree final := by
  obtain ⟨output, tree, hperform, hrest⟩ := hran.cons_ok rfl
  obtain ⟨-, hemptied⟩ := Site.run_clean hground hperform
  obtain ⟨next, tree', hnext, -⟩ := hrest.cons_ok hadvisory
  refine ⟨tree, .of_emptied (hemptied output rfl).2 ?_, hrest⟩
  by_contra hlost
  obtain ⟨⟨fault, hcontra⟩, -⟩ := Site.perform_lost (fun location h => hlost ⟨location, h⟩) hneeds hnext
  cases hcontra

/-- What the formats that are not made from a container begin with. -/
theorem made_pages (hran : Ran site shop (.clean :: .renderBook :: .copyAssets :: stages) files final)
    (hground : files.Ground site.root base) (hformat : site.format = .html ∨ site.format = .pdf) :
    Files.Usable (site.contentDir.join ⟨"book.html"⟩) ∧
      (site.pages shop files).Resolved site.format (site.resolve shop files) ∧
      ∃ tree, Made site base files tree (bookTree (Site.source files base) (site.pages shop files)) ∧
        Ran site shop stages tree final := by
  have hcontainer : ¬(site.format = .epub ∨ site.format = .mobi) := by
    rcases hformat with hformat | hformat <;> simp [hformat]
  have hno : ¬site.format.isContainer = true := by
    rcases hformat with hformat | hformat <;> simp [hformat, Format.isContainer]
  have hnames : site.format.contentNames = [] := if_neg hno
  have hsheets : site.format.foreignSheets = [] := if_neg hno
  obtain ⟨tree₁, hmade₁, hran₁⟩ := hran.clean hground rfl (.inl (by decide))
  obtain ⟨hbook, husable, tree₂, hmade₂, hran₂⟩ := hran₁.page hground hmade₁ rfl
    (by rw [hnames]; rfl) (by rw [hnames]; rfl)
  obtain ⟨tree₃, hmade₃, hran₃⟩ := hran₂.assets hmade₂ (by rw [hnames]; rfl)
  refine ⟨husable, ⟨hbook, fun h => absurd h hcontainer, fun h => absurd h hcontainer,
    fun h => absurd h hcontainer, fun h => absurd h hcontainer⟩, tree₃, ?_, hran₃⟩
  rw [hnames, hsheets] at hmade₃
  rw [bookTree_eq]
  exact hmade₃

/-- What the formats that are made from a container begin with. -/
theorem made_container (hran : Ran site shop (Format.containerStages ++ stages) files final)
    (hground : files.Ground site.root base) (htools : Documented site shop base)
    (hformat : site.format.isContainer = true) :
    Files.Usable (site.contentDir.join ⟨"book.html"⟩) ∧
      (site.pages shop files).Resolved site.format (site.resolve shop files) ∧
      ∃ archive tree, IsArchive site.format (Site.source files base) (site.pages shop files) archive ∧
        Made site base files tree ((containerTree site.format (Site.source files base) (site.pages shop files)).put
          ["book.epub"] (.file (.archive archive) false)) ∧
        Ran site shop stages tree final := by
  have hnames : site.format.contentNames = [("OEBPS" : Raw)] := if_pos hformat
  -- stage by stage: what has been made so far leaves room for what the next one makes
  obtain ⟨tree₁, hmade₁, hran₁⟩ := hran.clean hground rfl (.inr rfl)
  obtain ⟨content, executable, tree₂, hmimetype, hmade₂, hran₂⟩ := hran₁.scaffold hmade₁ hformat
  obtain ⟨hbook, husable, tree₃, hmade₃, hran₃⟩ := hran₂.page hground hmade₂ rfl
    (by rw [hnames]; rfl) (by rw [hnames]; rfl)
  obtain ⟨hcover, -, tree₄, hmade₄, hran₄⟩ := hran₃.page hground hmade₃ rfl
    (by rw [hnames]; rfl) (by rw [hnames]; rfl)
  obtain ⟨hcontents, -, tree₅, hmade₅, hran₅⟩ := hran₄.page hground hmade₄ rfl
    (by rw [hnames]; rfl) (by rw [hnames]; rfl)
  obtain ⟨hpackage, -, tree₆, hmade₆, hran₆⟩ := hran₅.page hground hmade₅ rfl
    (by rw [hnames]; rfl) (by rw [hnames]; rfl)
  obtain ⟨hncx, -, tree₇, hmade₇, hran₇⟩ := hran₆.page hground hmade₆ rfl
    (by rw [hnames]; rfl) (by rw [hnames]; rfl)
  obtain ⟨tree₈, hmade₈, hran₈⟩ := hran₇.assets hmade₇ (by rw [hnames]; rfl)
  rw [hnames] at hmade₈
  -- by now the container is laid out
  have hlaid : Made site base files tree₈
      (containerTree site.format (Site.source files base) (site.pages shop files)) := by
    rw [containerTree_eq hformat hmimetype]
    exact hmade₈
  obtain ⟨type, mode, listed, tree₉, htype, hcomplete, hmade₉, hran₉⟩ := hran₈.package hlaid rfl
  exact ⟨husable, ⟨hbook, fun _ => hcover, fun _ => hcontents, fun _ => hpackage, fun _ => hncx⟩, _, tree₉,
    ⟨type, mode, listed, htype, hcomplete, rfl⟩, hmade₉, hran₉.validate htools⟩

/-! ## The finished book -/

namespace Site

theorem artifact_eq (site : Site) : site.artifact = site.root.below (site.area ++ [site.format.artifact.raw]) := by
  unfold artifact
  rw [Path.below_concat, ← site.buildDir_eq]

theorem artifact_eq_join (site : Site) : site.artifact = site.root.join site.format.artifactPath := by
  have hname := isName_formatName site.format
  have hartifact : Path.IsName site.format.artifact.raw := by
    cases site.format <;> decide
  have hpath : site.format.artifactPath =
      ⟨"builds" ++ "/" ++ (site.format.name ++ "/" ++ site.format.artifact.raw)⟩ := by
    cases site.format <;> decide
  have hrest : Path.isAbsolute ⟨site.format.name ++ "/" ++ site.format.artifact.raw⟩ = false := by
    cases site.format <;> decide
  rw [hpath, Path.join_slash (by decide) hrest, Path.join_slash hname hartifact.isAbsolute, site.artifact_eq,
    Path.below_concat]
  rfl

/-- The path of the finished book is no longer than that of its first page. -/
theorem usable_artifact (h : Files.Usable (site.contentDir.join ⟨"book.html"⟩)) : Files.Usable site.artifact := by
  have hartifact : Path.IsName site.format.artifact.raw := by
    cases site.format <;> decide
  have hnul : site.format.artifact.raw.bytes.contains 0 = false := by
    cases site.format <;> decide
  have hshort : site.format.artifact.raw.size ≤ (Raw.ofText "book.html").size := by
    cases site.format <;> decide
  unfold contentDir Format.contentDir at h
  unfold artifact
  split at h
  · rw [← Path.join_slash (by decide) (by decide)] at h
    refine h.of_join (by decide) hartifact.isAbsolute hartifact.isEmpty hnul ?_
    exact Nat.le_trans hshort (by decide)
  · rw [Path.join_empty_join (by decide)] at h
    exact h.of_join (by decide) hartifact.isAbsolute hartifact.isEmpty hnul hshort

end Site

theorem Made.isFile_artifact {content : Content} {executable : Bool}
    (hmade : Made site base files tree view) (husable : Files.Usable (site.contentDir.join ⟨"book.html"⟩))
    (hfile : view [site.format.artifact.raw] = some (.file content executable)) :
    tree.isFile site.artifact = true := by
  have husable := Site.usable_artifact husable
  rw [← hmade.view, Site.made_apply] at hfile
  rw [site.artifact_eq] at husable ⊢
  refine hmade.ground.isFile_below ?_ husable ?_ hfile
  · unfold Site.area
    cases site.format <;> decide
  · unfold Site.area
    cases site.format <;> decide

/-- What there is in the end, for the stages of each format. -/
theorem Ran.output (hran : Ran site shop site.format.stages files final)
    (hground : files.Ground site.root base) (htools : Documented site shop base) :
    ∃ pages archive content executable, pages.Resolved site.format (site.resolve shop files) ∧
      (site.format = .epub ∨ site.format = .mobi →
        IsArchive site.format (Site.source files base) pages archive) ∧
      site.made final base = layout site.format (Site.source files base) pages archive (.file content executable) ∧
      (∀ stage ∈ site.format.stages, site.product? stage ≠ none → site.Converted shop stage final) ∧
      final.isFile site.artifact = true := by
  refine ⟨site.pages shop files, ?_⟩
  -- two formats are made of pages alone, two of a container; one of each is converted in the end
  cases hformat : site.format with
  | html =>
    rw [hformat] at hran
    obtain ⟨husable, hresolved, tree, hmade, hran⟩ := made_pages hran hground (.inl hformat)
    cases hran
    rw [hformat] at hresolved
    refine ⟨[], .empty, false, hresolved, by simp, hmade.view, ?_, ?_⟩
    · intro stage hmem hproduct
      rcases Site.of_product? hproduct with rfl | rfl
      · exact absurd hmem (by decide)
      · exact absurd hmem (by decide)
    · exact hmade.isFile_artifact husable (by rw [hformat]; rfl)
  | pdf =>
    rw [hformat] at hran
    obtain ⟨husable, hresolved, tree, hmade, hran⟩ := made_pages hran hground (.inr hformat)
    obtain ⟨hconverted, content, executable, hmade⟩ :=
      hran.convert htools hmade rfl (by rw [hformat]; rfl)
    rw [hformat] at hresolved hmade
    refine ⟨[], content, executable, hresolved, by simp, hmade.view, ?_, ?_⟩
    · intro stage hmem hproduct
      rcases Site.of_product? hproduct with rfl | rfl
      · exact absurd hmem (by decide)
      · exact hconverted
    · exact hmade.isFile_artifact husable (by rw [hformat]; rfl)
  | epub =>
    rw [hformat] at hran
    have hran : Ran site shop (Format.containerStages ++ []) files final := hran
    obtain ⟨husable, hresolved, archive, tree, harchive, hmade, hran⟩ :=
      made_container hran hground htools (by rw [hformat]; rfl)
    cases hran
    rw [hformat] at hresolved harchive hmade
    refine ⟨archive, .empty, false, hresolved, fun _ => harchive, hmade.view, ?_, ?_⟩
    · intro stage hmem hproduct
      rcases Site.of_product? hproduct with rfl | rfl
      · exact absurd hmem (by decide)
      · exact absurd hmem (by decide)
    · exact hmade.isFile_artifact husable (by rw [hformat]; rfl)
  | mobi =>
    rw [hformat] at hran
    obtain ⟨husable, hresolved, archive, tree, harchive, hmade, hran⟩ :=
      made_container hran hground htools (by rw [hformat]; rfl)
    obtain ⟨hconverted, content, executable, hmade⟩ :=
      hran.convert htools hmade rfl (by rw [hformat]; rfl)
    rw [hformat] at hresolved harchive hmade
    refine ⟨archive, content, executable, hresolved, fun _ => harchive, hmade.view, ?_, ?_⟩
    · intro stage hmem hproduct
      rcases Site.of_product? hproduct with rfl | rfl
      · exact hconverted
      · exact absurd hmem (by decide)
    · exact hmade.isFile_artifact husable (by rw [hformat]; rfl)

/-- A build that has not failed ends well. -/
theorem Run.result_eq_ok {ran : Run} (h : ran.failure = none) (site : Site) :
    ∃ report, ran.result site = .ok report := by
  unfold Run.result
  rw [h]
  exact ⟨_, rfl⟩

/-! ## A pamphlet and a booklet -/

/-- Tools are as they should be if one of them makes the file of the stage that calls it, where no directory is in
the way, and if they do nothing else. -/
theorem Documented.of_runner {tool : String} {place : Location} {content : Content}
    (hrunner : ∀ call files, shop.runner call files =
      if call.tool = tool ∧ files.find? place ≠ some .dir then (.ok (.code 0), files.put place (.file content false))
      else (.ok (.code 1), files))
    (htool : ∀ stage call, site.call? shop.platform stage = some (.ok call) → call.tool = tool →
      site.product? stage ≠ none)
    (hplace : place = base ++ (site.area ++ [site.format.artifact.raw])) : Documented site shop base where
  idle := by
    intro stage call files hcall hidle
    by_cases hmakes : call.tool = tool ∧ files.find? place ≠ some .dir
    · have hcode : (shop.runner call files).1 = .ok (.code 0) := by
        rw [hrunner, if_pos hmakes]
      rcases hidle with hnone | hfails
      · exact absurd hnone (htool stage call hcall hmakes.1)
      · exact absurd (hfails _ hcode) (by decide)
    · rw [hrunner, if_neg hmakes]
  makes := by
    intro stage call files name exit hcall hproduct hexit hsuccess
    by_cases hmakes : call.tool = tool ∧ files.find? place ≠ some .dir
    · refine ⟨content, false, ?_⟩
      rw [hrunner, if_pos hmakes, Site.product?_eq hproduct, ← hplace]
    · rw [hrunner, if_neg hmakes] at hexit
      cases hexit
      exact absurd hsuccess (by decide)

/-- A pamphlet has no container, so there is nothing but the printer to be called. -/
theorem documented_pamphlet : Documented pamphletSite pamphletShop ["p"] := by
  refine .of_runner (fun _ _ => rfl) (fun stage call hcall _ => ?_) rfl
  cases stage
  case convertToPdf => exact nofun
  all_goals cases hcall

/-- A project with the sources of a container, one style sheet of its own and one for another format. There is an
old build of it as well. -/
def booklet : Files where
  home := []
  entries :=
    [(["b"], .dir), (["b", "book"], .dir), (["b", "book", "assets"], .dir),
     (["b", "book", "assets", ".DS_Store"], .file (.ofText "x") false),
     (["b", "book", "assets", "css"], .dir),
     (["b", "book", "assets", "css", "stylesheet.epub.css"], .file (.ofText "e") false),
     (["b", "book", "assets", "css", "stylesheet.mobi.css"], .file (.ofText "m") false),
     (["b", "book", "book.html.erb"], .file (.ofText "<%= title %>") false),
     (["b", "book", "epub"], .dir), (["b", "book", "epub", "META-INF"], .dir),
     (["b", "book", "epub", "META-INF", "container.xml"], .file (.ofText "c") false),
     (["b", "book", "epub", "OEBPS"], .dir),
     (["b", "book", "epub", "OEBPS", "content.opf.erb"], .file (.ofText "p") false),
     (["b", "book", "epub", "OEBPS", "toc.ncx.erb"], .file (.ofText "n") false),
     (["b", "book", "epub", "mimetype"], .file (.ofText "t") false),
     (["b", "book", "frontmatter"], .dir),
     (["b", "book", "frontmatter", "cover.html.erb"], .file (.ofText "<%= author %>") false),
     (["b", "book", "frontmatter", "toc.html.erb"], .file (.ofText "l") false),
     (["b", "builds"], .dir), (["b", "builds", "mobi"], .dir),
     (["b", "builds", "mobi", "old.html"], .file (.ofText "old") true)]

/-- The booklet is to be bound for a hand-held device. -/
def bookletSite : Site where
  root := ⟨"b"⟩
  book := { title := "B", author := "A", identifier := "I" }
  format := .mobi

/-- Where the bound booklet goes. -/
def bookletDevice : Location :=
  "b" :: (bookletSite.area ++ [("book.mobi" : Raw)])

/-- A converter that does nothing but convert, and no other tool. -/
def bookletRunner : Runner := fun call files =>
  if call.tool = "kindlegen" ∧ files.find? bookletDevice ≠ some .dir then
    (.ok (.code 0), files.put bookletDevice (.file (.ofText "MOBI") false))
  else (.ok (.code 1), files)

/-- What is needed to bind it. -/
def bookletShop : Workshop where
  buildDate := "today"
  runner := bookletRunner

/-- The archive of the booklet. -/
def bookletArchive : List Files.Packed :=
  [⟨"mimetype", true, "t".toUTF8⟩, ⟨"META-INF/container.xml", false, "c".toUTF8⟩,
   ⟨"OEBPS/assets/css/stylesheet.mobi.css", false, "m".toUTF8⟩, ⟨"OEBPS/book.html", false, "B".toUTF8⟩,
   ⟨"OEBPS/content.opf", false, "p".toUTF8⟩, ⟨"OEBPS/cover.html", false, "A".toUTF8⟩,
   ⟨"OEBPS/toc.html", false, "l".toUTF8⟩, ⟨"OEBPS/toc.ncx", false, "n".toUTF8⟩]

theorem ground_booklet : booklet.Ground bookletSite.root ["b"] where
  proper := .of_entries (by unfold Dict.Sorted; decide +kernel) (by decide +kernel) (by decide +kernel)
  leads := by unfold Files.Leads; decide +kernel
  dir := by decide +kernel
  plain := .of_entries (by simp [booklet]) _

/-- The container of the booklet is checked as well, but not by the converter. -/
theorem documented_booklet : Documented bookletSite bookletShop ["b"] := by
  refine .of_runner (fun _ _ => rfl) (fun stage call hcall htool => ?_) rfl
  cases stage
  case validate =>
    cases hcall
    exact absurd htool (by decide)
  case convertToDevice | convertToPdf => exact nofun
  all_goals cases hcall

/-- **Exactly what a build that ends well has made.** Every page of the format is what its template comes to, all of
them under one binding; the directory of the build holds what is to be there, and nothing else; the archive holds
what is in the directory; and the finished book is a file there. -/
theorem run_output {format : Format} {report : Report} (hground : files.Ground site.root base)
    (htools : Documented site shop base)
    (hok : (run format site shop files).result site = .ok report) :
    ∃ pages archive content executable,
      pages.Resolved format
        ((Template.Engine.below files site.sourceDir shop.importLimit).resolve (site.binding shop)) ∧
      (format = .epub ∨ format = .mobi → IsArchive format (Site.source files base) pages archive) ∧
      site.made (run format site shop files).files base =
        layout format (Site.source files base) pages archive (.file content executable) ∧
      (∀ stage ∈ format.stages, site.product? stage ≠ none →
        site.Converted shop stage (run format site shop files).files) ∧
      report.artifact = site.root.join ⟨"builds/" ++ format.name ++ "/book." ++ format.name⟩ ∧
      (run format site shop files).files.isFile report.artifact = true := by
  have hend : (run format site shop files).failure = none ∧ report.artifact = site.artifact := by
    unfold Run.result at hok
    split at hok
    · cases hok
    · next hnone =>
      cases hok
      exact ⟨hnone, rfl⟩
  obtain ⟨hnone, hartifact⟩ := hend
  rw [hartifact]
  unfold run at hnone ⊢
  split at hnone
  next hformat =>
    subst hformat
    rw [if_pos rfl]
    obtain ⟨pages, archive, content, executable, hresolved, harchive, hmade, hconverted, hfile⟩ :=
      (ran_of_runStages hnone).output hground htools
    refine ⟨pages, archive, content, executable, hresolved, harchive, hmade, hconverted, ?_, hfile⟩
    rw [site.artifact_eq_join]
    cases site.format <;> rfl
  next => cases hnone

/-- A pamphlet that is printed where an old build has left something, and a booklet that is bound where one has. The
booklet comes with its own style sheet and goes without the other one, which is still in the project; and nothing
of the old build is with it. -/
theorem run_output_printed_and_bound :
    (∃ report pages archive content executable,
      (run .pdf pamphletSite pamphletShop (pamphlet pamphletLeft)).result pamphletSite = .ok report ∧
      pamphletSite.made (run .pdf pamphletSite pamphletShop (pamphlet pamphletLeft)).files ["p"] =
        layout .pdf (Site.source (pamphlet pamphletLeft) ["p"]) pages archive (.file content executable) ∧
      report.artifact = ⟨"p/builds/pdf/book.pdf"⟩) ∧
    ∃ report pages content executable,
      (run .mobi bookletSite bookletShop booklet).result bookletSite = .ok report ∧
      bookletSite.made (run .mobi bookletSite bookletShop booklet).files ["b"] =
        layout .mobi (Site.source booklet ["b"]) pages bookletArchive (.file content executable) ∧
      bookletSite.made (run .mobi bookletSite bookletShop booklet).files ["b"]
        ["OEBPS", "assets", "css", "stylesheet.mobi.css"] = some (.file (.ofText "m") false) ∧
      bookletSite.made (run .mobi bookletSite bookletShop booklet).files ["b"]
        ["OEBPS", "assets", "css", "stylesheet.epub.css"] = none ∧
      report.artifact = ⟨"b/builds/mobi/book.mobi"⟩ := by
  constructor
  · have hnone : (run .pdf pamphletSite pamphletShop (pamphlet pamphletLeft)).failure = none := by
      decide +kernel
    obtain ⟨report, hok⟩ := Run.result_eq_ok hnone pamphletSite
    obtain ⟨pages, archive, content, executable, -, -, hmade, -, hartifact, -⟩ :=
      run_output ground_pamphletLeft documented_pamphlet hok
    refine ⟨report, pages, archive, content, executable, hok, hmade, hartifact.trans ?_⟩
    decide
  · -- the build is run once, for all that has to be seen of it
    have hran : (run .mobi bookletSite bookletShop booklet).failure = none ∧
        bookletSite.made (run .mobi bookletSite bookletShop booklet).files ["b"] ["book.epub"] =
          some (.file (.archive bookletArchive) false) ∧
        bookletSite.made (run .mobi bookletSite bookletShop booklet).files ["b"]
          ["OEBPS", "assets", "css", "stylesheet.mobi.css"] = some (.file (.ofText "m") false) ∧
        bookletSite.made (run .mobi bookletSite bookletShop booklet).files ["b"]
          ["OEBPS", "assets", "css", "stylesheet.epub.css"] = none := by
      decide +kernel
    obtain ⟨hnone, hpacked, hown, hother⟩ := hran
    obtain ⟨report, hok⟩ := Run.result_eq_ok hnone bookletSite
    obtain ⟨pages, archive, content, executable, -, -, hmade, -, hartifact, -⟩ :=
      run_output ground_booklet documented_booklet hok
    rw [hmade] at hpacked
    have harchive : some (Entry.file (.archive archive) false) = some (.file (.archive bookletArchive) false) :=
      hpacked
    cases harchive
    refine ⟨report, pages, content, executable, hok, hmade, hown, hother, hartifact.trans ?_⟩
    decide

end Build

end Bindery
