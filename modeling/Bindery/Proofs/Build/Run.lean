import Bindery.Build.Run
import Bindery.Proofs.Build.Cleaning
import Bindery.Proofs.Build.Stages
import Bindery.Proofs.Template.Inlining

/-!
# `Proofs.Build.Run` — one stage after another

Every format begins by emptying the directory of the build, goes on with stages that keep to that
directory, and ends with the stages that call a tool. What one stage does is lifted to whole runs by
induction on the stages (`runStages_cases`, `ran_of_runStages`).

A root that leads nowhere once the directory has been emptied has led through that directory. The next
stage then fails without having changed anything (`perform_lost`).

**Contents.**
* `Stage.isTool`, `within_perform`, `run_tool` — what a stage does to the file tree;
* `perform_lost` — the first stage that needs the sources;
* `runStages_cases` and `runStages_files` — what a run leaves behind, from what its stages do;
* `Ran`, the runs in which every stage ends well.
-/

namespace Bindery

/-- The stage calls a tool. -/
def Stage.isTool : Stage → Bool
  | validate | convertToDevice | convertToPdf => true
  | _ => false

namespace Build

open Files (Entry Content Ground)

variable {site : Site} {shop : Workshop} {files files' : Files} {base : Location} {stage : Stage}
  {stages : List Stage} {result : Except Fault Output}

namespace Site

/-! ## Stages -/

theorem perform_page {page : Page} (h : stage.page? = some page) :
    site.perform shop stage = site.render shop page := by
  unfold perform
  rw [h]

theorem perform_clean : site.perform shop .clean = (do emptyDir site.buildDir shop.order; return {}) := rfl

theorem perform_scaffoldContainer : site.perform shop .scaffoldContainer = (do site.scaffold; return {}) :=
  rfl

theorem perform_copyAssets : site.perform shop .copyAssets = site.copyAssets := rfl

theorem perform_package : site.perform shop .package = site.packContainer := rfl

/-- The first stage, which needs no more than the root. -/
theorem run_clean (hground : files.Ground site.root base)
    (h : (site.perform shop .clean).run files = (result, files')) :
    Spared base site.area files files' ∧ ∀ output, result = .ok output →
      output = {} ∧ Emptied site.root base site.area files files' := by
  rw [perform_clean, buildDir_eq] at h
  rcases Work.run_bind_cases h with ⟨fault, hempty, rfl⟩ | ⟨done, files₁, hempty, hreturn⟩
  · exact ⟨(run_emptyDir hground (List.cons_ne_nil _ _) site.area_names hempty).1, nofun⟩
  · obtain ⟨rfl, rfl⟩ := Work.run_pure hreturn
    obtain ⟨hspared, hemptied⟩ := run_emptyDir hground (List.cons_ne_nil _ _) site.area_names hempty
    exact ⟨hspared, fun output hok => ⟨(Except.ok.inj hok).symm, hemptied rfl⟩⟩

theorem call?_isSome (site : Site) (platform : Platform) (stage : Stage) :
    (site.call? platform stage).isSome = stage.isTool := by
  cases stage <;> rfl

theorem runCall_run (runner : Runner) (call : Tool.Call) (files : Files) :
    (runCall runner call).run files =
      match runner call files with
      | (.error fault, left) => (.error (.tool fault), left)
      | (.ok exit, left) =>
        match call.check exit with
        | .ok () => (.ok (), left)
        | .error fault => (.error (.tool fault), left) := by
  rw [runCall, Work.run_get]
  cases runner call files with
  | mk outcome left =>
    cases outcome with
    | error fault => rfl
    | ok exit =>
      dsimp only
      generalize call.check exit = checked
      cases checked <;> rfl

/-- A stage with a tool leaves what the tool leaves, or ends before it has called the tool. It ends well
only if the tool has. -/
theorem run_tool (htool : stage.isTool = true)
    (h : (site.perform shop stage).run files = (result, files')) :
    ((∃ fault, result = .error fault) ∧ files' = files) ∨
      ∃ call, site.call? shop.platform stage = some (.ok call) ∧ files' = (shop.runner call files).2 ∧
        ∀ output, result = .ok output →
          ∃ exit, (shop.runner call files).1 = .ok exit ∧ exit.isSuccess = true := by
  obtain ⟨made, hcall⟩ : ∃ made, site.call? shop.platform stage = some made := by
    rw [← Option.isSome_iff_exists, call?_isSome, htool]
  have hpage : stage.page? = none := by
    cases stage <;> first | rfl | cases htool
  unfold perform at h
  rw [hpage, hcall] at h
  cases made with
  | error fault =>
    obtain ⟨rfl, rfl⟩ : result = .error fault ∧ files' = files := Work.run_fail h
    exact .inl ⟨⟨fault, rfl⟩, rfl⟩
  | ok call =>
    refine .inr ⟨call, hcall, ?_⟩
    have h : (do
        runCall shop.runner call
        return site.toolOutput stage : Work Output).run files = (result, files') := h
    -- whatever the call came to, the files are those that the runner has left
    have hrun := runCall_run shop.runner call files
    rcases Work.run_bind_cases h with ⟨fault, hcalled, rfl⟩ | ⟨done, files₁, hcalled, hreturn⟩
    · rw [hcalled] at hrun
      refine ⟨?_, nofun⟩
      split at hrun
      · next heq => cases hrun; rw [heq]
      · next heq =>
        split at hrun
        · cases hrun
        · cases hrun; rw [heq]
    · obtain ⟨-, rfl⟩ := Work.run_pure hreturn
      rw [hcalled] at hrun
      split at hrun
      · cases hrun
      · next exit left heq =>
        split at hrun
        · next hcheck =>
          cases hrun
          refine ⟨by rw [heq], fun output _ => ⟨exit, by rw [heq], ?_⟩⟩
          unfold Tool.Call.check at hcheck
          split at hcheck
          · assumption
          · cases hcheck
        · cases hrun

/-! ## A root that leads nowhere -/

theorem leads_of_isDirectory {root path : Path} {names : List Raw} (hbelow : root.IsBelow names path)
    (h : files.isDirectory path = true) : ∃ location, files.Leads root location := by
  have htarget : files.target? path = some .dir := eq_of_beq h
  unfold Files.target? at htarget
  split at htarget
  · next location entry hspot => exact Files.leads_of_spot_below hbelow hspot
  · cases htarget

/-- A page and the layout of the container need the sources. Without them nothing is done. -/
theorem perform_lost (hlost : ∀ location, ¬files.Leads site.root location)
    (hstage : stage.page? ≠ none ∨ stage = .scaffoldContainer)
    (h : (site.perform shop stage).run files = (result, files')) :
    (∃ fault, result = .error fault) ∧ files' = files := by
  rcases hstage with hpage | rfl
  · obtain ⟨page, hpage⟩ := Option.ne_none_iff_exists'.mp hpage
    rw [perform_page hpage, render_run] at h
    split at h
    · obtain ⟨rfl, rfl⟩ := Work.run_fail h
      exact ⟨⟨_, rfl⟩, rfl⟩
    · next text hresolve =>
      obtain ⟨location, hleads⟩ := Template.leads_of_resolve (by decide) hresolve
      exact absurd hleads (hlost location)
  · have hmeta : site.root.IsBelow ["book", "epub", "META-INF"]
        ((site.sourceDir.join ⟨"epub"⟩).join ⟨"META-INF"⟩) :=
      (site.isBelow_sourceDir.join (by decide)).join (by decide)
    -- the sources of the container are not there, and nothing is copied from them
    have hmissing : files.isDirectory ((site.sourceDir.join ⟨"epub"⟩).join ⟨"META-INF"⟩) = false := by
      refine Bool.eq_false_iff.mpr fun hthere => ?_
      obtain ⟨location, hleads⟩ := leads_of_isDirectory hmeta hthere
      exact hlost location hleads
    rw [perform_scaffoldContainer] at h
    have hcopy := copyDir_run ((site.sourceDir.join ⟨"epub"⟩).join ⟨"META-INF"⟩)
      (site.buildDir.join ⟨"META-INF"⟩) files
    rw [hmissing, if_neg Bool.false_ne_true] at hcopy
    rcases Work.run_bind_cases h with ⟨fault, hscaffold, rfl⟩ | ⟨done, files₁, hscaffold, -⟩
    · rcases Work.run_bind_cases hscaffold with ⟨fault', hcopied, -⟩ | ⟨count, files₂, hcopied, -⟩
      · obtain ⟨-, rfl⟩ := Work.run_fail (hcopy.symm.trans hcopied)
        exact ⟨⟨fault, rfl⟩, rfl⟩
      · obtain ⟨hcontra, -⟩ := Work.run_fail (hcopy.symm.trans hcopied)
        cases hcontra
    · rcases Work.run_bind_cases hscaffold with ⟨fault', -, hcontra⟩ | ⟨count, files₂, hcopied, -⟩
      · cases hcontra
      · obtain ⟨hcontra, -⟩ := Work.run_fail (hcopy.symm.trans hcopied)
        cases hcontra

end Site

/-! ## Runs -/

theorem runStages_cons (site : Site) (shop : Workshop) (stage : Stage) (stages : List Stage)
    (files : Files) : runStages site shop (stage :: stages) files =
      if shop.cancelled stage then .stopped ⟨stage, .cancelled⟩ files
      else match settle stage ((site.perform shop stage).run files).1 with
        | .ok output =>
          .after ⟨stage, output⟩ (site.calls shop.platform stage)
            (runStages site shop stages ((site.perform shop stage).run files).2)
        | .error cause =>
          .failedAt ⟨stage, cause⟩ (site.calls shop.platform stage) ((site.perform shop stage).run files).2 :=
  rfl

/-- A run is stopped before its first stage, ends at it, or goes on after it. -/
theorem runStages_cases (site : Site) (shop : Workshop) (stage : Stage) (stages : List Stage)
    (files : Files) :
    (shop.cancelled stage = true ∧
      runStages site shop (stage :: stages) files = .stopped ⟨stage, .cancelled⟩ files) ∨
    shop.cancelled stage = false ∧ ∃ result files', (site.perform shop stage).run files = (result, files') ∧
      ((∃ cause, settle stage result = .error cause ∧ runStages site shop (stage :: stages) files =
          .failedAt ⟨stage, cause⟩ (site.calls shop.platform stage) files') ∨
        ∃ output, settle stage result = .ok output ∧ runStages site shop (stage :: stages) files =
          .after ⟨stage, output⟩ (site.calls shop.platform stage) (runStages site shop stages files')) := by
  rw [runStages_cons]
  by_cases hcancelled : shop.cancelled stage = true
  · rw [if_pos hcancelled]
    exact .inl ⟨hcancelled, rfl⟩
  · rw [if_neg hcancelled]
    cases (site.perform shop stage).run files with
    | mk result files' =>
      refine .inr ⟨Bool.eq_false_iff.mpr hcancelled, result, files', rfl, ?_⟩
      dsimp only
      cases settle stage result with
      | ok output => exact .inr ⟨output, rfl, rfl⟩
      | error cause => exact .inl ⟨cause, rfl, rfl⟩

/-- What a run leaves behind: the tree as it is, what the first stage leaves, or what is left after the stages
that follow it. -/
theorem runStages_files_cons (left : Files → Prop) (hnow : left files)
    (hfirst : ∀ result files', (site.perform shop stage).run files = (result, files') →
      left files' ∧ ∀ output, settle stage result = .ok output → left (runStages site shop stages files').files) :
    left (runStages site shop (stage :: stages) files).files := by
  rcases runStages_cases site shop stage stages files with ⟨-, hrun⟩ | ⟨-, result, files', hperform, hend⟩
  · rw [hrun]
    exact hnow
  · obtain ⟨hthere, hgo⟩ := hfirst result files' hperform
    rcases hend with ⟨cause, -, hrun⟩ | ⟨output, hsettle, hrun⟩
    · rw [hrun]
      exact hthere
    · rw [hrun]
      exact hgo output hsettle

/-- **What every stage does to the tree, a run does,** up to where other stages take over. Each stage starts from
a tree for which `inv` holds, and has to leave one. -/
theorem runStages_files (inv : Files → Prop) {rel : Files → Files → Prop} {more : List Stage}
    (hrefl : ∀ files, inv files → rel files files)
    (htrans : ∀ files files' files'', rel files files' → rel files' files'' → rel files files'')
    (hstep : ∀ stage ∈ stages, ∀ files result files', inv files →
      (site.perform shop stage).run files = (result, files') → rel files files' ∧ inv files')
    (hmore : ∀ files, inv files → rel files (runStages site shop more files).files) (hfiles : inv files) :
    rel files (runStages site shop (stages ++ more) files).files := by
  induction stages generalizing files with
  | nil => exact hmore files hfiles
  | cons stage stages ih =>
    refine runStages_files_cons _ (hrefl files hfiles) fun result files' hperform => ?_
    obtain ⟨hrel, hfiles'⟩ := hstep stage List.mem_cons_self files result files' hfiles hperform
    refine ⟨hrel, fun _ _ => htrans _ _ _ hrel ?_⟩
    exact ih (fun stage hmem => hstep stage (List.mem_cons_of_mem _ hmem)) hfiles'

theorem settle_eq_ok {output : Output} (h : settle stage result = .ok output)
    (hadvisory : stage.isAdvisory = false) : result = .ok output := by
  unfold settle at h
  split at h
  · exact h
  · rw [hadvisory, if_neg Bool.false_ne_true] at h
    cases h

/-- The runs that go through all of their stages, from one tree to another. -/
inductive Ran (site : Site) (shop : Workshop) : List Stage → Files → Files → Prop where
  | nil {files : Files} : Ran site shop [] files files
  | cons {stage : Stage} {stages : List Stage} {result : Except Fault Output} {files files' files'' : Files}
      (hperform : (site.perform shop stage).run files = (result, files'))
      (hok : stage.isAdvisory = false → ∃ output, result = .ok output)
      (rest : Ran site shop stages files' files'') : Ran site shop (stage :: stages) files files''

/-- A run without a failure has gone through all of its stages. -/
theorem ran_of_runStages (h : (runStages site shop stages files).failure = none) :
    Ran site shop stages files (runStages site shop stages files).files := by
  induction stages generalizing files with
  | nil => exact .nil
  | cons stage stages ih =>
    rcases runStages_cases site shop stage stages files with ⟨-, hrun⟩ | ⟨-, result, files', hperform, hend⟩
    · rw [hrun] at h
      cases h
    · rcases hend with ⟨cause, -, hrun⟩ | ⟨output, hsettle, hrun⟩
      · rw [hrun] at h
        cases h
      · rw [hrun] at h ⊢
        exact .cons hperform (fun hadvisory => ⟨output, settle_eq_ok hsettle hadvisory⟩) (ih h)

/-! ## A pamphlet -/

/-- A project with one page, and what else is in its root. -/
def pamphlet (more : Dict Location Entry) : Files where
  home := []
  entries :=
    ([(["p"], .dir), (["p", "book"], .dir), (["p", "book", "assets"], .dir),
      (["p", "book", "assets", "p.css"], .file (.ofText "p \x7b\x7d") false),
      (["p", "book", "book.html.erb"], .file (.ofText "<h1><%= title %></h1>\n") false)] :
        Dict Location Entry) ++ more

/-- What an old build of it has left. -/
def pamphletLeft : Dict Location Entry :=
  [(["p", "builds"], .dir), (["p", "builds", "pdf"], .dir),
   (["p", "builds", "pdf", "book.pdf"], .dir),
   (["p", "builds", "pdf", "book.pdf", "old.html"], .file (.ofText "old") true)]

/-- The pamphlet is to be printed. -/
def pamphletSite : Site where
  root := ⟨"p"⟩
  book := { title := "P", author := "A", identifier := "I" }
  format := .pdf

/-- Where the printed pamphlet goes. -/
def pamphletPrint : Location :=
  "p" :: (pamphletSite.area ++ [("book.pdf" : Raw)])

/-- A printer that does nothing but print, and no other tool. -/
def pamphletRunner : Runner := fun call files =>
  if call.tool = "prince" ∧ files.find? pamphletPrint ≠ some .dir then
    (.ok (.code 0), files.put pamphletPrint (.file (.ofText "%PDF") false))
  else (.ok (.code 1), files)

/-- What is needed to print it. -/
def pamphletShop : Workshop where
  buildDate := "today"
  runner := pamphletRunner

theorem ground_pamphletLeft : (pamphlet pamphletLeft).Ground pamphletSite.root ["p"] where
  proper := .of_entries (by unfold Dict.Sorted; decide +kernel) (by decide +kernel) (by decide +kernel)
  leads := by unfold Files.Leads; decide +kernel
  dir := by decide +kernel
  plain := .of_entries (by simp [pamphlet, pamphletLeft]) _

end Build

end Bindery
