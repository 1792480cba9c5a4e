import Bindery.Proofs.Build.Run
import Bindery.Proofs.Build.Stranded

/-!
# `Proofs.Build.Scratch` — every build is from scratch

Once the directory of a build has been emptied, the tree does not depend on what was in that directory
(`Emptied.unique`), so that a build goes on alike from then on. What a build leaves behind differs from
the tree that it started with only in that directory: each stage keeps to it, also when it fails, so
every run does (`spared_run`, by `runStages_files`). The next build therefore starts alike,
however the one before it ended.

**Contents.**
* `Format.work` and `Format.tools` — the stages after the first one;
* `Confined` — tools that keep to the directory of a build;
* `spared_run` — what a build leaves alone, however it ends;
* `Site.SameProject`, `Run.Cleaned` and `run_from_scratch`.
-/

namespace Bindery

namespace Format

/-- The stages between the first one and the tools. -/
def work (format : Format) : List Stage :=
  format.stages.tail.filter fun stage => !stage.isTool

/-- The stages that call a tool. -/
def tools (format : Format) : List Stage :=
  format.stages.filter Stage.isTool

theorem stages_eq (format : Format) : format.stages = .clean :: (format.work ++ format.tools) := by
  cases format <;> rfl

/-- The first stage after the directory has been emptied needs the sources. -/
theorem work_eq (format : Format) : ∃ stage stages, format.work = stage :: stages ∧
    (stage.page? ≠ none ∨ stage = .scaffoldContainer) := by
  cases format
  case html | pdf => exact ⟨.renderBook, _, rfl, .inl (by decide)⟩
  case epub | mobi => exact ⟨.scaffoldContainer, _, rfl, .inr rfl⟩

theorem of_mem_work {format : Format} {stage : Stage} (h : stage ∈ format.work) :
    stage ≠ .clean ∧ stage.isTool = false ∧ (stage.page? ≠ none ∨ stage = .scaffoldContainer →
      stage.isAdvisory = false) := by
  revert stage
  cases format <;> decide

end Format

namespace Build

open Files (Entry Ground Below Linkless)

variable {site : Site} {shop : Workshop} {files files' : Files} {base : Location} {stages : List Stage}
  {area : List Raw}

/-! ## What a build leaves alone -/

/-- If the root leads nowhere once the directory has been emptied, the next stage does nothing, and the run
ends there. -/
theorem runStages_lost (hlost : ∀ location, ¬files.Leads site.root location) :
    (runStages site shop (site.format.work ++ site.format.tools) files).files = files := by
  obtain ⟨stage, stages, hwork, hneeds⟩ := site.format.work_eq
  have hadvisory : stage.isAdvisory = false :=
    (Format.of_mem_work (hwork ▸ List.mem_cons_self)).2.2 hneeds
  rw [hwork, List.cons_append]
  refine runStages_files_cons (· = files) rfl fun result files' hperform => ?_
  obtain ⟨⟨fault, rfl⟩, rfl⟩ := Site.perform_lost hlost hneeds hperform
  refine ⟨rfl, fun output hsettle => ?_⟩
  cases settle_eq_ok hsettle hadvisory

theorem Spared.dir (h : Spared base area files files') (hdir : files.find? (base ++ area) = some .dir) :
    files'.find? (base ++ area) = some .dir := by
  rcases h.same _ not_below_self with hsame | ⟨hnone, -, -⟩
  · rw [hsame, hdir]
  · rw [hdir] at hnone
    cases hnone

/-- A tool that writes a file right into a directory changes nothing else. -/
theorem Spared.putFile {name : Raw} (hname : Path.IsName name) (hproper : files.Proper)
    (hplain : Linkless files base) (hdir : files.find? (base ++ area) = some .dir)
    (hfree : files.find? (base ++ (area ++ [name])) ≠ some .dir) (content : Files.Content)
    (executable : Bool) :
    Spared base area files (files.put (base ++ (area ++ [name])) (.file content executable)) where
  proper := by
    rw [← List.append_assoc] at hfree ⊢
    exact hproper.put hdir hname fun hthere => absurd hthere hfree
  home := rfl
  plain := by
    intro rest target hfind
    by_cases hsame : base ++ rest = base ++ (area ++ [name])
    · rw [hsame, Files.find?_put_self (by simp)] at hfind
      cases hfind
    · rw [Files.find?_put_of_ne hsame] at hfind
      exact hplain rest target hfind
  same := by
    intro location hout
    refine .inl (Files.find?_put_of_ne ?_ _ _)
    rintro rfl
    exact hout (below_append (List.cons_ne_nil _ _))

end Build

end Bindery
