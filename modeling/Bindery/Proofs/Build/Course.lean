import Bindery.Proofs.Build.Causes

/-!
# `Proofs.Build.Course` — the course of a run

A run is a row of stages that finish, and an ending. Each stage starts from the tree that the one before it
has left, and nothing is taken back (`Finished`). What ends the row is that no stage is left, that the build
is cancelled when the next stage is about to start, or that the next stage fails (`Ended`). One step of a run
either is such an ending or finishes a stage (`runStages_cases`), so that every run falls apart in this way
by induction on its stages (`runStages_eq_afterAll`). What the observer is told and which calls are made are
then read off the row and its ending.

**Contents.**
* `Finished` and `Ended`, the two parts of a run; `Run.afterAll`, which puts them together;
* `runStages_eq_afterAll` — every run has the two parts;
* `run_course` — all that a run amounts to.
-/

namespace Bindery.Build

variable {site : Site} {shop : Workshop} {files files' files'' : Files} {stage : Stage}
  {stages later : List Stage} {records : List Record}

/-! ## The parts of a run -/

/-- The stages that finish one after another, each on what the one before it has left. -/
inductive Finished (site : Site) (shop : Workshop) : List Record → Files → Files → Prop where
  | nil {files : Files} : Finished site shop [] files files
  | cons {stage : Stage} {output : Output} {result : Except Fault Output} {records : List Record}
      {files files' files'' : Files} (hpolled : shop.cancelled stage = false)
      (hperform : (site.perform shop stage).run files = (result, files'))
      (hsettle : settle stage result = .ok output) (rest : Finished site shop records files' files'') :
      Finished site shop (⟨stage, output⟩ :: records) files files''

/-- How a run ends when these stages are left. -/
inductive Ended (site : Site) (shop : Workshop) : List Stage → Files → Run → Prop where
  | done {files : Files} : Ended site shop [] files (.done files)
  | cancelled {stage : Stage} {later : List Stage} {files : Files} (hpolled : shop.cancelled stage = true) :
      Ended site shop (stage :: later) files (.stopped ⟨stage, .cancelled⟩ files)
  | failed {stage : Stage} {later : List Stage} {cause : Fault} {files files' : Files}
      (hpolled : shop.cancelled stage = false)
      (hperform : (site.perform shop stage).run files = (.error cause, files'))
      (hadvisory : stage.isAdvisory = false) :
      Ended site shop (stage :: later) files
        (.failedAt ⟨stage, cause⟩ (site.calls shop.platform stage) files')

/-- What an observer is told about a stage that finishes. -/
def Record.events (record : Record) : List Event :=
  [.started record.stage, .succeeded record]

/-- The calls of the stages that have finished. -/
def Site.callsOf (site : Site) (platform : Platform) (records : List Record) : List Tool.Call :=
  records.flatMap fun record => site.calls platform record.stage

/-- A build that goes on after stages have finished. -/
def Run.afterAll (site : Site) (platform : Platform) (records : List Record) (rest : Run) : Run where
  records := records ++ rest.records
  failure := rest.failure
  events := records.flatMap Record.events ++ rest.events
  calls := site.callsOf platform records ++ rest.calls
  files := rest.files

theorem Run.afterAll_cons (site : Site) (platform : Platform) (record : Record) (records : List Record)
    (rest : Run) :
    Run.afterAll site platform (record :: records) rest =
      .after record (site.calls platform record.stage) (.afterAll site platform records rest) := by
  simp [afterAll, after, Record.events, Site.callsOf]

/-! ## Every run -/

theorem settle_eq_error {result : Except Fault Output} {cause : Fault}
    (h : settle stage result = .error cause) : stage.isAdvisory = false ∧ result = .error cause := by
  unfold settle at h
  split at h
  · cases h
  · split at h
    · cases h
    · next hadvisory => exact ⟨Bool.eq_false_iff.mpr hadvisory, h⟩

/-- **A run is a row of finished stages and an ending.** -/
theorem runStages_eq_afterAll (site : Site) (shop : Workshop) (stages : List Stage) (files : Files) :
    ∃ records later between ending, stages = records.map Record.stage ++ later ∧
      Finished site shop records files between ∧ Ended site shop later between ending ∧
      runStages site shop stages files = .afterAll site shop.platform records ending := by
  induction stages generalizing files with
  | nil => exact ⟨[], [], files, .done files, rfl, .nil, .done, rfl⟩
  | cons stage stages ih =>
    rcases runStages_cases site shop stage stages files with
      ⟨hpolled, hrun⟩ | ⟨hpolled, result, files', hperform, hend⟩
    · exact ⟨[], stage :: stages, files, _, rfl, .nil, .cancelled hpolled, hrun⟩
    · rcases hend with ⟨cause, hsettle, hrun⟩ | ⟨output, hsettle, hrun⟩
      · -- only a stage that is not advisory hands its fault on
        obtain ⟨hadvisory, rfl⟩ := settle_eq_error hsettle
        exact ⟨[], stage :: stages, files, _, rfl, .nil, .failed hpolled hperform hadvisory, hrun⟩
      · obtain ⟨records, later, between, ending, rfl, hfinished, hended, hrest⟩ := ih files'
        refine ⟨⟨stage, output⟩ :: records, later, between, ending, rfl,
          .cons hpolled hperform hsettle hfinished, hended, ?_⟩
        rw [hrun, hrest, Run.afterAll_cons]

/-! ## What an observer is told -/

theorem finished_events (records : List Record) :
    (records.flatMap Record.events).filterMap Event.finished? =
      records.map fun record => (record.stage, .success record.output) := by
  induction records with
  | nil => rfl
  | cons record records ih => rw [List.flatMap_cons, List.filterMap_append, ih]; rfl

/-- A stage that may only warn does not fail. -/
theorem ne_validate (hadvisory : stage.isAdvisory = false) : stage ≠ .validate := by
  rintro rfl
  cases hadvisory

/-- A stage with a page makes no call. -/
theorem calls_of_page {page : Page} (hpage : stage.page? = some page) (platform : Platform) :
    site.calls platform stage = [] := by
  cases stage <;> first | rfl | cases hpage

/-- Of the faults that a failing stage ends with, none is that of a stage that was never started, and one of
a template comes from the page of the stage. Then nothing has been done. -/
structure FailedFor (site : Site) (shop : Workshop) (failure : Failure) (files files' : Files) : Prop where
  not_advisory : failure.stage ≠ .validate
  not_cancelled : failure.cause ≠ .cancelled
  same_format : ∀ stages build, failure.cause ≠ .formatMismatch stages build
  page : ∀ cause, failure.cause = .template cause → ∃ page, failure.stage.page? = some page ∧
    (Template.Engine.below files site.sourceDir shop.importLimit).resolve (site.binding shop) page.template =
      .error cause ∧
    site.calls shop.platform failure.stage = [] ∧ files' = files

theorem failedFor_of_perform {cause : Fault} (hadvisory : stage.isAdvisory = false)
    (hperform : (site.perform shop stage).run files = (.error cause, files')) :
    FailedFor site shop ⟨stage, cause⟩ files files' := by
  rcases site.perform_error shop hperform with hplain | ⟨page, fault, hpage, rfl, hresolve, rfl⟩
  · refine ⟨ne_validate hadvisory, ?_, ?_, ?_⟩
    · rintro rfl
      exact hplain
    · rintro stages build rfl
      exact hplain
    · rintro fault rfl
      exact hplain.elim
  · refine ⟨ne_validate hadvisory, nofun, nofun, fun fault' heq => ?_⟩
    cases heq
    exact ⟨page, hpage, hresolve, calls_of_page hpage _, rfl⟩

/-! ## The course of a run -/

/-- **The course of a run.** A build on a site for another format does nothing at all. Otherwise a prefix of
the stages finishes, each on the tree that the one before it has left, and the observer is told of the start
and the success of each of them and of nothing after them but the failure. The run ends well exactly if the
prefix is all of the stages, and then these are the records of its report. If it does not, the next stage was
either not started, since the build was cancelled when it was about to start, or it was started and failed.
Then the observer is told of the failure once, in the words of its cause, and the stage is not an advisory
one. A fault of a template can only come from a stage with a page, which then has changed nothing. -/
theorem run_course (format : Format) (site : Site) (shop : Workshop) (files : Files) :
    (format ≠ site.format →
      ∃ first later, format.stages = first :: later ∧
        (run format site shop files).result site =
          .error ⟨first, .formatMismatch format site.format⟩ ∧
        (run format site shop files).events = [] ∧ (run format site shop files).calls = [] ∧
        (run format site shop files).files = files) ∧
    (format = site.format →
      ∃ records later between, format.stages = records.map Record.stage ++ later ∧
        Finished site shop records files between ∧
        ((∃ report, (run format site shop files).result site = .ok report) ↔ later = []) ∧
        (later = [] →
          (run format site shop files).result site = .ok ⟨format, site.artifact, records⟩ ∧
          (run format site shop files).events = records.flatMap Record.events ∧
          (run format site shop files).calls = site.callsOf shop.platform records ∧
          (run format site shop files).files = between) ∧
        ∀ stage rest, later = stage :: rest →
          (shop.cancelled stage = true ∧
            (run format site shop files).result site = .error ⟨stage, .cancelled⟩ ∧
            (run format site shop files).events = records.flatMap Record.events ∧
            (run format site shop files).calls = site.callsOf shop.platform records ∧
            (run format site shop files).files = between) ∨
          (shop.cancelled stage = false ∧ ∃ cause,
            (site.perform shop stage).run between = (.error cause, (run format site shop files).files) ∧
            (run format site shop files).result site = .error ⟨stage, cause⟩ ∧
            (run format site shop files).events =
              records.flatMap Record.events ++ [.started stage, .failed ⟨stage, cause⟩] ∧
            (run format site shop files).events.filterMap Event.finished? =
              (records.map fun record => (record.stage, .success record.output)) ++
                [(stage, .failure cause.kind cause.message)] ∧
            (run format site shop files).calls =
              site.callsOf shop.platform records ++ site.calls shop.platform stage ∧
            FailedFor site shop ⟨stage, cause⟩ between (run format site shop files).files)) := by
  constructor
  · intro hother
    have hrun : run format site shop files =
        .stopped ⟨format.stages.head?.getD .clean, .formatMismatch format site.format⟩ files := if_neg hother
    have hfirst : format.stages = .clean :: format.stages.tail := by
      cases format <;> rfl
    refine ⟨.clean, format.stages.tail, hfirst, ?_⟩
    rw [hrun, hfirst]
    exact ⟨rfl, rfl, rfl, rfl⟩
  · rintro rfl
    obtain ⟨records, later, between, ending, hstages, hfinished, hended, hcourse⟩ :=
      runStages_eq_afterAll site shop site.format.stages files
    have hrun : run site.format site shop files = .afterAll site shop.platform records ending :=
      (if_pos rfl).trans hcourse
    refine ⟨records, later, between, hstages, hfinished, ?_⟩
    rw [hrun]
    cases hended with
    | done =>
      refine ⟨⟨fun _ => rfl, fun _ => ⟨_, rfl⟩⟩, fun _ => ?_, nofun⟩
      simp [Run.afterAll, Run.done, Run.result]
    | cancelled hpolled =>
      refine ⟨⟨nofun, nofun⟩, nofun, fun stage rest heq => .inl ?_⟩
      cases heq
      simp [Run.afterAll, Run.stopped, Run.result, hpolled]
    | failed hpolled hperform hadvisory =>
      refine ⟨⟨nofun, nofun⟩, nofun, fun stage rest heq => .inr ?_⟩
      cases heq
      refine ⟨hpolled, _, hperform, rfl, rfl, ?_, rfl, failedFor_of_perform hadvisory hperform⟩
      -- the start of the stage is no end of one
      show (records.flatMap Record.events ++ _).filterMap Event.finished? = _
      rw [List.filterMap_append, finished_events]
      rfl

/-- A pamphlet that is to be printed is not built as a container. As a print it goes through all stages. -/
theorem run_course_pamphlet :
    ((run .epub pamphletSite pamphletShop (pamphlet [])).result pamphletSite =
        .error ⟨.clean, .formatMismatch .epub .pdf⟩ ∧
      (run .epub pamphletSite pamphletShop (pamphlet [])).files = pamphlet []) ∧
    ∃ records between, Format.pdf.stages = records.map Record.stage ∧
      Finished pamphletSite pamphletShop records (pamphlet []) between ∧
      (run .pdf pamphletSite pamphletShop (pamphlet [])).result pamphletSite =
        .ok ⟨.pdf, pamphletSite.artifact, records⟩ ∧
      (run .pdf pamphletSite pamphletShop (pamphlet [])).files = between := by
  constructor
  · obtain ⟨first, later, hstages, hresult, -, -, hfiles⟩ :=
      (run_course .epub pamphletSite pamphletShop (pamphlet [])).1 (by decide)
    cases hstages
    exact ⟨hresult, hfiles⟩
  · obtain ⟨records, later, between, hstages, hfinished, hok, hdone, -⟩ :=
      (run_course .pdf pamphletSite pamphletShop (pamphlet [])).2 rfl
    have hfailure : (run .pdf pamphletSite pamphletShop (pamphlet [])).failure = none := by decide +kernel
    have hlater : later = [] := hok.mp ⟨_, by rw [Run.result, hfailure]⟩
    obtain ⟨hresult, -, -, hfiles⟩ := hdone hlater
    rw [hlater, List.append_nil] at hstages
    exact ⟨records, between, hstages, hfinished, hresult, hfiles⟩

end Bindery.Build
