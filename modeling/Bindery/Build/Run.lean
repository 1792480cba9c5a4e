import Bindery.Build.Site
import Bindery.Json

/-!
# `Bindery.Build.Run` — running the stages

The stages of a format run one after another. Before each one it is asked whether the build is
cancelled; the first stage that fails ends the build, and what was done stays. An advisory stage does
not fail: what it finds becomes a warning.

**Contents.** `Record`, a finished stage; `Report`, a finished build; `Event`, what an observer is
told, with `Event.finished?`; `Run`, all that comes of a build; `runStages` and `run`; `Report.toJson`.
-/

namespace Bindery.Build

/-- A stage that has finished. -/
structure Record where
  stage : Stage
  output : Output
deriving DecidableEq, Repr

/-- A build that has finished. -/
structure Report where
  format : Format
  artifact : Path
  records : List Record
deriving DecidableEq, Repr

/-- What an observer is told. -/
inductive Event where
  | started (stage : Stage)
  | succeeded (record : Record)
  | failed (failure : Failure)
deriving DecidableEq, Repr

/-- The result of a stage, as an observer is shown it. -/
inductive StageResult where
  | success (output : Output)
  | failure (kind message : String)
deriving DecidableEq, Repr

/-- The stage that has finished with an event and its result. No stage finishes when one starts. -/
def Event.finished? : Event → Option (Stage × StageResult)
  | .started _ => none
  | .succeeded record => some (record.stage, .success record.output)
  | .failed failure => some (failure.stage, .failure failure.cause.kind failure.cause.message)

/-- All that comes of a build. -/
structure Run where
  /-- the stages that have finished, in order -/
  records : List Record
  /-- why it ended early, if it did -/
  failure : Option Failure
  events : List Event
  calls : List Tool.Call
  files : Files

/-- What a stage gives when an advisory one only warns. -/
def settle (stage : Stage) : Except Fault Output → Except Fault Output
  | .ok output => .ok output
  | .error fault => if stage.isAdvisory then .ok { warnings := [fault.message] } else .error fault

namespace Run

/-- A build that has nothing left to do. -/
def done (files : Files) : Run :=
  ⟨[], none, [], [], files⟩

/-- A build that ends before a stage. -/
def stopped (failure : Failure) (files : Files) : Run :=
  ⟨[], some failure, [], [], files⟩

/-- A build that goes on after a stage has finished. -/
def after (record : Record) (calls : List Tool.Call) (rest : Run) : Run where
  records := record :: rest.records
  failure := rest.failure
  events := .started record.stage :: .succeeded record :: rest.events
  calls := calls ++ rest.calls
  files := rest.files

/-- A build that ends at a stage. -/
def failedAt (failure : Failure) (calls : List Tool.Call) (files : Files) : Run where
  records := []
  failure := some failure
  events := [.started failure.stage, .failed failure]
  calls := calls
  files := files

end Run

/-- Runs stages in order. -/
def runStages (site : Site) (shop : Workshop) : List Stage → Files → Run
  | [], files => .done files
  | stage :: stages, files =>
    if shop.cancelled stage then .stopped ⟨stage, .cancelled⟩ files
    else
      let (result, files) := (site.perform shop stage).run files
      let calls := site.calls shop.platform stage
      match settle stage result with
      | .ok output => .after ⟨stage, output⟩ calls (runStages site shop stages files)
      | .error cause => .failedAt ⟨stage, cause⟩ calls files

/-- Runs the stages of a format on a site, which must be for that format. -/
def run (format : Format) (site : Site) (shop : Workshop) (files : Files) : Run :=
  if format = site.format then runStages site shop format.stages files
  else .stopped ⟨format.stages.head?.getD .clean, .formatMismatch format site.format⟩ files

/-- The report of a build, or why there is none. -/
def Run.result (run : Run) (site : Site) : Except Failure Report :=
  match run.failure with
  | some failure => .error failure
  | none => .ok ⟨site.format, site.artifact, run.records⟩

/-! ## Reports -/

/-- The warnings of a build, each with its stage. -/
def Report.warnings (report : Report) : List (Stage × String) :=
  report.records.flatMap fun record => record.output.warnings.map (record.stage, ·)

/-- A finished stage in JSON. -/
def Record.toJson (record : Record) : Json :=
  .object
    [("stage", .text record.stage.name),
     ("result", .object
       [("status", .text "success"), ("artifact", .ofText? (record.output.artifact.map Path.text)),
        ("warnings", .ofTexts record.output.warnings)])]

/-- A report in JSON. -/
def Report.toJson (report : Report) : Json :=
  .object
    [("format", .text report.format.name), ("artifact", .text report.artifact.text),
     ("stages", .array (report.records.map Record.toJson))]

end Bindery.Build
