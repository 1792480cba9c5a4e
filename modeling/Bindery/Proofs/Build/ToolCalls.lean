import Bindery.Proofs.Build.Course
import Bindery.Proofs.Build.ToolPaths

/-!
# `Proofs.Build.ToolCalls` — which tools a run calls, and when

Three stages have a tool, and a format has at most two of them, so that the calls of a run are a part of a
short list. Where in the run a call stands is found by induction on the stages: those in front of it have
finished, and the call is made on the tree that they have left (`Called`). What has to have happened before
a call is then a fact about the order of stages, since no stage occurs twice in a format (`front_eq`).

That a run calls nothing else is said without looking at its record of calls: a runner that does the same
on these calls, and anything on all others, gives the same run (`runStages_runner`).

**Contents.**
* `Stage.tool?` and `Format.toolNames` — the tool of a stage, and those of a format;
* `perform_call` — the stage of a call hands it to the runner once;
* `Called` and `exists_called` — where a call stands;
* `front_eq`, `package_before` and `rendered_before` — what has finished by then;
* `runStages_runner` — nothing else is called;
* `failure_of_started` — a stage that has no call to make;
* `run_calls` — all that holds of the calls of a run.
-/

namespace Bindery

/-- What a stage calls its tool for. -/
def Stage.tool? : Stage → Option String
  | validate => some "epubcheck"
  | convertToDevice => some "kindlegen"
  | convertToPdf => some "prince"
  | _ => none

/-- The tools of a format, in the order in which it calls them. -/
def Format.toolNames : Format → List String
  | html => []
  | epub => ["epubcheck"]
  | mobi => ["epubcheck", "kindlegen"]
  | pdf => ["prince"]

theorem Format.filterMap_tool? (format : Format) : format.stages.filterMap Stage.tool? = format.toolNames := by
  cases format <;> rfl

namespace Build

open Site

variable {site : Site} {shop : Workshop} {files files' between : Files} {stage : Stage}
  {stages later : List Stage} {records before : List Record} {call : Tool.Call} {platform : Platform}

/-! ## The call of a stage -/

theorem mem_calls : call ∈ site.calls platform stage ↔ site.call? platform stage = some (.ok call) := by
  unfold Site.calls
  split
  · next made hmade =>
    rw [hmade, List.mem_singleton]
    constructor
    · rintro rfl
      rfl
    · intro h
      cases h
      rfl
  · next hnone =>
    constructor
    · intro h
      cases h
    · intro h
      exact (hnone call h).elim

theorem tool_of_command {tool : String} {command : List String} {args : List Raw}
    (h : site.command tool command args = .ok call) : call.tool = tool := by
  unfold Site.command at h
  cases command with
  | nil => cases h
  | cons program given =>
    cases h
    rfl

/-- A stage makes calls for its own tool only. -/
theorem tool?_of_call? (h : site.call? platform stage = some (.ok call)) :
    stage.tool? = some call.tool := by
  cases stage with
  | validate =>
    obtain ⟨archive, -, hcommand⟩ := bind_eq_ok.mp (Option.some.inj h)
    rw [tool_of_command hcommand]
    rfl
  | convertToDevice =>
    have hcall : site.deviceCall platform = .ok call := Option.some.inj h
    unfold deviceCall at hcall
    split at hcall
    · cases hcall
    · obtain ⟨archive, -, hcommand⟩ := bind_eq_ok.mp hcall
      rw [tool_of_command hcommand]
      rfl
  | convertToPdf =>
    rw [tool_of_command (Option.some.inj h)]
    rfl
  | _ => cases h

/-- The tools that stages call are among the tools of the stages, in their order. -/
theorem calls_sublist (site : Site) (platform : Platform) (stages : List Stage) :
    ((stages.flatMap (site.calls platform)).map Tool.Call.tool).Sublist (stages.filterMap Stage.tool?) := by
  induction stages with
  | nil => exact List.Sublist.slnil
  | cons stage stages ih =>
    rw [List.flatMap_cons, List.map_append]
    cases hcalls : site.calls platform stage with
    | nil =>
      rw [List.map_nil, List.nil_append]
      exact ih.trans ((List.sublist_cons_self stage stages).filterMap _)
    | cons call more =>
      have hmem : call ∈ site.calls platform stage := hcalls ▸ List.mem_cons_self
      have hcall := mem_calls.mp hmem
      have hone : site.calls platform stage = [call] := by
        unfold Site.calls
        rw [hcall]
      rw [hone] at hcalls
      cases hcalls
      rw [List.filterMap_cons_some (tool?_of_call? hcall)]
      exact ih.cons_cons _

/-! ## The calls of a run -/

/-- The calls of a run are those of a front of its stages. -/
theorem exists_calls_eq (site : Site) (shop : Workshop) (stages : List Stage) (files : Files) :
    ∃ front, front <+: stages ∧
      (runStages site shop stages files).calls = front.flatMap (site.calls shop.platform) := by
  induction stages generalizing files with
  | nil => exact ⟨[], List.prefix_rfl, rfl⟩
  | cons stage stages ih =>
    rcases runStages_cases site shop stage stages files with ⟨-, hrun⟩ | ⟨-, result, files', -, hend⟩
    · exact ⟨[], List.nil_prefix, by rw [hrun]; rfl⟩
    · rcases hend with ⟨cause, -, hrun⟩ | ⟨output, -, hrun⟩
      · refine ⟨[stage], List.prefix_append [stage] stages, ?_⟩
        rw [hrun]
        exact (List.append_nil _).symm
      · obtain ⟨front, hfront, hcalls⟩ := ih files'
        refine ⟨stage :: front, List.cons_prefix_cons.mpr ⟨rfl, hfront⟩, ?_⟩
        rw [hrun, List.flatMap_cons, ← hcalls]
        rfl

/-- The stage of a call hands it to the runner once and does nothing else to the tree. It ends well exactly when the
call has come to a successful end. -/
theorem perform_call (h : site.call? shop.platform stage = some (.ok call)) (files : Files) :
    ((site.perform shop stage).run files).2 = (shop.runner call files).2 ∧
      (((site.perform shop stage).run files).1 = .ok (site.toolOutput stage) ↔
        (shop.runner call files).1 = .ok (.code 0)) := by
  have hpage : stage.page? = none := by
    cases stage <;> first | rfl | cases h
  have hperform : (site.perform shop stage).run files =
      (runCall shop.runner call >>= fun _ => return site.toolOutput stage : Work Output).run files := by
    unfold perform
    rw [hpage, h]
    rfl
  rw [hperform, run_bind, runCall_run]
  cases hrunner : shop.runner call files with
  | mk outcome left =>
    cases outcome with
    | error fault => exact ⟨rfl, ⟨nofun, nofun⟩⟩
    | ok exit =>
      by_cases hsuccess : exit = .code 0
      · subst hsuccess
        exact ⟨rfl, ⟨fun _ => rfl, fun _ => rfl⟩⟩
      · have hcheck : call.check exit = .error (.failed call.tool call.program exit) :=
          if_neg fun hexit => hsuccess (of_decide_eq_true hexit)
        dsimp only
        rw [hcheck]
        exact ⟨rfl, ⟨nofun, fun hok => absurd (Except.ok.inj hok) hsuccess⟩⟩

/-- A call of a run: these stages have finished, and this one makes the call on the tree they have left. The tree
that the stage leaves is the one that the runner has left, handed the call once. -/
structure Called (site : Site) (shop : Workshop) (files : Files) (before : List Record) (stage : Stage)
    (between : Files) (call : Tool.Call) : Prop where
  finished : Finished site shop before files between
  started : shop.cancelled stage = false
  made : site.call? shop.platform stage = some (.ok call)
  applied : ((site.perform shop stage).run between).2 = (shop.runner call between).2
  succeeds : ((site.perform shop stage).run between).1 = .ok (site.toolOutput stage) ↔
    (shop.runner call between).1 = .ok (.code 0)

theorem Called.of_made (hfinished : Finished site shop before files between) (hstarted : shop.cancelled stage = false)
    (hmade : site.call? shop.platform stage = some (.ok call)) :
    Called site shop files before stage between call :=
  ⟨hfinished, hstarted, hmade, (perform_call hmade between).1, (perform_call hmade between).2⟩

/-- The call of a stage that ends well has ended well itself. -/
theorem exit_of_settle {result : Except Fault Output} {output : Output}
    (hperform : (site.perform shop stage).run files = (result, files'))
    (hmade : site.call? shop.platform stage = some (.ok call))
    (hsettle : settle stage result = .ok output) (hadvisory : stage.isAdvisory = false) :
    (shop.runner call files).1 = .ok (.code 0) := by
  have htool : stage.isTool = true := by
    rw [← call?_isSome site shop.platform stage, hmade]
    rfl
  obtain rfl := settle_eq_ok hsettle hadvisory
  rcases run_tool htool hperform with ⟨⟨fault, hfault⟩, -⟩ | ⟨call', hmade', -, hexit⟩
  · cases hfault
  · rw [hmade] at hmade'
    cases hmade'
    obtain ⟨exit, hrunner, hsuccess⟩ := hexit output rfl
    have hcode : exit = .code 0 := of_decide_eq_true hsuccess
    rw [hrunner, hcode]

/-- **Every call of a run has its place in it.** If the run ends well, so does each call that is not
advisory. -/
theorem exists_called (h : call ∈ (runStages site shop stages files).calls) :
    ∃ before stage later between, stages = before.map Record.stage ++ stage :: later ∧
      Called site shop files before stage between call ∧
      before <+: (runStages site shop stages files).records ∧
      ((runStages site shop stages files).failure = none → stage.isAdvisory = false →
        (shop.runner call between).1 = .ok (.code 0)) := by
  induction stages generalizing files with
  | nil => cases h
  | cons stage stages ih =>
    rcases runStages_cases site shop stage stages files with
      ⟨-, hrun⟩ | ⟨hpolled, result, files', hperform, hend⟩
    · rw [hrun] at h
      cases h
    -- a call is of the first stage, or of the run after it
    · rcases hend with ⟨cause, -, hrun⟩ | ⟨output, hsettle, hrun⟩
      · rw [hrun] at h ⊢
        exact ⟨[], stage, stages, files, rfl, Called.of_made .nil hpolled (mem_calls.mp h), List.nil_prefix, nofun⟩
      · rw [hrun] at h ⊢
        rcases List.mem_append.mp h with hfirst | hrest
        · have hmade := mem_calls.mp hfirst
          refine ⟨[], stage, stages, files, rfl, Called.of_made .nil hpolled hmade, List.nil_prefix, ?_⟩
          intro _ hadvisory
          exact exit_of_settle hperform hmade hsettle hadvisory
        · obtain ⟨before, stage', later, between, rfl, hcalled, hprefix, hexit⟩ := ih hrest
          refine ⟨⟨stage, output⟩ :: before, stage', later, between, rfl,
            .of_made (.cons hpolled hperform hsettle hcalled.finished) hcalled.started hcalled.made, ?_, hexit⟩
          exact List.cons_prefix_cons.mpr ⟨rfl, hprefix⟩

/-! ## What has finished before a call -/

/-- No stage occurs twice, so that the stages in front of one are known. -/
theorem front_eq {format : Format} {front : List Stage} (h : format.stages = front ++ stage :: later) :
    front = format.stages.takeWhile (· ≠ stage) := by
  have hnodup : format.stages.Nodup := by
    cases format <;> decide
  rw [h] at hnodup
  have hfront : ∀ other ∈ front, decide (other ≠ stage) = true := by
    intro other hmem
    have hne := (List.nodup_append.mp hnodup).2.2 other hmem stage List.mem_cons_self
    exact decide_eq_true hne
  rw [h, List.takeWhile_append_of_pos hfront, List.takeWhile_cons_of_neg (by simp), List.append_nil]

theorem mem_stages {format : Format} {front : List Stage} (h : format.stages = front ++ stage :: later) :
    stage ∈ format.stages := by
  rw [h]
  exact List.mem_append_right front List.mem_cons_self

/-- The container is packed before it is checked or converted. -/
theorem package_before {format : Format} {front : List Stage}
    (h : format.stages = front ++ stage :: later) (hstage : stage = .validate ∨ stage = .convertToDevice) :
    .package ∈ front := by
  have hmem := mem_stages h
  rw [front_eq h]
  clear h
  rcases hstage with rfl | rfl
  · cases format <;> revert hmem <;> decide
  · cases format <;> revert hmem <;> decide

/-- The book is rendered and the assets are copied before it is printed. -/
theorem rendered_before {format : Format} {front : List Stage}
    (h : format.stages = front ++ .convertToPdf :: later) : .renderBook ∈ front ∧ .copyAssets ∈ front := by
  have hmem := mem_stages h
  rw [front_eq h]
  clear h
  cases format <;> revert hmem <;> decide

/-! ## Nothing else is called -/

/-- A stage does the same with a runner that does the same on its call. -/
theorem perform_runner {runner : Runner}
    (h : ∀ call ∈ site.calls shop.platform stage, runner call = shop.runner call) :
    site.perform { shop with runner := runner } stage = site.perform shop stage := by
  cases hpage : stage.page? with
  | some page =>
    rw [perform_page hpage, perform_page hpage]
    rfl
  | none =>
    cases hmade : site.call? shop.platform stage with
    | none =>
      unfold perform
      rw [hpage, hmade]
    | some made =>
      cases made with
      | error fault =>
        unfold perform
        rw [hpage, hmade]
        rfl
      | ok call =>
        have hsame : runner call = shop.runner call := h call (mem_calls.mpr hmade)
        have hrun : runCall runner call = runCall shop.runner call := by
          unfold runCall
          rw [hsame]
        unfold perform
        rw [hpage, hmade]
        show (do runCall runner call; return site.toolOutput stage : Work Output) = _
        rw [hrun]
        rfl

/-- **A run depends on the runner only at its own calls.** -/
theorem runStages_runner {runner : Runner}
    (h : ∀ call ∈ (runStages site shop stages files).calls, runner call = shop.runner call) :
    runStages site { shop with runner := runner } stages files = runStages site shop stages files := by
  induction stages generalizing files with
  | nil => rfl
  | cons stage stages ih =>
    rw [runStages_cons] at h
    rw [runStages_cons, runStages_cons]
    cases hpolled : shop.cancelled stage with
    | true => rfl
    | false =>
      rw [hpolled, if_neg Bool.false_ne_true] at h
      rw [if_neg Bool.false_ne_true, if_neg Bool.false_ne_true]
      cases hsettle : settle stage ((site.perform shop stage).run files).1 with
      | error cause =>
        rw [hsettle] at h
        rw [perform_runner h, hsettle]
      | ok output =>
        rw [hsettle] at h
        have hfirst : ∀ call ∈ site.calls shop.platform stage, runner call = shop.runner call :=
          fun call hmem => h call (List.mem_append_left _ hmem)
        rw [perform_runner hfirst, hsettle]
        simp only [ih fun call hmem => h call (List.mem_append_right _ hmem)]

/-! ## A stage without a call to make -/

/-- A stage that has no call to make fails when it is started. -/
theorem perform_of_error {fault : Fault} (h : site.call? shop.platform stage = some (.error fault)) :
    (site.perform shop stage).run files = (.error fault, files) := by
  have htool : stage.isTool = true := by
    rw [← call?_isSome site shop.platform stage, h]
    rfl
  have hpage : stage.page? = none := by
    cases stage <;> first | rfl | cases htool
  unfold perform
  rw [hpage, h]
  rfl

/-- A run ends at a stage that has no call to make, if it gets there. -/
theorem failure_of_started {fault : Fault} (h : site.call? shop.platform stage = some (.error fault))
    (hadvisory : stage.isAdvisory = false)
    (hstarted : .started stage ∈ (runStages site shop stages files).events) :
    (runStages site shop stages files).failure = some ⟨stage, fault⟩ := by
  induction stages generalizing files with
  | nil => cases hstarted
  | cons first stages ih =>
    rcases runStages_cases site shop first stages files with
      ⟨-, hrun⟩ | ⟨-, result, files', hperform, hend⟩
    · rw [hrun] at hstarted
      cases hstarted
    -- the first stage is this one, and fails; or it starts later, in the run after the first stage
    · by_cases hfirst : first = stage
      · subst hfirst
        rw [perform_of_error h] at hperform
        cases hperform
        have hsettle : settle first (.error fault) = .error fault := by
          unfold settle
          simp only [hadvisory, Bool.false_eq_true, if_false]
        rcases hend with ⟨cause, hcause, hrun⟩ | ⟨output, houtput, -⟩
        · rw [hsettle] at hcause
          cases hcause
          rw [hrun]
          rfl
        · rw [hsettle] at houtput
          cases houtput
      · rcases hend with ⟨cause, -, hrun⟩ | ⟨output, -, hrun⟩
        · rw [hrun] at hstarted
          simp only [Run.failedAt, List.mem_cons, List.not_mem_nil, Event.started.injEq, reduceCtorEq,
            or_false] at hstarted
          exact absurd hstarted.symm hfirst
        · rw [hrun] at hstarted ⊢
          simp only [Run.after, List.mem_cons, Event.started.injEq, reduceCtorEq, false_or] at hstarted
          rcases hstarted with heq | hrest
          · exact absurd heq.symm hfirst
          · exact ih hrest

/-! ## All calls of a run -/

/-- No two stages call the same tool. -/
theorem eq_of_tool? {stage other : Stage} (h : stage.tool? = other.tool?) (hsome : other.tool? ≠ none) :
    stage = other := by
  revert h hsome
  cases stage <;> cases other <;> decide

theorem stage_of_tool {other : Stage} (h : site.call? platform stage = some (.ok call))
    (ht : other.tool? = some call.tool) : stage = other := by
  apply eq_of_tool? ((tool?_of_call? h).trans ht.symm)
  rw [ht]
  exact Option.some_ne_none _

/-- A stage without a program makes no call. -/
theorem not_called {other : Stage} (hprogram : site.program? platform other = none) {tool : String}
    (ht : other.tool? = some tool) (h : site.call? platform stage = some (.ok call)) : call.tool ≠ tool := by
  rintro rfl
  obtain rfl := stage_of_tool h ht
  obtain ⟨-, -, program, hsome, -⟩ := call?_eq_ok h
  rw [hprogram] at hsome
  cases hsome

/-- A tool without a program is not called in a run. -/
theorem never_called {other : Stage} (hprogram : site.program? shop.platform other = none) {tool : String}
    (ht : other.tool? = some tool) : ∀ call ∈ (runStages site shop stages files).calls, call.tool ≠ tool := by
  intro call hmem
  obtain ⟨_, _, _, _, -, hcalled, -⟩ := exists_called hmem
  exact not_called hprogram ht hcalled.made

/-- A run that ends well has not failed at any stage. -/
theorem failure_of_result {run : Run} {report : Report} (h : run.result site = .ok report) :
    run.failure = none := by
  cases hfailure : run.failure with
  | none => rfl
  | some failure =>
    rw [Run.result, hfailure] at h
    cases h

/-- The container is packed when it is handed to a tool. -/
theorem called_with_archive {format : Format} {before : List Record}
    (hstages : format.stages = before.map Record.stage ++ stage :: later)
    (h : site.call? platform stage = some (.ok call))
    (ht : call.tool = "epubcheck" ∨ call.tool = "kindlegen") :
    .package ∈ before.map Record.stage ∧
      call.args.getLast? = some (site.buildDir.join ⟨"book.epub"⟩).raw := by
  have hstage : stage = .validate ∨ stage = .convertToDevice := by
    rcases ht with ht | ht
    · exact .inl (stage_of_tool h (by rw [ht]; rfl))
    · exact .inr (stage_of_tool h (by rw [ht]; rfl))
  obtain ⟨-, ⟨given, hargs⟩, -⟩ := call?_eq_ok h
  refine ⟨package_before hstages hstage, ?_⟩
  rw [hargs]
  rcases hstage with rfl | rfl
  · exact List.getLast?_concat
  · exact List.getLast?_concat

/-- The book is rendered and its assets are there when it is printed. -/
theorem called_with_page {format : Format} {before : List Record}
    (hstages : format.stages = before.map Record.stage ++ stage :: later)
    (h : site.call? platform stage = some (.ok call)) (ht : call.tool = "prince") :
    .renderBook ∈ before.map Record.stage ∧ .copyAssets ∈ before.map Record.stage ∧
      [site.renderedBook.raw, "-o", site.artifact.raw] <:+ call.args := by
  obtain rfl : stage = .convertToPdf := stage_of_tool h (by rw [ht]; rfl)
  obtain ⟨-, ⟨given, hargs⟩, -⟩ := call?_eq_ok h
  obtain ⟨hrendered, hcopied⟩ := rendered_before hstages
  exact ⟨hrendered, hcopied, given, hargs.symm⟩

/-- The check of the container is the only advisory call. -/
theorem isAdvisory_of_call? (h : site.call? platform stage = some (.ok call))
    (ht : call.tool ≠ "epubcheck") : stage.isAdvisory = false := by
  cases hstage : stage.isAdvisory with
  | false => rfl
  | true =>
    have hvalidate : stage = .validate := of_decide_eq_true hstage
    rw [hvalidate] at h
    exact absurd (Option.some.inj (tool?_of_call? h)).symm ht

/-- **The calls of a run.** A run calls at most the tools of its format, each once and in their order, and it
depends on what a runner does with these calls alone. Each call has its place, where it is handed to the runner
once: `epubcheck` and `kindlegen` are called when the container has been packed in this run, with the container as
their last argument; `prince` is called when the book has been rendered and the assets have been copied, with the
rendered book, the output option and the artifact at the end. If the run ends well, every call but the advisory one has exited with code
zero. On a platform without a converter `kindlegen` is never called, and a run that gets there ends with that
fault. A tool without a command is never called. -/
theorem run_calls (format : Format) (site : Site) (shop : Workshop) (files : Files) :
    ((run format site shop files).calls.map Tool.Call.tool).Sublist format.toolNames ∧
    (∀ runner, (∀ call ∈ (run format site shop files).calls, runner call = shop.runner call) →
      run format site { shop with runner := runner } files = run format site shop files) ∧
    (∀ call ∈ (run format site shop files).calls, ∃ before stage between,
      Called site shop files before stage between call ∧
      before <+: (run format site shop files).records ∧
      (call.tool = "epubcheck" ∨ call.tool = "kindlegen" →
        .package ∈ before.map Record.stage ∧
        call.args.getLast? = some (site.buildDir.join ⟨"book.epub"⟩).raw) ∧
      (call.tool = "prince" →
        .renderBook ∈ before.map Record.stage ∧ .copyAssets ∈ before.map Record.stage ∧
        [site.renderedBook.raw, "-o", site.artifact.raw] <:+ call.args) ∧
      (∀ report, (run format site shop files).result site = .ok report → call.tool ≠ "epubcheck" →
        (shop.runner call between).1 = .ok (.code 0))) ∧
    (∀ name, shop.platform = .other name →
      (∀ call ∈ (run format site shop files).calls, call.tool ≠ "kindlegen") ∧
      (.started .convertToDevice ∈ (run format site shop files).events →
        (run format site shop files).result site = .error ⟨.convertToDevice, .unsupportedPlatform name⟩)) ∧
    (site.book.tools.epubcheck = [] →
      ∀ call ∈ (run format site shop files).calls, call.tool ≠ "epubcheck") ∧
    (site.book.tools.prince = [] →
      ∀ call ∈ (run format site shop files).calls, call.tool ≠ "prince") := by
  by_cases hformat : format = site.format
  · have hrun : ∀ shop, run format site shop files = runStages site shop format.stages files :=
      fun _ => if_pos hformat
    rw [hrun]
    refine ⟨?_, ?_, ?_, ?_, ?_, ?_⟩
    · obtain ⟨front, hfront, hcalls⟩ := exists_calls_eq site shop format.stages files
      rw [hcalls, ← format.filterMap_tool?]
      exact (calls_sublist site shop.platform front).trans (hfront.sublist.filterMap _)
    · intro runner hsame
      rw [hrun]
      exact runStages_runner hsame
    · intro call hmem
      obtain ⟨before, stage, later, between, hstages, hcalled, hprefix, hexit⟩ := exists_called hmem
      refine ⟨before, stage, between, hcalled, hprefix, called_with_archive hstages hcalled.made,
        called_with_page hstages hcalled.made, ?_⟩
      intro report hreport ht
      exact hexit (failure_of_result hreport) (isAdvisory_of_call? hcalled.made ht)
    · intro name hname
      constructor
      · have hprogram : site.program? shop.platform .convertToDevice = none := by
          rw [hname]
          rfl
        exact never_called hprogram rfl
      · intro hstarted
        have hmade : site.call? shop.platform .convertToDevice =
            some (.error (.unsupportedPlatform name)) := by
          rw [hname]
          rfl
        rw [Run.result, failure_of_started hmade (by decide) hstarted]
    · intro hempty
      have hprogram : site.program? shop.platform .validate = none := by
        show site.book.tools.epubcheck.head?.map (fun word => (⟨word⟩ : Path)) = none
        rw [hempty]
        rfl
      exact never_called hprogram rfl
    · intro hempty
      have hprogram : site.program? shop.platform .convertToPdf = none := by
        show site.book.tools.prince.head?.map (fun word => (⟨word⟩ : Path)) = none
        rw [hempty]
        rfl
      exact never_called hprogram rfl
  · have hrun : ∀ shop, run format site shop files =
        .stopped ⟨format.stages.head?.getD .clean, .formatMismatch format site.format⟩ files :=
      fun _ => if_neg hformat
    rw [hrun]
    -- a run that ends before its first stage calls nothing and starts nothing
    refine ⟨List.nil_sublist _, fun runner _ => hrun _, fun call hmem => ?_, fun name _ =>
      ⟨fun call hmem => ?_, fun hstarted => ?_⟩, fun _ call hmem => ?_, fun _ call hmem => ?_⟩
    · cases hmem
    · cases hmem
    · cases hstarted
    · cases hmem
    · cases hmem

/-- The run that prints the pamphlet calls the printer and nothing else, and the printer exits with code
zero. -/
theorem run_calls_pamphlet :
    (run .pdf pamphletSite pamphletShop (pamphlet [])).calls = [pamphletPrintCall] ∧
    ∃ before stage between,
      Called pamphletSite pamphletShop (pamphlet []) before stage between pamphletPrintCall ∧
      (pamphletShop.runner pamphletPrintCall between).1 = .ok (.code 0) := by
  obtain ⟨-, -, hplace, -⟩ := run_calls .pdf pamphletSite pamphletShop (pamphlet [])
  have hcalls : (run .pdf pamphletSite pamphletShop (pamphlet [])).calls = [pamphletPrintCall] := by
    decide +kernel
  have hfailure : (run .pdf pamphletSite pamphletShop (pamphlet [])).failure = none := by
    decide +kernel
  obtain ⟨before, stage, between, hcalled, -, -, -, hexit⟩ :=
    hplace pamphletPrintCall (by rw [hcalls]; exact List.mem_cons_self)
  exact ⟨hcalls, before, stage, between, hcalled, hexit _ (by rw [Run.result, hfailure]) (by decide)⟩

end Build

end Bindery
