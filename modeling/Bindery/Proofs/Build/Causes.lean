import Bindery.Proofs.Build.Run

/-!
# `Proofs.Build.Causes` — which faults end a stage

A task is put together from steps on the file tree, each of which fails with a fault of its own class. What
all of its parts can fail with is all that it can fail with (`Raises.bind`), so that the classes of the faults
of a stage are read off its definition, part by part. Only a stage with a page looks at a template, and it
does so before anything else.

**Contents.**
* `Fault.IsPlain` — the faults that any stage may end with;
* `Work.Raises`, with a lemma for each way to put a task together;
* `Site.perform_error` — the fault of a stage.
-/

namespace Bindery.Build

open Files (Entry)

/-- A fault of the file tree, of a tool, or of something that the project does not have. -/
def Fault.IsPlain : Fault → Prop
  | template _ | cancelled | formatMismatch .. => False
  | _ => True

namespace Work

variable {α β : Type} {allowed : Fault → Prop}

/-- The task ends in no faults but these. -/
def Raises (allowed : Fault → Prop) (work : Work α) : Prop :=
  ∀ files fault files', work.run files = (.error fault, files') → allowed fault

namespace Raises

theorem pure (a : α) : Raises allowed (Pure.pure a : Work α) := by
  intro files fault files' h
  obtain ⟨hcontra, -⟩ := run_pure h
  cases hcontra

theorem fail {fault : Fault} (h : allowed fault) : Raises allowed (Work.fail fault : Work α) := by
  intro files fault' files' hrun
  obtain ⟨heq, -⟩ := run_fail hrun
  cases heq
  exact h

theorem lift {outcome : Except Fault α} (h : ∀ fault, outcome = .error fault → allowed fault) :
    Raises allowed (liftM outcome : Work α) := by
  intro files fault files' hrun
  obtain ⟨heq, -⟩ := run_lift hrun
  exact h fault heq.symm

theorem bind {work : Work α} {next : α → Work β} (h : Raises allowed work)
    (hnext : ∀ a, Raises allowed (next a)) : Raises allowed (work >>= next) := by
  intro files fault files' hrun
  rcases run_bind_cases hrun with ⟨cause, hwork, heq⟩ | ⟨a, files₁, -, hrest⟩
  · cases heq
    exact h files _ files' hwork
  · exact hnext a files₁ fault files' hrest

/-- A task that begins with the tree as it is. -/
theorem get {next : Files → Work α} (hnext : ∀ files, Raises allowed (next files)) :
    Raises allowed (do let files ← MonadState.get; next files) :=
  fun files fault files' hrun => hnext files files fault files' ((run_get next files).symm.trans hrun)

theorem set (files : Files) : Raises allowed (MonadStateOf.set files : Work PUnit) := by
  intro before fault files' hrun
  cases hrun

/-- What a task ends in depends on nothing but how it runs. -/
theorem of_run {work : Work α}
    (h : ∀ files, ∃ other : Work α, work.run files = other.run files ∧ Raises allowed other) :
    Raises allowed work := by
  intro files fault files' hrun
  obtain ⟨other, heq, hother⟩ := h files
  exact hother files fault files' (heq.symm.trans hrun)

theorem change {action : Action} {path : Path} {step : Files → Except Files.Fault Files} :
    Raises Fault.IsPlain (Work.change action path step) := by
  refine get fun files => ?_
  cases step files with
  | ok changed => exact set changed
  | error fault => exact fail trivial

theorem look {action : Action} {path : Path} {query : Files → Except Files.Fault α} :
    Raises Fault.IsPlain (Work.look action path query) := by
  refine get fun files => ?_
  cases query files with
  | ok answer => exact pure answer
  | error fault => exact fail trivial

theorem foldlM {f : β → α → Work β} (h : ∀ b a, Raises allowed (f b a)) :
    ∀ (b : β) (list : List α), Raises allowed (list.foldlM f b)
  | b, [] => pure b
  | b, a :: list => by
    rw [List.foldlM_cons]
    exact bind (h b a) fun b' => foldlM h b' list

theorem forM {f : α → Work PUnit} (h : ∀ a, Raises allowed (f a)) :
    ∀ list : List α, Raises allowed (list.forM f)
  | [] => pure _
  | a :: list => bind (h a) fun _ => forM h list

end Raises

end Work

open Work (Raises)

/-! ## Preparing directories -/

theorem raises_makeDirs (path : Path) : Raises Fault.IsPlain (makeDirs path) := by
  intro files fault files' h
  rw [makeDirs_run] at h
  split at h
  · cases h
  · cases h
    trivial

theorem raises_removeTree (path : Path) : Raises Fault.IsPlain (removeTree path) := by
  intro files fault files' h
  rw [removeTree_run] at h
  split at h
  · cases h
  · cases h
    trivial

theorem raises_removeEntry (dir : Path) (location : Location) (name : Raw) :
    Raises Fault.IsPlain (removeEntry dir location name) := by
  refine .bind .look fun entry => ?_
  cases entry
  · exact raises_removeTree _
  · exact .change
  · exact .change

theorem raises_emptyDir (dir : Path) (order : Files.Order) : Raises Fault.IsPlain (emptyDir dir order) := by
  refine .get fun files => ?_
  cases files.has dir
  · exact raises_makeDirs dir
  · exact .bind .look fun location => .forM (raises_removeEntry dir location) _

theorem raises_copyTree : ∀ (depth : Nat) (source target : Path),
    Raises Fault.IsPlain (copyTree depth source target)
  | 0, source, _ => .fail trivial
  | depth + 1, source, target => by
    rw [copyTree_succ]
    refine .bind .look fun entries => .bind (raises_makeDirs target) fun _ => .foldlM ?_ _ _
    intro count ⟨name, entry⟩
    have hentry : Raises Fault.IsPlain (do
        copyEntry (source.join ⟨name⟩) (target.join ⟨name⟩)
        return count + 1) := .bind .change fun _ => .pure _
    cases entry with
    | dir =>
      exact .bind (raises_copyTree depth (source.join ⟨name⟩) (target.join ⟨name⟩)) fun _ => .pure _
    | file content executable => exact hentry
    | link target => exact hentry

theorem raises_copyDir (source target : Path) : Raises Fault.IsPlain (copyDir source target) := by
  refine .of_run fun files => ⟨_, copyDir_run source target files, ?_⟩
  split
  · split
    · exact .bind .change fun _ => .pure _
    · exact raises_copyTree _ _ _
  · exact .fail trivial

theorem raises_copyFile (source target : Path) : Raises Fault.IsPlain (copyFile source target) := by
  refine .get fun files => ?_
  cases files.isFile source
  · exact .fail trivial
  · exact .change

theorem raises_prune (dir : Path) : ∀ names : List String, Raises Fault.IsPlain (prune dir names)
  | [] => .pure _
  | name :: names => by
    refine .get fun files => ?_
    cases files.unlink (dir.join ⟨name⟩) with
    | ok files' => exact .bind (.set files') fun _ => raises_prune dir names
    | error fault =>
      cases fault with
      | notFound => exact .bind (raises_prune dir names) fun _ => .pure _
      | _ => exact .fail trivial

theorem gatherEntry_error {archive dir : Path} {deeper : Path → List Raw → List Files.Packed → Gathering}
    {names : List Raw} {packed entries : List Files.Packed} {entry : Raw × Entry} {files : Files} {fault : Fault}
    (hdeeper : ∀ dir names packed entries fault,
      deeper dir names packed = .error (entries, fault) → fault.IsPlain)
    (h : gatherEntry files archive deeper dir names packed entry = .error (entries, fault)) : fault.IsPlain := by
  obtain ⟨name, entry⟩ := entry
  cases entry with
  | dir => exact hdeeper _ _ _ _ _ h
  | link target => cases h
  | file content executable =>
    unfold gatherEntry at h
    dsimp only at h
    split at h
    · cases h
    · split at h
      · cases h
      · cases h
        trivial

theorem gather_error {archive : Path} {files : Files} : ∀ {depth : Nat} {dir : Path} {names : List Raw}
    {packed entries : List Files.Packed} {fault : Fault},
    gather files archive depth dir names packed = .error (entries, fault) → fault.IsPlain
  | 0, _, _, _, _, _, h => by
    cases h
    trivial
  | depth + 1, dir, names, packed, entries, fault, h => by
    unfold gather at h
    split at h
    · cases h
      trivial
    · obtain ⟨packed', entry, -, hentry⟩ := foldlM_eq_error h
      exact gatherEntry_error (fun _ _ _ _ _ => gather_error) hentry

theorem raises_pack (dir archive : Path) : Raises Fault.IsPlain (pack dir archive) := by
  refine .of_run fun files => ⟨_, pack_run dir archive files, ?_⟩
  split
  · refine .bind .change fun _ => .get fun files => ?_
    split
    · exact .change
    · next hgather => exact .bind .change fun _ => .fail (gather_error hgather)
  · exact .fail trivial
  · exact .fail trivial

namespace Site

variable (site : Site) (shop : Workshop) {stage : Stage} {files files' : Files} {fault : Fault}

/-! ## Stages -/

theorem raises_scaffold : Raises Fault.IsPlain site.scaffold :=
  .bind (raises_copyDir _ _) fun _ => .bind (raises_makeDirs _) fun _ => raises_copyFile _ _

theorem raises_copyAssets : Raises Fault.IsPlain site.copyAssets :=
  .bind (raises_copyDir _ _) fun _ => .bind (raises_prune _ _) fun _ => .pure _

theorem archive_error (h : site.archive = .error fault) : fault.IsPlain := by
  unfold archive at h
  split at h
  · cases h
  · cases h
    trivial

theorem raises_packContainer : Raises Fault.IsPlain site.packContainer :=
  .bind (.lift fun _ => site.archive_error) fun _ => .bind (raises_pack _ _) fun _ => .pure _

theorem command_error {tool : String} {command : List String} {args : List Raw}
    (h : site.command tool command args = .error fault) : fault.IsPlain := by
  unfold Site.command at h
  split at h
  · cases h
  · cases h
    trivial

/-- A stage makes no call if the format has no container, if there is no converter for the platform or if
the tool has no command. -/
theorem call?_error {platform : Platform} (h : site.call? platform stage = some (.error fault)) :
    fault.IsPlain := by
  cases stage with
  | validate =>
    rcases bind_eq_error.mp (Option.some.inj h) with harchive | ⟨archive, -, hcommand⟩
    · exact site.archive_error harchive
    · exact site.command_error hcommand
  | convertToDevice =>
    have hdevice : site.deviceCall platform = .error fault := Option.some.inj h
    unfold deviceCall at hdevice
    split at hdevice
    · cases hdevice
      trivial
    · rcases bind_eq_error.mp hdevice with harchive | ⟨archive, -, hcommand⟩
      · exact site.archive_error harchive
      · exact site.command_error hcommand
  | convertToPdf => exact site.command_error (Option.some.inj h)
  | _ => cases h

theorem raises_runCall (runner : Runner) (call : Tool.Call) : Raises Fault.IsPlain (runCall runner call) := by
  intro files fault files' h
  rw [runCall_run] at h
  split at h
  · cases h
    trivial
  · split at h
    · cases h
    · cases h
      trivial

theorem raises_perform (hpage : stage.page? = none) : Raises Fault.IsPlain (site.perform shop stage) := by
  unfold perform
  rw [hpage]
  cases hcall : site.call? shop.platform stage with
  | some made =>
    refine .bind (.lift ?_) fun call => .bind (raises_runCall _ _) fun _ => .pure _
    rintro fault rfl
    exact site.call?_error hcall
  | none =>
    cases stage with
    | clean => exact .bind (raises_emptyDir _ _) fun _ => .pure _
    | scaffoldContainer => exact .bind site.raises_scaffold fun _ => .pure _
    | copyAssets => exact site.raises_copyAssets
    | package => exact site.raises_packContainer
    | _ => exact .pure _

theorem raises_writePage (destination : Path) (text : String) :
    Raises Fault.IsPlain (writePage destination text) := by
  have hwrite : Raises Fault.IsPlain (do
      Work.change .writing destination (Files.write destination (.ofText text))
      return { artifact := some destination } : Work Output) := .bind .change fun _ => .pure _
  unfold writePage
  cases destination.parent? with
  | none => exact hwrite
  | some parent => exact .bind (raises_makeDirs parent) fun _ => hwrite

/-- **A stage ends in a fault of its own class.** That is a fault of the file tree, of a tool or of what the
project lacks, except that a stage with a page may find a fault in its template. It has then done nothing. -/
theorem perform_error (h : (site.perform shop stage).run files = (.error fault, files')) :
    fault.IsPlain ∨ ∃ page cause, stage.page? = some page ∧ fault = .template cause ∧
      (Template.Engine.below files site.sourceDir shop.importLimit).resolve (site.binding shop) page.template =
        .error cause ∧ files' = files := by
  cases hpage : stage.page? with
  | none => exact .inl (site.raises_perform shop hpage files fault files' h)
  | some page =>
    rw [perform_page hpage, render_run] at h
    split at h
    · next cause hresolve =>
      obtain ⟨heq, rfl⟩ := Work.run_fail h
      exact .inr ⟨page, cause, rfl, Except.error.inj heq, hresolve, rfl⟩
    · exact .inl (raises_writePage _ _ files fault files' h)

end Site

end Bindery.Build
