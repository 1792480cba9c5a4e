import Bindery.Proofs.Build.Scratch
import Bindery.Proofs.Files.Nested

/-!
# `Proofs.Build.Keeping` — tasks that keep to a directory, whatever they read

A directory without links is all that a task needs so that what it puts there stays there. Where its sources
come from makes no difference: there may be links in them, and links may lead to them. Keeping to the
directory is a property of tasks that their parts hand on (`Keeps.bind`), so that it is read off the
definition of each stage, part by part, and only the steps that change the tree have to be looked at.

**Contents.**
* `Work.Keeps`, with a lemma for each way to put a task together;
* `keeps_makeDirs`, `keeps_write`, `keeps_copyEntry`, `keeps_prune` — the steps that change the tree;
* `keeps_copyTree`, `keeps_copyDir`, `keeps_copyFile`, `keeps_pack` — copies and archives;
* `Site.keeps_perform` — every stage between the first one and the tools.
-/

namespace Bindery

/-- Only a container is laid out. -/
theorem Format.isContainer_of_mem_work {format : Format} (h : .scaffoldContainer ∈ format.work) :
    format.isContainer = true := by
  revert h
  cases format <;> decide

namespace Build

open Files (Entry Content)

namespace Work

variable {α β : Type} {dir : Path} {place : Location}

/-- However the task ends, it has changed nothing but what is below the directory, and `dir` still leads to
that directory, without links in it. -/
def Keeps (dir : Path) (place : Location) (work : Work α) : Prop :=
  ∀ files result files', files.Ground dir place → work.run files = (result, files') →
    Within dir place [] files files'

namespace Keeps

theorem refl {files : Files} (hground : files.Ground dir place) : Within dir place [] files files :=
  .refl hground (by rw [List.append_nil, hground.dir])

theorem pure (a : α) : Keeps dir place (Pure.pure a : Work α) := by
  intro files result files' hground h
  obtain ⟨-, rfl⟩ := run_pure h
  exact refl hground

theorem fail (fault : Fault) : Keeps dir place (Work.fail fault : Work α) := by
  intro files result files' hground h
  obtain ⟨-, rfl⟩ := run_fail h
  exact refl hground

theorem bind {work : Work α} {next : α → Work β} (h : Keeps dir place work)
    (hnext : ∀ a, Keeps dir place (next a)) : Keeps dir place (work >>= next) := by
  intro files result files' hground hrun
  rcases run_bind_cases hrun with ⟨fault, hwork, -⟩ | ⟨a, files₁, hwork, hrest⟩
  · exact h _ _ _ hground hwork
  · have hfirst := h _ _ _ hground hwork
    exact hfirst.trans (hnext a _ _ _ hfirst.ground hrest)

theorem lift {outcome : Except Fault α} {next : α → Work β}
    (hnext : ∀ a, outcome = .ok a → Keeps dir place (next a)) :
    Keeps dir place (liftM outcome >>= next : Work β) := by
  intro files result files' hground hrun
  rcases run_bind_cases hrun with ⟨fault, hlift, -⟩ | ⟨a, files₁, hlift, hrest⟩
  · obtain ⟨-, rfl⟩ := run_lift hlift
    exact refl hground
  · obtain ⟨hok, rfl⟩ := run_lift hlift
    exact hnext a hok.symm _ _ _ hground hrest

/-- What comes after a look at the tree may depend on what was seen. -/
theorem look {action : Action} {path : Path} {query : Files → Except Files.Fault α} {next : α → Work β}
    (hnext : ∀ files a, files.Ground dir place → query files = .ok a → Keeps dir place (next a)) :
    Keeps dir place (Work.look action path query >>= next) := by
  intro files result files' hground hrun
  rcases run_bind_cases hrun with ⟨fault, hlook, -⟩ | ⟨a, files₁, hlook, hrest⟩
  · obtain ⟨rfl, -⟩ := run_look hlook
    exact refl hground
  · obtain ⟨rfl, hseen⟩ := run_look hlook
    exact hnext _ a hground (hseen a rfl) _ _ _ hground hrest

/-- What a task does depends on nothing but how it runs. -/
theorem of_run {work : Work α}
    (h : ∀ files, ∃ other : Work α, work.run files = other.run files ∧ Keeps dir place other) :
    Keeps dir place work := by
  intro files result files' hground hrun
  obtain ⟨other, heq, hother⟩ := h files
  exact hother _ _ _ hground (heq.symm.trans hrun)

/-- A task that begins with the tree as it is. -/
theorem get {next : Files → Work α} (hnext : ∀ files, Keeps dir place (next files)) :
    Keeps dir place (do let files ← MonadState.get; next files) :=
  of_run fun files => ⟨next files, run_get next files, hnext files⟩

theorem foldlM {f : β → α → Work β} {list : List α} (h : ∀ b, ∀ a ∈ list, Keeps dir place (f b a)) :
    ∀ b, Keeps dir place (list.foldlM f b) := by
  induction list with
  | nil => exact pure
  | cons a list ih =>
    intro b
    rw [List.foldlM_cons]
    exact bind (h b a List.mem_cons_self) (ih fun b a hmem => h b a (List.mem_cons_of_mem _ hmem))

end Keeps

end Work

open Work (Keeps)

variable {dir source target : Path} {place : Location} {more : List Raw}

/-! ## Steps that change the tree -/

theorem keeps_makeDirs (hbelow : dir.IsBelow more target) : Keeps dir place (makeDirs target) := by
  intro files result files' hground h
  exact (run_makeDirs hground (Keeps.refl hground).dir hbelow h).1

/-- The directory itself is there already. -/
theorem keeps_makeDirs_self {name : Raw} (hname : Path.IsName name) :
    Keeps (dir.join ⟨name⟩) place (makeDirs (dir.join ⟨name⟩)) := by
  intro files result files' hground h
  obtain ⟨outcome, hmade, -⟩ := makeDirs_outcome h
  obtain rfl := hground.leads.makeDirs_there hname hmade
  exact Keeps.refl hground

theorem keeps_write {action : Action} {content : Content} (hbelow : dir.IsBelow more target) :
    Keeps dir place (Work.change action target (Files.write target content)) := by
  intro files result files' hground h
  exact (run_write hground (Keeps.refl hground).dir hbelow hbelow.full h).1

/-- A copy goes to its destination, wherever it comes from. -/
theorem keeps_copyEntry (hbelow : dir.IsBelow more target) : Keeps dir place (copyEntry source target) := by
  intro files result files' hground h
  rcases Work.run_change h with ⟨-, hcopy⟩ | ⟨-, rfl⟩
  · obtain ⟨location, content, executable, destination, mode, -, hwritable, rfl⟩ := Files.copy_eq_ok hcopy
    obtain ⟨hplace, rfl, -⟩ := hground.writable_eq hbelow hwritable
    exact Within.put (Keeps.refl hground).dir hbelow.full (hground.putFile hbelow hplace _ _)
  · exact Keeps.refl hground

theorem keeps_prune {names : List String} (hbelow : dir.IsBelow more target)
    (hnames : ∀ name ∈ names, Path.IsName name) : Keeps dir place (prune target names) := by
  intro files result files' hground h
  exact (run_prune hground (Keeps.refl hground).dir hbelow hnames h).1

/-! ## Copies and archives -/

/-- The entries of a directory have names, wherever it is. -/
theorem isName_of_list {files : Files} {entries : List (Raw × Entry)} (hproper : files.Proper)
    (h : files.list source = .ok entries) : ∀ entry ∈ entries, Path.IsName entry.1 := by
  obtain ⟨spot, -, h⟩ := bind_eq_ok.mp h
  cases spot with
  | absent location => cases h
  | present location entry =>
    cases entry with
    | file content executable => cases h
    | link target => cases h
    | dir =>
      cases h
      intro entry hmem
      exact hproper.isName (hproper.mem_children.mp hmem) entry.1 (by simp)

theorem keeps_copyTree {depth : Nat} (hbelow : dir.IsBelow more target) :
    Keeps dir place (copyTree depth source target) := by
  induction depth generalizing source target more with
  | zero => exact .fail _
  | succ depth ih =>
    rw [copyTree_succ]
    refine .look fun files entries hground hlist => .bind (keeps_makeDirs hbelow) fun _ => ?_
    have hnames := isName_of_list hground.proper hlist
    refine .foldlM (fun count ⟨name, entry⟩ hmem => ?_) 0
    have hbelow' := hbelow.join (hnames _ hmem)
    cases entry with
    | dir => exact .bind (ih hbelow') fun _ => .pure _
    | file content executable => exact .bind (keeps_copyEntry hbelow') fun _ => .pure _
    | link target => exact .bind (keeps_copyEntry hbelow') fun _ => .pure _

theorem keeps_copyDir (hbelow : dir.IsBelow more target) : Keeps dir place (copyDir source target) := by
  refine .of_run fun files => ⟨_, copyDir_run source target files, ?_⟩
  split
  · split
    · exact .bind (keeps_copyEntry hbelow.slash) fun _ => .pure _
    · exact keeps_copyTree hbelow.slash
  · exact .fail _

theorem keeps_copyFile (hbelow : dir.IsBelow more target) : Keeps dir place (copyFile source target) := by
  refine .get fun files => ?_
  cases files.isFile source
  · exact .fail _
  · exact keeps_copyEntry hbelow

theorem keeps_packAs {type : Content} (hbelow : dir.IsBelow more target) :
    Keeps dir place (packAs source target type) :=
  .bind (keeps_write hbelow) fun _ => .get fun files => by
    split
    · exact keeps_write hbelow
    · exact .bind (keeps_write hbelow) fun _ => .fail _

theorem keeps_pack (hbelow : dir.IsBelow more target) : Keeps dir place (pack source target) := by
  refine .of_run fun files => ⟨_, pack_run source target files, ?_⟩
  split
  · exact keeps_packAs hbelow
  · exact .fail _
  · exact .fail _

/-! ## Stages -/

namespace Site

variable {site : Site} {shop : Workshop} {stage : Stage}

theorem buildDir_join (site : Site) :
    site.buildDir = (site.root.join ⟨"builds"⟩).join ⟨site.format.name⟩ :=
  site.buildDir_eq

/-- Content goes below the directory of the build. -/
theorem below_content (site : Site) {name : Raw} (hname : Path.IsName name) :
    site.buildDir.IsBelow (site.format.contentNames ++ [name]) (site.contentDir.join ⟨name⟩) := by
  unfold contentDir Format.contentDir Format.contentNames
  split
  · exact (Path.IsBelow.of_join (by decide)).join hname
  · rw [Path.join_empty_join hname.isAbsolute]
    exact .of_join hname

/-- The directory around a page is made, or it is there. -/
theorem keeps_parent {name : Raw} (hname : Path.IsName name) (place : Location) :
    ∃ parent, (site.contentDir.join ⟨name⟩).parent? = some parent ∧
      Keeps site.buildDir place (makeDirs parent) := by
  have hformat := isName_formatName site.format
  unfold contentDir Format.contentDir
  split
  · refine ⟨site.buildDir.join ⟨"OEBPS"⟩, Path.parent?_join_join (by decide) hname, ?_⟩
    exact keeps_makeDirs (.of_join (by decide))
  · refine ⟨site.buildDir, ?_, ?_⟩
    · rw [Path.join_empty_join hname.isAbsolute, buildDir_join]
      exact Path.parent?_join_join hformat hname
    · rw [buildDir_join]
      exact keeps_makeDirs_self hformat

theorem keeps_render {page : Page} (hname : Path.IsName page.output.raw) :
    Keeps site.buildDir place (site.render shop page) := by
  refine .of_run fun files => ⟨_, render_run site shop page files, ?_⟩
  split
  · exact .fail _
  · obtain ⟨parent, hparent, hkeeps⟩ := site.keeps_parent hname place
    unfold writePage
    rw [hparent]
    exact .bind hkeeps fun _ => .bind (keeps_write (site.below_content hname)) fun _ => .pure _

theorem keeps_scaffold (hcontainer : site.format.isContainer = true) :
    Keeps site.buildDir place site.scaffold := by
  have hcontent : site.buildDir.IsBelow ["OEBPS"] site.contentDir := by
    unfold contentDir Format.contentDir
    rw [hcontainer, if_pos rfl]
    exact .of_join (by decide)
  exact .bind (keeps_copyDir (.of_join (by decide))) fun _ =>
    .bind (keeps_makeDirs hcontent) fun _ => keeps_copyFile (.of_join (by decide))

theorem keeps_copyAssets : Keeps site.buildDir place site.copyAssets := by
  have hassets := site.below_content (show Path.IsName "assets" by decide)
  exact .bind (keeps_copyDir hassets) fun _ =>
    .bind (keeps_prune (hassets.join (by decide)) site.format.isName_foreignSheets) fun _ => .pure _

theorem keeps_packContainer : Keeps site.buildDir place site.packContainer := by
  refine .lift fun archive harchive => ?_
  rw [archive_eq harchive]
  exact .bind (keeps_pack (.of_join (by decide))) fun _ => .pure _

/-- **Every stage between the first one and the tools keeps to the directory of the build.** -/
theorem keeps_perform (hmem : stage ∈ site.format.work) :
    Keeps site.buildDir place (site.perform shop stage) := by
  cases hpage : stage.page? with
  | some page =>
    rw [perform_page hpage]
    exact keeps_render (isName_output hpage)
  | none =>
    obtain ⟨hfirst, htool, -⟩ := Format.of_mem_work hmem
    cases stage with
    | clean => exact absurd rfl hfirst
    | scaffoldContainer =>
      rw [perform_scaffoldContainer]
      exact .bind (keeps_scaffold (Format.isContainer_of_mem_work hmem)) fun _ => .pure _
    | copyAssets => exact keeps_copyAssets
    | package => exact keeps_packContainer
    | validate | convertToDevice | convertToPdf => cases htool
    | renderBook | renderCover | renderNav | renderPackageDocument | renderNcx => cases hpage

end Site

end Build

end Bindery
