import Bindery.Proofs.Build.Run

/-!
# `Proofs.Build.ToolPaths` — what the paths in a call mean to the tool

A call names the directory that its tool runs in, and that is the root of the project. The paths that a stage
adds to the call start at the root as well, and so does a program that is looked for below it. A tool that
reads such a path from its own directory joins the root a second time. That makes no difference if the root is
absolute, for the second root then replaces the first one, or if nothing but `.` is in it; for every other
root the two paths part at their first components (`course_join_eq_iff`).

**Contents.**
* `Path.course` with `course_join` — the components of a path up to `.`;
* `Path.StartsAt` and `course_join_eq_iff` — a root that is joined twice;
* `Call.reads` and `Call.Agrees` — what a path means to a tool;
* `Site.appended` and `Site.program?` — what the stages put into their calls;
* `call_agrees_iff` — for which roots the tools and the build mean the same.
-/

namespace Bindery

namespace Path

/-! ## Paths up to `.` -/

/-- The components of a path, without those that stand for the place where they are. -/
def course (path : Path) : List Component :=
  path.components.filter (· ≠ .here)

variable {path next root : Path}

theorem course_eq (path : Path) :
    path.course = (if path.isAbsolute then [.root] else []) ++ (segments path.raw.bytes).filterMap inner? := by
  have hinner : ∀ part ∈ (segments path.raw.bytes).filterMap inner?, part ≠ .here := by
    intro part hmem
    obtain ⟨segment, -, hsegment⟩ := List.mem_filterMap.mp hmem
    rintro rfl
    unfold inner? at hsegment
    split at hsegment
    · cases hsegment
    · split at hsegment <;> cases hsegment
  have hrest : ((segments path.raw.bytes).filterMap inner?).filter (· ≠ .here) =
      (segments path.raw.bytes).filterMap inner? :=
    List.filter_eq_self.mpr fun part hmem => decide_eq_true (hinner part hmem)
  unfold course
  rw [components_eq, List.filter_append, hrest]
  congr 1
  split
  · rfl
  · split <;> rfl

/-- A relative path goes on where the path in front of it ends. -/
theorem course_join (h : next.isAbsolute = false) : (path.join next).course = path.course ++ next.course := by
  have hnext : next.course = (segments next.raw.bytes).filterMap inner? := by
    rw [course_eq, h]
    rfl
  rw [hnext, course_eq, course_eq, isAbsolute_join h, bytes_join h, List.append_assoc]
  congr 1
  rcases path.front_cases with ⟨hempty, hfront⟩ | ⟨-, chars, hfront, htext⟩
  · rw [hfront, List.isEmpty_iff.mp hempty]
    rfl
  · rw [hfront, List.append_assoc, List.singleton_append, segments_append_slash, List.filterMap_append]
    rcases htext with htext | htext
    · rw [htext]
    · rw [htext, segments_append_slash, List.filterMap_append]
      simp [segments, inner?]

/-- An absolute path replaces what is in front of it. -/
theorem join_of_isAbsolute (h : next.isAbsolute = true) : path.join next = next := by
  unfold join
  rw [h, Bool.true_or, if_pos rfl]

/-! ## A root that is joined twice -/

/-- A path that starts at a root and goes on from there. -/
structure StartsAt (root path : Path) : Prop where
  isAbsolute : path.isAbsolute = root.isAbsolute
  course : ∃ rest, path.course = root.course ++ rest

namespace StartsAt

theorem join_root (h : next.isAbsolute = false) : StartsAt root (root.join next) :=
  ⟨isAbsolute_join h, next.course, course_join h⟩

theorem join (hpath : StartsAt root path) (h : next.isAbsolute = false) : StartsAt root (path.join next) := by
  obtain ⟨rest, hrest⟩ := hpath.course
  refine ⟨(isAbsolute_join h).trans hpath.isAbsolute, rest ++ next.course, ?_⟩
  rw [course_join h, hrest, List.append_assoc]

end StartsAt

/-- A root that can be put in front of its own paths: an absolute one, or one that stands for the place where
it is. -/
def Repeatable (root : Path) : Prop :=
  root.isAbsolute = true ∨ root.course = []

/-- **The root may be joined twice if it is repeatable, and not otherwise.** -/
theorem course_join_eq_iff (hpath : StartsAt root path) :
    (root.join path).course = path.course ↔ root.Repeatable := by
  obtain ⟨rest, hrest⟩ := hpath.course
  unfold Repeatable
  cases habs : root.isAbsolute with
  | true =>
    rw [join_of_isAbsolute (hpath.isAbsolute.trans habs)]
    simp
  | false =>
    rw [course_join (hpath.isAbsolute.trans habs), hrest]
    simp

end Path

/-! ## What a path means to a tool -/

namespace Tool.Call

/-- What a path means to a tool, seen from where the build runs. -/
def reads (call : Call) (path : Path) : Path :=
  call.directory.join path

/-- A path means to the tool what it means to the build, up to `.`. -/
def Agrees (call : Call) (path : Path) : Prop :=
  (call.reads path).course = path.course

end Tool.Call

namespace Build

namespace Site

/-- The option that says where the printed book goes. -/
def outputOption : Path :=
  ⟨"-o"⟩

/-- What a stage adds to the command of its tool: the archive, or the rendered book and the output file. -/
def appended (site : Site) : Stage → List Path
  | .validate | .convertToDevice => [site.buildDir.join ⟨"book.epub"⟩]
  | .convertToPdf => [site.renderedBook, outputOption, site.artifact]
  | _ => []

/-- The program that the book names for a stage. The path of a converter is read as it is shown. -/
def program? (site : Site) (platform : Platform) : Stage → Option Path
  | .validate => site.book.tools.epubcheck.head?.map fun word => ⟨word⟩
  | .convertToDevice => (site.book.tools.kindlegen.for? platform).toOption.map fun path => ⟨path.text⟩
  | .convertToPdf => site.book.tools.prince.head?.map fun word => ⟨word⟩
  | _ => none

variable {site : Site} {platform : Platform} {stage : Stage} {call : Tool.Call}

/-- The paths that a stage hands to its tool start at the root. -/
theorem startsAt_of_mem_appended {path : Path} (h : path ∈ site.appended stage) (hoption : path ≠ outputOption) :
    site.root.StartsAt path := by
  have hbuild : site.root.StartsAt site.buildDir := .join_root (by cases site.format <;> decide)
  have hcontent : site.root.StartsAt site.contentDir := hbuild.join (by cases site.format <;> decide)
  have harchive : site.root.StartsAt (site.buildDir.join ⟨"book.epub"⟩) := hbuild.join (by decide)
  have hrendered : site.root.StartsAt site.renderedBook := hcontent.join (by decide)
  have hartifact : site.root.StartsAt site.artifact := hbuild.join (by cases site.format <;> decide)
  cases stage with
  | validate | convertToDevice =>
    rw [List.mem_singleton.mp h]
    exact harchive
  | convertToPdf =>
    simp only [appended, List.mem_cons, List.not_mem_nil, or_false] at h
    rcases h with rfl | rfl | rfl
    · exact hrendered
    · exact absurd rfl hoption
    · exact hartifact
  | _ => cases h

/-- What becomes of the command of a tool. -/
theorem command_eq_ok {tool : String} {command : List String} {args : List Raw}
    (h : site.command tool command args = .ok call) :
    call.directory = site.root ∧ (∃ given : List Raw, call.args = given ++ args) ∧
      ∃ program, command.head?.map (fun word => (⟨word⟩ : Path)) = some program ∧
        call.program = Tool.locate site.root program := by
  unfold Site.command at h
  cases command with
  | nil => cases h
  | cons program given =>
    cases h
    exact ⟨rfl, ⟨given.map Raw.ofText, rfl⟩, ⟨program⟩, rfl, rfl⟩

/-- What the call of a stage is made of. -/
theorem call?_eq_ok (h : site.call? platform stage = some (.ok call)) :
    call.directory = site.root ∧ (∃ given : List Raw, call.args = given ++ (site.appended stage).map Path.raw) ∧
      ∃ program, site.program? platform stage = some program ∧
        call.program = Tool.locate site.root program := by
  cases stage with
  | validate =>
    obtain ⟨archive, harchive, hcommand⟩ := bind_eq_ok.mp (Option.some.inj h)
    rw [archive_eq harchive] at hcommand
    exact command_eq_ok hcommand
  | convertToDevice =>
    have hcall : site.deviceCall platform = .ok call := Option.some.inj h
    unfold deviceCall at hcall
    split at hcall
    · cases hcall
    next converter hconverter =>
      obtain ⟨archive, harchive, hcommand⟩ := bind_eq_ok.mp hcall
      rw [archive_eq harchive] at hcommand
      obtain ⟨hdirectory, hargs, program, hhead, hprogram⟩ := command_eq_ok hcommand
      refine ⟨hdirectory, hargs, program, ?_, hprogram⟩
      rw [← hhead]
      unfold program?
      rw [hconverter]
      rfl
  | convertToPdf => exact command_eq_ok (Option.some.inj h)
  | _ => cases h

end Site

open Site

variable {site : Site} {platform : Platform} {stage : Stage} {call : Tool.Call}

/-- **Tools and the build mean the same by a path if the root can be repeated, and only then.** In the call of a
stage, which runs in the root, every path that the stage adds means to the tool what it means to the build, up to
`.`, exactly if the root is absolute or has no components but `.`. The same holds of the program, where the book
names it with a directory part; a program with an absolute path always agrees, and a bare name is left as it
is. If the root is absolute, the paths are the same to the letter. -/
theorem call_agrees_iff (h : site.call? platform stage = some (.ok call)) :
    call.directory = site.root ∧
    (∃ given : List Raw, call.args = given ++ (site.appended stage).map Path.raw) ∧
    (∀ path ∈ site.appended stage, path ≠ outputOption → (call.Agrees path ↔ site.root.Repeatable)) ∧
    (∀ path ∈ site.appended stage, path ≠ outputOption → site.root.isAbsolute = true →
      call.reads path = path) ∧
    ∃ program, site.program? platform stage = some program ∧
      (program.isAbsolute = true → call.program = program ∧ call.Agrees call.program) ∧
      (program.isAbsolute = false → 1 < program.components.length →
        call.program = site.root.join program ∧ (call.Agrees call.program ↔ site.root.Repeatable)) ∧
      (program.components.length ≤ 1 → call.program = program) := by
  obtain ⟨hdirectory, hargs, program, hprogram, hlocate⟩ := call?_eq_ok h
  have hagrees {path : Path} : site.root.StartsAt path → (call.Agrees path ↔ site.root.Repeatable) := by
    intro hpath
    unfold Tool.Call.Agrees Tool.Call.reads
    rw [hdirectory]
    exact Path.course_join_eq_iff hpath
  refine ⟨hdirectory, hargs, ?_, ?_, program, hprogram, ?_, ?_, ?_⟩
  · intro path hpath hoption
    exact hagrees (startsAt_of_mem_appended hpath hoption)
  · intro path hpath hoption habs
    unfold Tool.Call.reads
    exact Path.join_of_isAbsolute ((startsAt_of_mem_appended hpath hoption).isAbsolute.trans habs)
  · intro habs
    have hsame : call.program = program := by
      rw [hlocate]
      unfold Tool.locate
      rw [habs]
      rfl
    refine ⟨hsame, ?_⟩
    unfold Tool.Call.Agrees Tool.Call.reads
    rw [hsame, Path.join_of_isAbsolute habs]
  · intro hrel hlong
    have hjoin : call.program = site.root.join program := by
      rw [hlocate]
      unfold Tool.locate
      rw [hrel]
      exact if_pos (decide_eq_true hlong)
    refine ⟨hjoin, ?_⟩
    rw [hjoin]
    exact hagrees (.join_root hrel)
  · intro hshort
    rw [hlocate]
    unfold Tool.locate
    rw [if_neg]
    simp [Nat.not_lt.mpr hshort]

/-- The call that prints the pamphlet. -/
def pamphletPrintCall : Tool.Call where
  tool := "prince"
  program := ⟨"prince"⟩
  args := ["-v", "p/builds/pdf/book.html", "-o", "p/builds/pdf/book.pdf"]
  directory := ⟨"p"⟩

/-- For the pamphlet, the printer and the build do not mean the same by the rendered book; if the root is
absolute, they do. -/
theorem call_agrees_iff_pamphlet :
    ¬pamphletPrintCall.Agrees pamphletSite.renderedBook ∧
    { pamphletPrintCall with
        args := ["-v", "/p/builds/pdf/book.html", "-o", "/p/builds/pdf/book.pdf"]
        directory := ⟨"/p"⟩ }.Agrees { pamphletSite with root := ⟨"/p"⟩ }.renderedBook := by
  have hrelative : pamphletSite.call? .linux .convertToPdf = some (.ok pamphletPrintCall) := by rfl
  have habsolute : { pamphletSite with root := ⟨"/p"⟩ }.call? .linux .convertToPdf = some (.ok
      { pamphletPrintCall with
          args := ["-v", "/p/builds/pdf/book.html", "-o", "/p/builds/pdf/book.pdf"]
          directory := ⟨"/p"⟩ }) := by rfl
  obtain ⟨-, -, hiff, -⟩ := call_agrees_iff hrelative
  obtain ⟨-, -, hiff', -⟩ := call_agrees_iff habsolute
  refine ⟨fun hagrees => ?_, ?_⟩
  · exact absurd ((hiff _ List.mem_cons_self (by decide)).mp hagrees) (by unfold Path.Repeatable; decide)
  · exact (hiff' _ List.mem_cons_self (by decide)).mpr (by unfold Path.Repeatable; decide)

/-- The pamphlet with its page rendered, and with a printer of its own. -/
def pamphletRendered : Files :=
  pamphlet
    [(["p", "builds"], .dir), (["p", "builds", "pdf"], .dir),
     (["p", "builds", "pdf", "book.html"], .file (.ofText "<h1>P</h1>") false),
     (["p", "tools"], .dir), (["p", "tools", "print"], .file (.ofText "#!/bin/sh") true)]

/-- The pamphlet, printed by the printer in its own directory. -/
def pamphletToolSite : Site :=
  { pamphletSite with book := { pamphletSite.book with tools := { prince := ["tools/print"] } } }

/-- The printer of the pamphlet, and the rendered book that it is handed, are there; but they are not where
the paths in the call lead when they are read in the directory of the call. -/
theorem print_paths_miss :
    ∃ call, pamphletToolSite.call? .linux .convertToPdf = some (.ok call) ∧
      pamphletToolSite.renderedBook ∈ pamphletToolSite.appended .convertToPdf ∧
      pamphletRendered.isFile pamphletToolSite.renderedBook = true ∧
      pamphletRendered.isFile (call.reads pamphletToolSite.renderedBook) = false ∧
      ¬call.Agrees pamphletToolSite.renderedBook ∧
      pamphletRendered.isFile call.program = true ∧
      pamphletRendered.isFile (call.reads call.program) = false ∧ ¬call.Agrees call.program := by
  refine ⟨{ pamphletPrintCall with program := ⟨"p/tools/print"⟩, args := pamphletPrintCall.args.tail },
    by rfl, List.mem_cons_self, by decide +kernel, by decide +kernel, ?_, by decide +kernel, by decide +kernel, ?_⟩
  · unfold Tool.Call.Agrees
    decide +kernel
  · unfold Tool.Call.Agrees
    decide +kernel

end Build

end Bindery
