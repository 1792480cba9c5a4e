import Bindery.Book.Reading
import Bindery.Build.Run

/-!
# `Bindery.Project` — building a project

A project is a directory with a configuration and the sources of a book. A build by name first finds
the format, then loads the configuration, and only then runs the stages.

**Contents.** `Project` with `load` and `site`; `Project.Fault` with its `message`; `Project.run`;
`Project.buildNamed`, from the name of a format; `Project.build`, from the root as well.
-/

namespace Bindery

/-- A project whose configuration has been read. -/
structure Project where
  root : Path
  book : Book

namespace Project

/-- Reads the configuration of the project at `root`. -/
def load (files : Files) (root : Path) (fresh : String) : Except Book.Fault Project :=
  (Book.load files root fresh).map (⟨root, ·⟩)

/-- A project in a format. -/
def site (project : Project) (format : Format) : Build.Site :=
  ⟨project.root, project.book, format⟩

/-- Why a project is not built. -/
inductive Fault where
  | unknownFormat (name : String)
  | book (fault : Book.Fault)
  | build (failure : Build.Failure)
deriving DecidableEq, Repr

/-- The wording of a fault. -/
def Fault.message : Fault → String
  | unknownFormat name => Format.unknownMessage name
  | book fault => "Config error: " ++ fault.message
  | build failure => failure.message

/-- Builds a project in a format. -/
def run (project : Project) (format : Format) (shop : Build.Workshop) (files : Files) : Build.Run :=
  Build.run format (project.site format) shop files

/-- The result of a build, with the file tree after it. -/
def finish (project : Project) (format : Format) (run : Build.Run) :
    Except Fault Build.Report × Files :=
  ((run.result (project.site format)).mapError .build, run.files)

/-- Builds a project in the format with a name. -/
def buildNamed (project : Project) (name : String) (shop : Build.Workshop) (files : Files) :
    Except Fault Build.Report × Files :=
  match Format.find? name with
  | none => (.error (.unknownFormat name), files)
  | some format => project.finish format (project.run format shop files)

/-- Builds the project at `root` in the format with a name. What a build needs from outside depends on
the configuration, which says how long a tool may take. -/
def build (root : Path) (name fresh : String) (shop : Book → Build.Workshop) (files : Files) :
    Except Fault Build.Report × Files :=
  match Format.find? name with
  | none => (.error (.unknownFormat name), files)
  | some format =>
    match load files root fresh with
    | .error fault => (.error (.book fault), files)
    | .ok project => project.finish format (project.run format (shop project.book) files)

end Project

end Bindery
