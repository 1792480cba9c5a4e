import Bindery.Book.Basic
import Bindery.Build.Staging
import Bindery.Template.Source

/-!
# `Bindery.Build.Site` — what each stage does

A build works on one project in one format. Everything it makes is below the directory of that format;
templates and assets come from the source directory of the project.

**Contents.** `Site` and its paths; `Workshop`, what a build needs from outside; `Output`;
`Site.call?`, the call that a stage makes; `Site.perform`, a stage as a task on the file tree.
-/

namespace Bindery.Build

/-- A project with the format that it is built in. -/
structure Site where
  /-- the root of the project, from which all paths start -/
  root : Path
  book : Book
  format : Format

/-- Runs a call: how it ends, and what becomes of the file tree. -/
abbrev Runner := Tool.Call → Files → Except Tool.Fault Exit × Files

/-- What a build needs from outside. -/
structure Workshop where
  platform : Platform := .linux
  /-- how many templates may be in progress at once -/
  importLimit : Nat := 64
  /-- the time of the build, as templates see it -/
  buildDate : String
  runner : Runner
  /-- the order in which the directory of the build gives its names when it is emptied -/
  order : Files.Order := .byName
  /-- cancellation has been asked for when a stage is about to start -/
  cancelled : Stage → Bool := fun _ => false

/-- What a stage gives. -/
structure Output where
  /-- the file that the stage has made -/
  artifact : Option Path := none
  warnings : List String := []
deriving DecidableEq, Repr

namespace Site

/-- Where templates and assets are. -/
def sourceDir (site : Site) : Path :=
  site.root.join ⟨"book"⟩

/-- Where everything goes. -/
def buildDir (site : Site) : Path :=
  site.root.join site.format.buildDir

/-- Where pages and assets go. -/
def contentDir (site : Site) : Path :=
  site.buildDir.join site.format.contentDir

/-- The finished book. -/
def artifact (site : Site) : Path :=
  site.buildDir.join site.format.artifact

/-- The rendered book. -/
def renderedBook (site : Site) : Path :=
  site.contentDir.join ⟨"book.html"⟩

/-- The container, if the format has one. -/
def archive (site : Site) : Except Fault Path :=
  match site.format.archive? with
  | some name => .ok (site.buildDir.join name)
  | none => .error (.missingSource (site.buildDir.join ⟨"book.epub"⟩))

/-- The variables of the templates. -/
def binding (site : Site) (shop : Workshop) : Template.Binding :=
  site.book.bindingAt site.format shop.buildDate

/-! ## Calls -/

/-- The command of a tool, with arguments after it. -/
def command (site : Site) (tool : String) (command : List String) (args : List Raw) :
    Except Fault Tool.Call :=
  match Tool.Call.ofCommand tool command site.root with
  | .ok call => .ok (call.add args)
  | .error fault => .error (.tool fault)

/-- The check of the container. -/
def checkCall (site : Site) : Except Fault Tool.Call := do
  let archive ← site.archive
  site.command "epubcheck" site.book.tools.epubcheck [archive.raw]

/-- The conversion of the container for a hand-held device. -/
def deviceCall (site : Site) (platform : Platform) : Except Fault Tool.Call := do
  match site.book.tools.kindlegen.for? platform with
  | .error name => .error (.unsupportedPlatform name)
  | .ok converter =>
    let archive ← site.archive
    site.command "kindlegen" [converter.text] [archive.raw]

/-- The conversion of the rendered book for print. -/
def printCall (site : Site) : Except Fault Tool.Call :=
  site.command "prince" site.book.tools.prince [site.renderedBook.raw, "-o", site.artifact.raw]

/-- The call that a stage makes, or why it makes none; nothing for a stage without a tool. -/
def call? (site : Site) (platform : Platform) : Stage → Option (Except Fault Tool.Call)
  | .validate => some site.checkCall
  | .convertToDevice => some (site.deviceCall platform)
  | .convertToPdf => some site.printCall
  | _ => none

/-- The calls that a stage makes: one or none. -/
def calls (site : Site) (platform : Platform) (stage : Stage) : List Tool.Call :=
  match site.call? platform stage with
  | some (.ok call) => [call]
  | _ => []

/-- What a stage with a tool has made when the tool has succeeded. -/
def toolOutput (site : Site) : Stage → Output
  | .convertToDevice | .convertToPdf => { artifact := some site.artifact }
  | _ => {}

/-- Runs a call, which has to succeed. -/
def runCall (runner : Runner) (call : Tool.Call) : Work Unit := do
  let (result, files) := runner call (← get)
  set files
  match result with
  | .error fault => Work.fail (.tool fault)
  | .ok exit =>
    match call.check exit with
    | .ok () => return
    | .error fault => Work.fail (.tool fault)

/-! ## Stages -/

/-- Lays out the container. -/
def scaffold (site : Site) : Work Unit := do
  let packaging := site.sourceDir.join ⟨"epub"⟩
  let _ ← copyDir (packaging.join ⟨"META-INF"⟩) (site.buildDir.join ⟨"META-INF"⟩)
  makeDirs site.contentDir
  copyFile (packaging.join ⟨mimetype⟩) (site.buildDir.join ⟨mimetype⟩)

/-- Renders a page and writes it. -/
def render (site : Site) (shop : Workshop) (page : Page) : Work Output := do
  let engine := Template.Engine.below (← get) site.sourceDir shop.importLimit
  match engine.resolve (site.binding shop) page.template with
  | .error fault => Work.fail (.template fault)
  | .ok text => do
    let destination := site.contentDir.join page.output
    if let some parent := destination.parent? then makeDirs parent
    Work.change .writing destination (Files.write destination (.ofText text))
    return { artifact := some destination }

/-- Copies the assets, and takes the style sheets for other formats away. -/
def copyAssets (site : Site) : Work Output := do
  let destination := site.contentDir.join ⟨"assets"⟩
  let _ ← copyDir (site.sourceDir.join ⟨"assets"⟩) destination
  let missing ← prune (destination.join ⟨"css"⟩) site.format.foreignSheets
  return { warnings := missing.map fun name => "stylesheet " ++ name ++ " was not present" }

/-- Packs the container. -/
def packContainer (site : Site) : Work Output := do
  let archive ← site.archive
  pack site.buildDir archive
  return { artifact := some archive }

/-- A stage. -/
def perform (site : Site) (shop : Workshop) (stage : Stage) : Work Output := do
  match stage.page?, site.call? shop.platform stage with
  | some page, _ => site.render shop page
  | none, some call => do
    runCall shop.runner (← call)
    return site.toolOutput stage
  | none, none =>
    match stage with
    | .clean => do
      emptyDir site.buildDir shop.order
      return {}
    | .scaffoldContainer => do
      site.scaffold
      return {}
    | .copyAssets => site.copyAssets
    | .package => site.packContainer
    | _ => return {}

end Site

end Bindery.Build
