import Bindery.Build.Catalog
import Bindery.CommandLine.Request
import Bindery.Host
import Bindery.Project

/-!
# `Bindery.CommandLine.Reply` — what the program answers

A request is answered on two streams and by a status. The status is 0 if the request has been met, 1 if
a project cannot be loaded or built, and 2 if the arguments or the format are not known. The format is
looked up before the project, so that with an unknown one the project is not even read.

A failure is told with the chain of its causes, numbered if there are several.

**Contents.** `Reply`; `failureText`; `Reply.ofBuild`, the answer to the request to build;
`Reply.ofArguments`.
-/

namespace Bindery.CommandLine

/-- Outside the file tree, names are what is shown for them. -/
instance : CoeOut (List Raw) (List String) := ⟨List.map Raw.text⟩

/-- What the program answers. -/
structure Reply where
  status : Nat
  output : String := ""
  complaints : String := ""
  files : Files

/-- A text with `indent` before each further line. -/
def indented (indent text : String) : String :=
  String.ofList (text.toList.flatMap fun c => if c = '\n' then '\n' :: indent.toList else [c])

/-- A number, padded to a width of five. -/
def numbered (n : Nat) : String :=
  let digits := toString n
  String.ofList (List.replicate (5 - digits.length) ' ') ++ digits

/-- The lines for causes. -/
def causeLines : List String → List String
  | [cause] => ["    " ++ indented "    " cause]
  | causes => causes.mapIdx fun n cause => numbered n ++ ": " ++ indented "       " cause

/-- The text for a failure: what could not be done, and why. -/
def failureText (task : String) (causes : List String) : String :=
  "Error: " ++ task ++ "\n\nCaused by:\n" ++ "\n".intercalate (causeLines causes) ++ "\n"

/-- The name and number of the program. -/
def versionText : String := "bookshop 0.1.0\n"

/-- The switches that stand on both sides of the command. -/
def switchesText : String :=
  "  -v, --verbose      Verbose output\n"
    ++ "      --root <ROOT>  Project root containing config/ and book/ [default: .]\n"

/-- How the program is used. -/
def helpText : String :=
  "Usage: bookshop [OPTIONS] <COMMAND>\n\nCommands:\n"
    ++ "  build  Build the book in one output format\n"
    ++ "  help   Print this message or the help of the given subcommand(s)\n\nOptions:\n"
    ++ switchesText
    ++ "  -h, --help         Print help\n"
    ++ "  -V, --version      Print version\n"

/-- How the command is used. -/
def buildHelpText : String :=
  "Build the book in one output format\n\nUsage: bookshop build [OPTIONS] [FORMAT]\n\nArguments:\n"
    ++ "  [FORMAT]  Output format (html, epub, mobi, pdf)\n\nOptions:\n"
    ++ "      --json         Print the build report as JSON\n"
    ++ switchesText

/-- The text for refused arguments. -/
def Refusal.text : Refusal → String
  | nothing => helpText
  | misused argument =>
    "error: unexpected argument '" ++ argument ++ "'\n\nFor more information, try '--help'.\n"

/-- The text for a report. -/
def reportText (json : Bool) (report : Build.Report) : String :=
  (if json then report.toJson.pretty else report.artifact.text) ++ "\n"

/-- What a request needs from outside. -/
structure Occasion where
  /-- an identifier for a book that has none -/
  fresh : String
  /-- the time, as templates see it -/
  date : String

namespace Reply

/-- Answers with a text. -/
def telling (text : String) (files : Files) : Reply :=
  { status := 0, output := text, files }

/-- Tells a failure. -/
def failing (task : String) (causes : List String) (files : Files) : Reply :=
  { status := 1, complaints := failureText task causes, files }

/-- Names that ask for the list of formats. -/
def asksForUsage : Option String → Bool
  | none => true
  | some name => name = "-h" || name = "--help"

/-- Builds the project at a root. -/
def ofProject (occasion : Occasion) (root : Path) (format : Format) (json : Bool) (files : Files) :
    Reply :=
  match Project.load files root occasion.fresh with
  | .error fault => failing ("Failed to load project at " ++ root.text) fault.causes files
  | .ok project =>
    let run := project.run format (Host.workshop occasion.date project.book) files
    match run.result (project.site format) with
    | .error failure => failing ("Failed to build " ++ format.name) failure.causes run.files
    | .ok report => telling (reportText json report) run.files

/-- Answers the request to build. -/
def ofBuild (occasion : Occasion) (root : Path) (name : Option String) (json : Bool) (files : Files) :
    Reply :=
  if asksForUsage name then telling usage files
  else match name.bind Format.find? with
    | none => { status := 2, complaints := "Error: Command not recognized\n" ++ usage, files }
    | some format => ofProject occasion root format json files

/-- Answers a request. -/
def ofRequest (occasion : Occasion) (files : Files) : Request → Reply
  | .build root name json => ofBuild occasion ⟨root⟩ name json files
  | .help => telling helpText files
  | .buildHelp => telling buildHelpText files
  | .version => telling versionText files

/-- Answers arguments. -/
def ofArguments (occasion : Occasion) (arguments : List String) (files : Files) : Reply :=
  match Request.ofArguments arguments with
  | .ok request => ofRequest occasion files request
  | .error refusal => { status := 2, complaints := refusal.text, files }

end Reply

end Bindery.CommandLine
