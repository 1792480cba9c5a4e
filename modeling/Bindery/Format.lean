import Bindery.Path

/-!
# `Bindery.Format` — the formats of a book

A book is bound into one of four formats. Each has a directory of its own for everything a build makes,
and within it a place for the content and one file that is the finished book.

**Contents.** `Format` with its names (`name`, `aliases`, `Format.find?`), its places (`buildDir`,
`contentDir`, `archive?`, `artifact`, `artifactPath`) and its style sheets (`stylesheet`, `foreignSheets`).
-/

namespace Bindery

/-- What a book can be bound into. -/
inductive Format where
  | html
  | epub
  | mobi
  | pdf
deriving DecidableEq, Repr

namespace Format

/-- All formats, in the order in which they are listed. -/
def all : List Format :=
  [html, epub, mobi, pdf]

/-- The name of a format. -/
def name : Format → String
  | html => "html"
  | epub => "epub"
  | mobi => "mobi"
  | pdf => "pdf"

/-- Other names of a format. -/
def aliases : Format → List String
  | pdf => ["p"]
  | _ => []

/-- The format with a name, without regard to aliases. -/
def ofName? (text : String) : Option Format :=
  all.find? fun format => format.name == text

/-- The format with a name or an alias. -/
def find? (text : String) : Option Format :=
  all.find? fun format => format.name == text || format.aliases.contains text

/-- Nothing is known by that name. -/
def unknownMessage (text : String) : String :=
  "Command not recognized: " ++ text

/-- The format is made from an e-book container. -/
def isContainer : Format → Bool
  | epub | mobi => true
  | html | pdf => false

/-- The directory of a build, below the root of the project. -/
def buildDir : Format → Path
  | html => ⟨"builds/html"⟩
  | epub => ⟨"builds/epub"⟩
  | mobi => ⟨"builds/mobi"⟩
  | pdf => ⟨"builds/pdf"⟩

/-- Where pages and assets go, below the directory of the build. -/
def contentDir (format : Format) : Path :=
  if format.isContainer then ⟨"OEBPS"⟩ else ⟨""⟩

/-- The container, below the directory of the build. -/
def archive? (format : Format) : Option Path :=
  if format.isContainer then some ⟨"book.epub"⟩ else none

/-- The finished book, below the directory of the build. -/
def artifact : Format → Path
  | html => ⟨"book.html"⟩
  | epub => ⟨"book.epub"⟩
  | mobi => ⟨"book.mobi"⟩
  | pdf => ⟨"book.pdf"⟩

/-- The finished book, below the root of the project. -/
def artifactPath (format : Format) : Path :=
  format.buildDir.join format.artifact

/-- The style sheet that is meant for a format. -/
def stylesheet (format : Format) : String :=
  "stylesheet." ++ format.name ++ ".css"

/-- The style sheets that a container does not take along: those of the other formats. -/
def foreignSheets (format : Format) : List String :=
  if format.isContainer then (all.filter (· ≠ format)).map stylesheet else []

theorem mem_all (format : Format) : format ∈ all := by
  cases format <;> decide

theorem find?_name (format : Format) : find? format.name = some format := by
  cases format <;> decide

end Format

end Bindery
