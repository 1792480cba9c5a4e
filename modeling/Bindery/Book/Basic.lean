import Bindery.Format
import Bindery.Template.Conversion

/-!
# `Bindery.Book.Basic` — what is known about a book

The configuration of a book: its title, author, chapters, language and identifier, the commands of the
tools that a build calls, and any further entries, which are free.

**Contents.** `Chapter`, `Converters`, `Tools` and `Book`; `Converters.Same` and `Tools.Same`, which
compare paths by their components; `Chapter.value` and `Book.binding`, what templates see of them.
-/

namespace Bindery

open Template (Binding)

/-- A chapter: its title, the template of its body, and free entries. -/
structure Chapter where
  title : String
  file : Option String := none
  extra : Dict String Yaml.Value := []
deriving Repr

/-- The converter for hand-held devices, one program for each platform. -/
structure Converters where
  linux : Path := ⟨"script/kindlegen/kindlegen_linux"⟩
  macos : Path := ⟨"script/kindlegen/kindlegen_mac"⟩
  windows : Path := ⟨"script/kindlegen/kindlegen.exe"⟩
deriving DecidableEq, Repr

/-- The tools that a build calls. -/
structure Tools where
  /-- the command that checks a container, to which the container is added -/
  epubcheck : List String := ["java", "-jar", "script/epubcheck/epubcheck.jar"]
  kindlegen : Converters := {}
  /-- the command that makes a document for print, to which input and output are added -/
  prince : List String := ["prince", "-v"]
  /-- how many seconds a tool may take -/
  timeout : Option Nat := none
deriving DecidableEq, Repr

/-- The same programs; paths are compared by their components. -/
def Converters.Same (these those : Converters) : Prop :=
  these.linux.Same those.linux ∧ these.macos.Same those.macos ∧ these.windows.Same those.windows

instance (these those : Converters) : Decidable (these.Same those) :=
  inferInstanceAs (Decidable (_ ∧ _ ∧ _))

/-- The same tools, up to how the paths of the converters are written. -/
def Tools.Same (these those : Tools) : Prop :=
  these.epubcheck = those.epubcheck ∧ these.kindlegen.Same those.kindlegen ∧
    these.prince = those.prince ∧ these.timeout = those.timeout

instance (these those : Tools) : Decidable (these.Same those) :=
  inferInstanceAs (Decidable (_ ∧ _ ∧ _ ∧ _))

/-- What is known about a book. -/
structure Book where
  title : String
  author : String
  chapters : List Chapter := []
  language : String := "en"
  identifier : String
  tools : Tools := {}
  metadata : Dict String Yaml.Value := []
deriving Repr

/-- What templates see of a chapter: title and file, over its free entries. -/
def Chapter.value (chapter : Chapter) : Template.Value :=
  let file := match chapter.file with
    | some file => Template.Value.str file
    | none => .nil
  .map (((Dict.mapValues Template.Value.ofYaml chapter.extra).insert "title" (.str chapter.title)).insert
    "file" file)

namespace Book

/-- The variables for the entries of a book that have a fixed name. -/
def fixedVariables (book : Book) : Binding :=
  Dict.ofList
    [("title", .str book.title), ("author", .str book.author), ("language", .str book.language),
     ("identifier", .str book.identifier), ("chapters", .list (book.chapters.map Chapter.value))]

/-- What templates see of the free entries. -/
def freeVariables (book : Book) : Binding :=
  Dict.mapValues .ofYaml book.metadata

/-- What templates see of a book, when it is bound into a format. -/
def binding (book : Book) (format : Format) : Binding :=
  Dict.overlay book.fixedVariables
    [("output", .str format.name), ("metadata", .map book.freeVariables),
     ("book", .map (Dict.overlay book.freeVariables book.fixedVariables))]

/-- What templates see of a book during a build. -/
def bindingAt (book : Book) (format : Format) (buildDate : String) : Binding :=
  (book.binding format).insert "build_date" (.str buildDate)

end Book

end Bindery
