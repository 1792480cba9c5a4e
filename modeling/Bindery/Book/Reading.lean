import Bindery.Book.Basic
import Bindery.Book.Fault
import Bindery.Files.Access
import Bindery.Text.Blank

/-!
# `Bindery.Book.Reading` — reading a configuration

A configuration is a YAML mapping. Title, author, language, identifier and the parts of the commands
take the text of any scalar, whatever it looks like. A chapter is a string or a mapping with a title
that is a string. Entries with other names are free: they take any value without tags of one's own, and
of two with one name the last one counts. A fixed entry may be there only once.

Title and author must be there, and the title must not be blank. A book without an identifier gets a
fresh one.

**Contents.** `scalarText?`, `textList?`; `Chapter.ofTree?`, `Tools.ofTree?`, `Book.ofTree?`;
`Book.ofText` and `Book.load`, which give the reason when there is no book.
-/

namespace Bindery

open Yaml (Tree)

/-- The text of a scalar. -/
def scalarText? : Tree → Option String
  | .scalar _ text _ => some text
  | _ => none

/-- The tree stands for nothing: a plain scalar without text. -/
def isLeftOut : Tree → Bool
  | .scalar _ text plain => plain && text.isEmpty
  | _ => false

/-- The items of a list, none if it is left out. -/
def itemsOf? : Tree → Option (List Tree)
  | .list _ items => some items
  | tree => if isLeftOut tree then some [] else none

/-- The entries of a mapping, none if it is left out. -/
def entriesOf? : Tree → Option (List (Tree × Tree))
  | .dict _ entries => some entries
  | tree => if isLeftOut tree then some [] else none

/-- The texts of a list of scalars. -/
def textList? (tree : Tree) : Option (List String) := do
  (← itemsOf? tree).mapM scalarText?

/-- Goes through the entries of a mapping whose keys are taken by their text. -/
def foldEntries? {β : Type} (step : β → String → Tree → Option β) :
    β → List (Tree × Tree) → Option β
  | state, [] => some state
  | state, (key, value) :: entries => do
    foldEntries? step (← step state (← scalarText? key) value) entries

/-- Fills a place that is still empty. -/
def fill? {β : Type} (place : Option β) (value : Option β) : Option (Option β) :=
  if place.isSome then none else value.map some

/-! ## Chapters -/

namespace Chapter

/-- A chapter that is being read. -/
structure Draft where
  title : Option String := none
  file : Option (Option String) := none
  extra : Dict String Yaml.Value := []

/-- Adds an entry of a chapter's mapping. -/
def Draft.add? (draft : Draft) (key value : Yaml.Value) : Option Draft :=
  match key, value with
  | .text "title", .text title => do return { draft with title := ← fill? draft.title (some title) }
  | .text "title", _ => none
  | .text "file", .text file => do return { draft with file := ← fill? draft.file (some (some file)) }
  | .text "file", .null => do return { draft with file := ← fill? draft.file (some none) }
  | .text "file", _ => none
  | .text name, value => some { draft with extra := Dict.insert name value draft.extra }
  | _, _ => none

/-- Goes through the entries of a chapter's mapping. -/
def Draft.addAll? : Draft → List (Yaml.Value × Yaml.Value) → Option Draft
  | draft, [] => some draft
  | draft, (key, value) :: entries => do (← draft.add? key value).addAll? entries

/-- The chapter that a tree stands for. -/
def ofTree? : Tree → Option Chapter
  | .scalar tag text plain =>
    match Yaml.Value.ofScalar? false tag text plain with
    | some (.text title) => some { title }
    | _ => none
  | .dict tag entries => do
    if (Yaml.Value.ownTag? tag).isSome then none
    let draft ← ({} : Draft).addAll? (← Yaml.Value.ofEntries? false entries)
    return { title := ← draft.title, file := draft.file.join, extra := draft.extra }
  | _ => none

end Chapter

/-! ## Tools -/

namespace Converters

/-- The three programs while they are being read. -/
structure Draft where
  linux : Option String := none
  macos : Option String := none
  windows : Option String := none

/-- Adds an entry; unknown ones are passed over. -/
def Draft.add? (draft : Draft) (name : String) (tree : Tree) : Option Draft :=
  match name with
  | "linux" => do return { draft with linux := ← fill? draft.linux (scalarText? tree) }
  | "macos" => do return { draft with macos := ← fill? draft.macos (scalarText? tree) }
  | "windows" => do return { draft with windows := ← fill? draft.windows (scalarText? tree) }
  | _ => some draft

/-- The programs that a tree stands for; those that are left out have their usual names. -/
def ofTree? (tree : Tree) : Option Converters := do
  let draft ← foldEntries? Draft.add? {} (← entriesOf? tree)
  let usual : Converters := {}
  return { linux := (draft.linux.map fun text => ⟨text⟩).getD usual.linux
           macos := (draft.macos.map fun text => ⟨text⟩).getD usual.macos
           windows := (draft.windows.map fun text => ⟨text⟩).getD usual.windows }

end Converters

namespace Tools

/-- A number of seconds: a plain integer of 64 bits without a minus sign, or null. -/
def seconds? : Tree → Option (Option Nat)
  | .scalar tag text true =>
    if tag = some "tag:yaml.org,2002:null" then
      if Yaml.Value.isNull text then some none else none
    else if tag.isNone ∧ (text.isEmpty ∨ Yaml.Value.isNull text) then some none
    else if text.toList.head? = some '-' then none
    else match Yaml.integer? text.toList with
      | some (.ofNat n) => if n < Nat.pow 2 64 then some (some n) else none
      | _ => none
  | _ => none

/-- The tools while they are being read. -/
structure Draft where
  epubcheck : Option (List String) := none
  kindlegen : Option Converters := none
  prince : Option (List String) := none
  timeout : Option (Option Nat) := none

/-- Adds an entry; unknown ones are passed over. -/
def Draft.add? (draft : Draft) (name : String) (tree : Tree) : Option Draft :=
  match name with
  | "epubcheck" => do return { draft with epubcheck := ← fill? draft.epubcheck (textList? tree) }
  | "kindlegen" => do return { draft with kindlegen := ← fill? draft.kindlegen (Converters.ofTree? tree) }
  | "prince" => do return { draft with prince := ← fill? draft.prince (textList? tree) }
  | "timeout_secs" => do return { draft with timeout := ← fill? draft.timeout (seconds? tree) }
  | _ => some draft

/-- The tools that a tree stands for; those that are left out have their usual commands. -/
def ofTree? (tree : Tree) : Option Tools := do
  let draft ← foldEntries? Draft.add? {} (← entriesOf? tree)
  let usual : Tools := {}
  return { epubcheck := draft.epubcheck.getD usual.epubcheck
           kindlegen := draft.kindlegen.getD usual.kindlegen
           prince := draft.prince.getD usual.prince
           timeout := draft.timeout.join }

end Tools

/-! ## Books -/

namespace Book

/-- A book that is being read. -/
structure Draft where
  title : Option String := none
  author : Option String := none
  chapters : Option (List Chapter) := none
  language : Option String := none
  identifier : Option String := none
  tools : Option Tools := none
  metadata : Dict String Yaml.Value := []

/-- Adds an entry. -/
def Draft.add? (draft : Draft) (name : String) (tree : Tree) : Option Draft :=
  match name with
  | "title" => do return { draft with title := ← fill? draft.title (scalarText? tree) }
  | "author" => do return { draft with author := ← fill? draft.author (scalarText? tree) }
  | "chapters" => do
    let chapters := (itemsOf? tree).bind fun items => items.mapM Chapter.ofTree?
    return { draft with chapters := ← fill? draft.chapters chapters }
  | "language" => do return { draft with language := ← fill? draft.language (scalarText? tree) }
  | "identifier" => do return { draft with identifier := ← fill? draft.identifier (scalarText? tree) }
  | "tools" => do return { draft with tools := ← fill? draft.tools (Tools.ofTree? tree) }
  | _ => do
    let value ← Yaml.Value.ofTree? false tree
    return { draft with metadata := Dict.insert name value draft.metadata }

/-- The book that a tree stands for. -/
def ofTree? (fresh : String) (tree : Tree) : Option Book := do
  let draft ← foldEntries? Draft.add? {} (← entriesOf? tree)
  return { title := ← draft.title
           author := ← draft.author
           chapters := draft.chapters.getD []
           language := draft.language.getD "en"
           identifier := draft.identifier.getD fresh
           tools := draft.tools.getD {}
           metadata := draft.metadata }

/-- The book that a text stands for; `origin` is named if it does not, and `fresh` is the identifier of
a book without one. -/
def ofText (origin : Path) (fresh text : String) : Except Fault Book :=
  match (Tree.ofText? text).bind (ofTree? fresh) with
  | none => .error (.malformed origin)
  | some book =>
    if (Text.trim book.title.toList).isEmpty then .error .missingTitle else .ok book

/-- Where the configuration is, below the root of a project. -/
def configPath : Path :=
  ⟨"config/book.yml"⟩

/-- The book of the project at `root`. -/
def load (files : Files) (root : Path) (fresh : String) : Except Fault Book :=
  let path := root.join configPath
  match files.readText path with
  | .error .notFound => .error (.notFound path)
  | .error fault => .error (.unreadable path fault)
  | .ok text => ofText path fresh text

end Book

end Bindery
