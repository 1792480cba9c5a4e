import Bindery.Book.Basic
import Bindery.Json

/-!
# `Bindery.Book.Writing` — a configuration as a value

The value that a configuration is written as: a mapping with the fixed entries, then the free ones. The
tools are left out when they are the usual ones. The path of a converter is written as it is shown, which is the
path itself only if it is a text.

**Contents.** `Chapter.toYaml`, `Tools.toYaml`, `Book.toYaml`; `Json.ofYaml`, a value in JSON, where
keys are strings and numbers that JSON has no text for are null.
-/

namespace Bindery

open Yaml (Value)

/-- A mapping with keys that are strings. -/
def Yaml.Value.ofFields (fields : List (String × Value)) : Value :=
  .dict (fields.map fun (name, value) => (.text name, value))

/-- The value that a chapter is written as. -/
def Chapter.toYaml (chapter : Chapter) : Value :=
  .ofFields
    ([("title", .text chapter.title),
      ("file", match chapter.file with | some file => .text file | none => .null)] ++ chapter.extra)

/-- The value that the tools are written as. -/
def Tools.toYaml (tools : Tools) : Value :=
  .ofFields
    [("epubcheck", .list (tools.epubcheck.map .text)),
     ("kindlegen", .ofFields
       [("linux", .text tools.kindlegen.linux.text), ("macos", .text tools.kindlegen.macos.text),
        ("windows", .text tools.kindlegen.windows.text)]),
     ("prince", .list (tools.prince.map .text)),
     ("timeout_secs", match tools.timeout with | some n => .int n | none => .null)]

/-- The value that a book is written as. -/
def Book.toYaml (book : Book) : Value :=
  .ofFields
    ([("title", .text book.title), ("author", .text book.author),
      ("chapters", .list (book.chapters.map Chapter.toYaml)), ("language", .text book.language),
      ("identifier", .text book.identifier)]
     ++ (if book.tools.Same {} then [] else [("tools", book.tools.toYaml)])
     ++ book.metadata)

mutual

/-- A value in JSON. -/
def Json.ofYaml : Value → Json
  | .null => .null
  | .bool b => .bool b
  | .int n => .number (toString n)
  | .float x =>
    match x with
    | .finite .. => .number x.text
    | _ => .null
  | .text s => .text s
  | .list items => .array (Json.itemsOfYaml items)
  | .dict entries => .object (Json.fieldsOfYaml entries)
  | .tagged _ value => Json.ofYaml value

/-- The items of a list in JSON. -/
def Json.itemsOfYaml : List Value → List Json
  | [] => []
  | item :: items => Json.ofYaml item :: Json.itemsOfYaml items

/-- The entries of a mapping in JSON; keys that are no scalars are left out. -/
def Json.fieldsOfYaml : List (Value × Value) → List (String × Json)
  | [] => []
  | (key, value) :: entries =>
    match Template.keyOfYaml? key with
    | some name => (name, Json.ofYaml value) :: Json.fieldsOfYaml entries
    | none => Json.fieldsOfYaml entries

end

end Bindery
