/-!
# `Bindery.Files.Content` — what a file holds

A file holds bytes, or an archive that is kept as the list of its entries. A text is kept as its UTF-8
bytes.

**Contents.** `Files.Packed`, an archive entry; `Files.Content`; `Content.ofText` and `Content.text?`.
-/

namespace Bindery.Files

/-- Data are the same when their bytes are. -/
local instance (priority := 2000) decideBytes : DecidableEq ByteArray := fun a b =>
  decidable_of_iff (a.data = b.data) ⟨fun h => by cases a; cases b; exact congrArg _ h, congrArg _⟩

/-- An entry of an archive. -/
structure Packed where
  /-- the names on the way to the entry, with slashes between them -/
  name : String
  /-- kept as it is, instead of deflated -/
  stored : Bool
  data : ByteArray
deriving DecidableEq

/-- What a file holds. -/
inductive Content where
  | bytes (data : ByteArray)
  | archive (entries : List Packed)
deriving DecidableEq

namespace Content

/-- A text, as the bytes of its characters. -/
def ofText (text : String) : Content :=
  .bytes text.toUTF8

/-- Nothing at all. -/
def empty : Content :=
  .bytes ByteArray.empty

/-- The text that a content is, if it is one. -/
def text? : Content → Option String
  | .bytes data => String.fromUTF8? data
  | .archive _ => none

@[simp] theorem text?_ofText (text : String) : (ofText text).text? = some text := by
  have valid : text.toUTF8.IsValidUTF8 := text.isValidUTF8
  simp only [ofText, text?, String.fromUTF8?, valid, ↓reduceDIte, Option.some.injEq]
  rfl

end Content

end Bindery.Files
