import Bindery.Dict
import Bindery.Files.Content
import Bindery.Path

/-!
# `Bindery.Files.Tree` — the file tree

A tree of directories, files and symbolic links, kept as a table from locations to entries. A location
is the chain of names from the root of the tree, so links play no part in it; the root itself is a
directory without an entry of its own. Names are bytes and need not be the UTF-8 of a text.

A file is in one place: there are no hard links, and so no two names for the same content. There are no devices
or pipes either, and nobody is refused access; of the permissions of a file only the one to execute it is kept.

**Contents.** `Location` and `Location.under?`; `Files.Entry` and `Files`; `Files.find?`,
`Files.put`, `Files.remove` and `Files.clear`, each with its effect on look-up; `Files.children` and
`Files.subtree`, which list what is below a location.
-/

namespace Bindery

/-- The names on the way from the root of the tree. -/
abbrev Location := List Raw

/-- The names that lead from `base` to a location at or below it. -/
def Location.under? : (base location : Location) → Option (List Raw)
  | [], rest => some rest
  | _ :: _, [] => none
  | b :: base, l :: location => if b = l then under? base location else none

theorem Location.under?_eq_some_iff {base location rest : Location} :
    under? base location = some rest ↔ location = base ++ rest := by
  induction base generalizing location with
  | nil => simp [under?, eq_comm]
  | cons b base ih =>
    cases location with
    | nil => simp [under?]
    | cons l location =>
      by_cases h : b = l
      · simp [under?, h, ih]
      · simp [under?, h, Ne.symm h]

/-- What is at a location. -/
inductive Files.Entry where
  | dir
  | file (content : Files.Content) (executable : Bool)
  /-- a symbolic link with the path it holds -/
  | link (target : Path)
deriving DecidableEq

/-- A file tree, and the directory in it that relative paths start from. -/
structure Files where
  home : Location
  entries : Dict Location Files.Entry
deriving DecidableEq

namespace Files

/-- What is at a location, if anything is. -/
def find? (files : Files) (location : Location) : Option Entry :=
  if location = [] then some .dir else Dict.find? location files.entries

/-- Puts an entry at a location. -/
def put (location : Location) (entry : Entry) (files : Files) : Files :=
  { files with entries := Dict.insert location entry files.entries }

/-- Takes the entry at a location away. -/
def remove (location : Location) (files : Files) : Files :=
  { files with entries := Dict.erase location files.entries }

/-- A location below another one, not the same. -/
def Below (base location : Location) : Prop :=
  ∃ name rest, location = base ++ name :: rest

/-- A location is below another one when some name leads there. -/
def isBelow (base location : Location) : Bool :=
  match Location.under? base location with
  | some (_ :: _) => true
  | _ => false

theorem isBelow_iff {base location : Location} : isBelow base location = true ↔ Below base location := by
  unfold isBelow Below
  constructor
  · intro h
    split at h
    · next name rest found => exact ⟨name, rest, Location.under?_eq_some_iff.1 found⟩
    · simp at h
  · rintro ⟨name, rest, rfl⟩
    rw [Location.under?_eq_some_iff.2 rfl]

instance (base location : Location) : Decidable (Below base location) :=
  decidable_of_iff _ isBelow_iff

/-- Takes everything below a location away, and leaves the location itself. -/
def clear (location : Location) (files : Files) : Files :=
  { files with entries := files.entries.filter fun entry => ¬Below location entry.1 }

/-- The names in a directory with what they lead to. -/
def children (files : Files) (location : Location) : List (Raw × Entry) :=
  files.entries.filterMap fun (place, entry) =>
    match Location.under? location place with
    | some [name] => some (name, entry)
    | _ => none

/-- Everything below a location, each with the names that lead to it. -/
def subtree (files : Files) (location : Location) : List (List Raw × Entry) :=
  files.entries.filterMap fun (place, entry) =>
    match Location.under? location place with
    | some (name :: rest) => some (name :: rest, entry)
    | _ => none

/-! ## Look-up after a change -/

@[simp] theorem find?_nil (files : Files) : files.find? [] = some .dir := by
  simp [find?]

@[simp] theorem home_put (location : Location) (entry : Entry) (files : Files) :
    (files.put location entry).home = files.home := rfl

theorem find?_put_self {location : Location} (h : location ≠ []) (entry : Entry) (files : Files) :
    (files.put location entry).find? location = some entry := by
  simp [find?, put, h]

theorem find?_put_of_ne {location place : Location} (h : place ≠ location) (entry : Entry)
    (files : Files) : (files.put location entry).find? place = files.find? place := by
  simp [find?, put, Dict.find?_insert_of_ne h]

theorem find?_remove_self {location : Location} (h : location ≠ []) (files : Files) :
    (files.remove location).find? location = none := by
  simp [find?, remove, h]

theorem find?_remove_of_ne {location place : Location} (h : place ≠ location) (files : Files) :
    (files.remove location).find? place = files.find? place := by
  simp [find?, remove, Dict.find?_erase_of_ne h]

theorem find?_clear_of_below {location place : Location} (h : Below location place)
    (files : Files) : (files.clear location).find? place = none := by
  have ne : place ≠ [] := by
    obtain ⟨name, rest, rfl⟩ := h
    simp
  simp only [find?, clear, if_neg ne]
  exact Dict.find?_filter_of_false _ (by simp [h])

theorem find?_clear_of_not_below {location place : Location} (h : ¬Below location place)
    (files : Files) : (files.clear location).find? place = files.find? place := by
  unfold find? clear
  split
  · rfl
  · exact Dict.find?_filter_of_true _ (by simp [h])

end Files

end Bindery
