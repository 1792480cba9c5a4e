import Bindery.Files.Tree

/-!
# `Bindery.Files.Change` — from one tree to another

What has to be done to a tree so that it becomes another one: first entries are taken away, the ones
inside a directory before the directory, then entries are put in place, directories before what is in
them.

**Contents.** `Files.Change`; `Files.changes`, from an old and a new tree.
-/

namespace Bindery.Files

/-- A step from one tree to another. -/
inductive Change where
  | takeAway (location : Location) (entry : Entry)
  | place (location : Location) (entry : Entry)

/-- Two entries of which one can take the place of the other without being taken away first. -/
def Entry.replaces : (new old : Entry) → Bool
  | .dir, .dir => true
  | .file .., .file .. => true
  | _, _ => false

/-- The steps from an old tree to a new one. -/
def changes (old new : Files) : List Change :=
  let gone := old.entries.filter fun (location, entry) =>
    match new.find? location with
    | some now => !now.replaces entry
    | none => true
  let made := new.entries.filter fun (location, entry) => old.find? location != some entry
  gone.reverse.map (fun (location, entry) => .takeAway location entry)
    ++ made.map fun (location, entry) => .place location entry

end Bindery.Files
