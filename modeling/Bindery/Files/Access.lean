import Bindery.Files.Walk

/-!
# `Bindery.Files.Access` — reading and changing the tree

The operations by path. Each one either fails with a fault and leaves the tree as it was, or gives the
changed tree, except that making a directory with those around it and taking one away with all that is in it
may stop half-way. Writing to a file keeps whether it is executable; a copy takes that over from its source.

**Contents.** `Files.read`, `Files.readText` and `Files.list`; `Files.openDir`, `Files.names`, `Files.entryIn`
and `Files.Order`, an open directory; `Files.write`, `Files.copy`, `Files.makeDir`, `Files.ensureDir`,
`Files.makeDirs`, `Files.makeLink`, `Files.unlink`, `Files.removeDir`, `Files.removeTree`,
`Files.setExecutable`, `Files.removeAll`.
-/

namespace Bindery.Files

/-- The content of the file at a path. -/
def read (files : Files) (path : Path) : Except Fault Content := do
  match ← files.spot true path with
  | .present _ (.file content _) => return content
  | .present _ _ => .error .isDirectory
  | .absent _ => .error .notFound

/-- The text of the file at a path. -/
def readText (files : Files) (path : Path) : Except Fault String := do
  match (← files.read path).text? with
  | some text => return text
  | none => .error .notText

/-- The names in the directory at a path, in order, with what they lead to. -/
def list (files : Files) (path : Path) : Except Fault (List (Raw × Entry)) := do
  match ← files.spot true path with
  | .present location .dir => return files.children location
  | .present _ _ => .error .notDirectory
  | .absent _ => .error .notFound

/-- The directory that a path leads to, opened: it stays the same one wherever its path leads later. -/
def openDir (files : Files) (path : Path) : Except Fault Location := do
  match ← files.spot true path with
  | .present location .dir => return location
  | .present _ _ => .error .notDirectory
  | .absent _ => .error .notFound

/-- The names in an open directory. -/
def names (files : Files) (location : Location) : List Raw :=
  (files.children location).map Prod.fst

/-- What an open directory has under a name. -/
def entryIn (files : Files) (location : Location) (name : Raw) : Except Fault Entry :=
  match files.find? (location ++ [name]) with
  | some entry => .ok entry
  | none => .error .notFound

/-- An order in which open directories give their names: each of them once, and no more is promised. -/
structure Order where
  arrange : List Raw → List Raw
  perm : ∀ names, List.Perm (arrange names) names

/-- The order of the names themselves, in which the tree keeps them. -/
def Order.byName : Order :=
  ⟨id, fun _ => .rfl⟩

/-- Where a file can be written, and whether it is executable. -/
def writable (files : Files) (path : Path) : Except Fault (Location × Bool) := do
  if path.endsInSlash then
    let _ ← files.place path
    .error .isDirectory
  else match ← files.spot true path with
    | .present location (.file _ executable) => return (location, executable)
    | .present _ _ => .error .isDirectory
    | .absent location => return (location, false)

/-- Writes a file, and makes it if there is none. -/
def write (path : Path) (content : Content) (files : Files) : Except Fault Files := do
  let (location, executable) ← files.writable path
  return files.put location (.file content executable)

/-- Copies the file that `source` leads to. The destination is emptied before the source is read, so
that a file copied onto itself ends up empty. -/
def copy (source destination : Path) (files : Files) : Except Fault Files := do
  match ← files.spot true source with
  | .present location (.file content executable) =>
    let (place, _) ← files.writable destination
    let copied := if place = location then Content.empty else content
    return files.put place (.file copied executable)
  | .present _ _ => .error .notRegularFile
  | .absent _ => .error .notFound

/-- Makes a directory; the one around it has to be there. -/
def makeDir (path : Path) (files : Files) : Except Fault Files := do
  match ← files.place path with
  | .present _ _ => .error .alreadyExists
  | .absent location => return files.put location .dir

/-- Makes a directory unless there is one already. -/
def ensureDir (path : Path) (files : Files) : Except Fault Unit × Files :=
  match files.makeDir path with
  | .ok files => (.ok (), files)
  | .error fault => (if files.isDirectory path then .ok () else .error fault, files)

/-- Makes a directory and those around it that are missing, at most `levels` in all. -/
def makeDirsUpTo : (levels : Nat) → Path → Files → Except Fault Unit × Files
  | 0, _, files => (.ok (), files)
  | levels + 1, path, files =>
    if path.isEmpty then (.ok (), files)
    else match files.ensureDir path with
      | (.error .notFound, files) =>
        match path.parent? with
        | none => (.error .notFound, files)
        | some parent =>
          match makeDirsUpTo levels parent files with
          | (.ok (), files) => files.ensureDir path
          | failed => failed
      | made => made

/-- Makes a directory and those around it that are missing. Those made before a fault stay. -/
def makeDirs (path : Path) (files : Files) : Except Fault Unit × Files :=
  makeDirsUpTo (path.components.length + 1) path files

/-- Makes a symbolic link that holds the path `target`. -/
def makeLink (path target : Path) (files : Files) : Except Fault Files := do
  match ← files.place path with
  | .present _ _ => .error .alreadyExists
  | .absent location => return files.put location (.link target)

/-- Takes a file or a link away, but no directory. -/
def unlink (path : Path) (files : Files) : Except Fault Files := do
  match ← files.place path with
  | .absent _ => .error .notFound
  | .present _ .dir => .error .isDirectory
  | .present location _ =>
    if path.endsInSlash then .error .notDirectory else return files.remove location

/-- Takes a directory away, which has to be empty. -/
def removeDir (path : Path) (files : Files) : Except Fault Files := do
  match ← files.place path with
  | .absent _ => .error .notFound
  | .present location .dir =>
    if (files.children location).isEmpty then return files.remove location else .error .notEmpty
  | .present _ _ => .error .notDirectory

/-- Takes a directory away with everything below it; links are taken away and not followed. What is below the
directory goes first, by way of the open directory, which cannot fail. Then the directory itself goes by its
path. If that leads nowhere any more, for it went through what was below the directory, the directory counts as
gone already, and stays empty. -/
def removeTree (path : Path) (files : Files) : Except Fault Unit × Files :=
  match files.place path with
  | .error fault => (.error fault, files)
  | .ok (.absent _) => (.error .notFound, files)
  | .ok (.present _ (.file ..)) => (.error .notDirectory, files)
  | .ok (.present location (.link _)) => (.ok (), files.remove location)
  | .ok (.present location .dir) =>
    match (files.clear location).removeDir path with
    | .ok files => (.ok (), files)
    | .error .notFound => (.ok (), files.clear location)
    | .error fault => (.error fault, files.clear location)

/-- Sets whether the file at a path is executable. -/
def setExecutable (path : Path) (executable : Bool) (files : Files) : Except Fault Files := do
  match ← files.spot true path with
  | .present location (.file content _) => return files.put location (.file content executable)
  | .present _ _ => return files
  | .absent _ => .error .notFound

/-- Takes whatever a path names away, with everything below it; a link is not followed. -/
def removeAll (path : Path) (files : Files) : Except Fault Files := do
  match ← files.place path with
  | .absent _ => .error .notFound
  | .present location _ => return (files.clear location).remove location

end Bindery.Files
