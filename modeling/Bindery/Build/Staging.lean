import Bindery.Build.Fault
import Bindery.Files.Access
import Bindery.Files.Archive

/-!
# `Bindery.Build.Staging` — preparing directories

What stages do to directories: empty one, copy one into another, take files away, pack one into an
archive. Each works on the file tree and may fail half-way, which leaves done what has been done.

**Contents.** `Work`, a task on the file tree; `emptyDir`, `copyDir`, `copyFile`, `prune` and `pack`.
-/

namespace Bindery.Build

open Files (Entry)

/-- A task on the file tree, which may fail; what it did until then stays done. -/
abbrev Work := ExceptT Fault (StateM Files)

namespace Work

/-- Fails. -/
def fail {α : Type} (fault : Fault) : Work α :=
  throw fault

/-- Changes the file tree; `action` and `path` name the step in the fault. -/
def change (action : Action) (path : Path) (step : Files → Except Files.Fault Files) : Work Unit := do
  match step (← get) with
  | .ok files => set files
  | .error fault => fail (.files action path fault)

/-- Looks something up in the file tree. -/
def look {α : Type} (action : Action) (path : Path) (query : Files → Except Files.Fault α) :
    Work α := do
  match query (← get) with
  | .ok answer => return answer
  | .error fault => fail (.files action path fault)

end Work

/-- Makes a directory, and those around it. -/
def makeDirs (path : Path) : Work Unit := do
  let (made, files) := (← get).makeDirs path
  set files
  if let .error fault := made then Work.fail (.files .creating path fault)

/-- Takes a directory away with everything below it. -/
def removeTree (path : Path) : Work Unit := do
  let (removed, files) := (← get).removeTree path
  set files
  if let .error fault := removed then Work.fail (.files .removing path fault)

/-- Takes away what a path names: a directory with everything below it, and anything else, links as well, by
itself. -/
def removeAs (path : Path) : Entry → Work Unit
  | .dir => removeTree path
  | _ => Work.change .removing path (Files.unlink path)

/-- Takes an entry of an open directory away, by its path. -/
def removeEntry (dir : Path) (location : Location) (name : Raw) : Work Unit := do
  let path := dir.join ⟨name⟩
  removeAs path (← Work.look .inspecting path fun files => files.entryIn location name)

/-- Makes a directory empty, or makes it if there is none. What is in it is taken away one entry after the other,
in the order in which the directory gives its names; what has gone before a fault stays away. -/
def emptyDir (dir : Path) (order : Files.Order := .byName) : Work Unit := do
  let files ← get
  if files.has dir then
    let location ← Work.look .reading dir fun files => files.openDir dir
    (order.arrange (files.names location)).forM (removeEntry dir location)
  else makeDirs dir

/-! ## Copying -/

/-- Copies a file, or the file that a link leads to. -/
def copyEntry (source destination : Path) : Work Unit :=
  Work.change .copying source (Files.copy source destination)

/-- Copies the entries of a directory, sorted by name, each directory with all that is in it. A
directory is listed before its copy is made. The number of files is the result. No path is long enough
to be more than `depth` directories deep. -/
def copyTree : (depth : Nat) → (source destination : Path) → Work Nat
  | 0, source, _ => Work.fail (.files .walking source .nameTooLong)
  | depth + 1, source, destination => do
    let entries ← Work.look .walking source fun files => files.list source
    makeDirs destination
    entries.foldlM
      (fun count (name, entry) =>
        match entry with
        | Entry.dir => do
          return count + (← copyTree depth (source.join ⟨name⟩) (destination.join ⟨name⟩))
        | _ => do
          copyEntry (source.join ⟨name⟩) (destination.join ⟨name⟩)
          return count + 1)
      0

/-- Copies a directory into another one, which is made if there is none, and keeps what is there
already. The number of files is the result. -/
def copyDir (source destination : Path) : Work Nat := do
  let files ← get
  if !files.isDirectory source then Work.fail (.missingSource source)
  match files.spot false source with
  | .ok (.present _ (.link _)) => do
    copyEntry source (destination.join ⟨""⟩)
    return 1
  | _ => copyTree Files.longestPath source (destination.join ⟨""⟩)

/-- Copies a file. -/
def copyFile (source destination : Path) : Work Unit := do
  if (← get).isFile source then copyEntry source destination
  else Work.fail (.missingSource source)

/-! ## Taking away and packing -/

/-- Takes files away from a directory; the names of those that were not there are the result. -/
def prune (dir : Path) : List String → Work (List String)
  | [] => return []
  | name :: names => do
    let path := dir.join ⟨name⟩
    match (← get).unlink path with
    | .ok files => do
      set files
      prune dir names
    | .error .notFound => do return name :: (← prune dir names)
    | .error fault => Work.fail (.files .removing path fault)

/-- The file that names the type of a container. -/
def mimetype : String := "mimetype"

/-- Files with such an end of their name are not packed. -/
def ignoredEnding : String := ".DS_Store"

/-- A file that is packed when it is below the directory, but not the archive itself. -/
def isPacked (names : List Raw) : Bool :=
  names ≠ [(mimetype : Raw)] && !ignoredEnding.toList.isSuffixOf ((names.getLast?.map Raw.text).getD "").toList

/-- The entry for a file, by the names that lead to it, each as it is shown. -/
def packedAs (names : List Raw) (content : Files.Content) : Files.Packed :=
  ⟨"/".intercalate (names.map Raw.text), false, content.toBytes⟩

/-- What has been gathered, together with the fault when no more can be. -/
abbrev Gathering := Except (List Files.Packed × Fault) (List Files.Packed)

/-- Gathers an entry of a directory. `names` lead to the directory from the one that is packed, and `packed` is what
has been gathered before. `deeper` gathers what is in a directory; links are left out. -/
def gatherEntry (files : Files) (archive : Path)
    (deeper : (dir : Path) → (names : List Raw) → (packed : List Files.Packed) → Gathering)
    (dir : Path) (names : List Raw) (packed : List Files.Packed) : Raw × Entry → Gathering
  | (name, .dir) => deeper (dir.join ⟨name⟩) (names ++ [name]) packed
  | (_, .link _) => .ok packed
  | (name, .file ..) =>
    let path := dir.join ⟨name⟩
    if decide (path.Same archive) || !isPacked (names ++ [name]) then .ok packed
    else match files.read path with
      | .ok content => .ok (packed ++ [packedAs (names ++ [name]) content])
      | .error fault => .error (packed, .files .reading path fault)

/-- Gathers the files of a directory, sorted by name, each directory with all that is in it. What has been gathered
before is kept when a directory cannot be listed or a file cannot be read. No path is long enough to be more than
`depth` directories deep. -/
def gather (files : Files) (archive : Path) :
    (depth : Nat) → (dir : Path) → (names : List Raw) → (packed : List Files.Packed) → Gathering
  | 0, dir, _, packed => .error (packed, .files .walking dir .nameTooLong)
  | depth + 1, dir, names, packed =>
    match files.list dir with
    | .error fault => .error (packed, .files .walking dir fault)
    | .ok entries => entries.foldlM (gatherEntry files archive (gather files archive depth) dir names) packed

/-- Packs a directory into an archive: first the type, as it is, then all other files, deflated. Links are left
out. What has been gathered before a fault is in the archive. -/
def pack (dir archive : Path) : Work Unit := do
  let typePath := dir.join ⟨mimetype⟩
  let type ←
    match (← get).read typePath with
    | .ok content => pure content
    | .error .notFound => Work.fail (.missingSource typePath)
    | .error fault => Work.fail (.files .reading typePath fault)
  Work.change .creating archive (Files.write archive Files.Content.empty)
  match gather (← get) archive Files.longestPath dir [] [⟨mimetype, true, type.toBytes⟩] with
  | .ok entries => Work.change .writing archive (Files.write archive (.archive entries))
  | .error (entries, fault) => do
    Work.change .writing archive (Files.write archive (.archive entries))
    Work.fail fault

end Bindery.Build
