import Bindery.CommandLine.Reply
import Bindery.Files.Change
import Bindery.Text.Stamp

/-!
# `Bindery.Main` — the program

The outer layer: the directory that a request is about is read into a file tree, the request is answered
on that tree, and what has changed is written back. Nothing is decided here.

**Contents.** `loadBelow` and `loadRoot`; `apply`; `occasion`; `main`.
-/

namespace Bindery.Main

open Files (Entry Change)

/-- A file that names its interpreter may be run. -/
def isScript (data : ByteArray) : Bool :=
  data[0]? == some 35 && data[1]? == some 33

/-- Reads what is below a directory. Links are left out. -/
partial def loadBelow (place : Location) (dir : IO.FS.DirEntry) (files : Files) : IO Files := do
  let mut files := files.put place .dir
  for entry in ← dir.path.readDir do
    let here := place ++ [Raw.ofText entry.fileName]
    match (← entry.path.symlinkMetadata).type with
    | .dir => files ← loadBelow here entry files
    | .file => do
      let data ← IO.FS.readBinFile entry.path
      files := files.put here (.file (.bytes data) (isScript data))
    | _ => pure ()
  return files

/-- The location that names lead to from another one. -/
def locate (here : Location) (path : Path) : Location :=
  path.steps.foldl
    (fun here name =>
      if name = "." then here else if name = ".." then here.dropLast else here.concat name)
    (if path.isAbsolute then [] else here)

/-- Puts a directory at a location and at those around it. -/
def putDirs (location : Location) (files : Files) : Files :=
  (List.range location.length).foldl (fun files n => files.put (location.take (n + 1)) .dir) files

/-- Reads the directory at a path, if there is one. -/
def loadRoot (home : Location) (root : Path) : IO Files := do
  let files := putDirs home { home, entries := [] }
  let dir : IO.FS.DirEntry := ⟨← IO.currentDir, root.text⟩
  if ← dir.path.isDir then
    let place := locate home root
    loadBelow place dir (putDirs place files)
  else return files

/-- The path of a location outside. -/
def outside (location : Location) : String :=
  "/" ++ "/".intercalate location

/-- Carries out a change. -/
def apply : Change → IO Unit
  | .takeAway location .dir => IO.FS.removeDir (outside location)
  | .takeAway location _ => IO.FS.removeFile (outside location)
  | .place location .dir => IO.FS.createDir (outside location)
  | .place location (.file content _) => IO.FS.writeBinFile (outside location) content.toBytes
  | .place _ (.link _) => return

/-- The time, in seconds. -/
def seconds : IO Nat := do
  let (_, path) ← IO.FS.createTempFile
  let metadata ← path.metadata
  IO.FS.removeFile path
  return metadata.modified.sec.toNat

/-- What a request needs from outside. -/
def occasion : IO CommandLine.Occasion := do
  let bytes ← IO.getRandomBytes 16
  return ⟨Text.Stamp.identifier bytes.toList, Text.Stamp.date (← seconds)⟩

/-- The root of the project that a request is about. -/
def rootOf (arguments : List String) : Path :=
  match CommandLine.Request.ofArguments arguments with
  | .ok (.build root (some _) _) => ⟨root⟩
  | _ => ⟨""⟩

/-- Answers arguments: the status of the program. -/
def answer (arguments : List String) : IO UInt32 := do
  let home := locate [] ⟨(← IO.currentDir).toString⟩
  let root := rootOf arguments
  let files ← if root.isEmpty then pure (putDirs home { home, entries := [] }) else loadRoot home root
  let reply := CommandLine.Reply.ofArguments (← occasion) arguments files
  for change in Files.changes files reply.files do
    apply change
  (← IO.getStdout).putStr reply.output
  (← IO.getStderr).putStr reply.complaints
  return reply.status.toUInt32

end Bindery.Main

/-- Runs the program. -/
def main (arguments : List String) : IO UInt32 :=
  Bindery.Main.answer arguments
