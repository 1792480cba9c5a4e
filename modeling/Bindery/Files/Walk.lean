import Bindery.Files.Fault
import Bindery.Files.Tree

/-!
# `Bindery.Files.Walk` — where a path leads

A path is followed name by name: from the root if it is absolute, otherwise from the directory that
the tree calls home. A link on the way is replaced by the path it holds; a link at the end is followed
only on request. After forty links the walk gives up.

**Contents.** `Files.Spot`, where a walk ends; `Files.walk`; `Files.spot`, which starts it at a path, and
`Files.place`, which stops at what the path names; `Files.has`, `Files.isDirectory`, `Files.isFile`.
-/

namespace Bindery.Files

/-- Where a walk ends. -/
inductive Spot where
  | present (location : Location) (entry : Entry)
  /-- there is nothing, but the directory around it is there -/
  | absent (location : Location)
deriving DecidableEq

/-- The longest name, in bytes. -/
def longestName : Nat := 255

/-- The longest path, in bytes. -/
def longestPath : Nat := 4095

/-- How many links a walk follows. -/
def mostLinks : Nat := 40

/-- Walks from the directory `here` along names. `follow` is set when a link at the end is followed,
and `jump` goes on after a link has been replaced by the path it holds. -/
def walkNames (files : Files) (follow : Bool)
    (jump : Location → List Raw → Except Fault Spot) :
    Location → List Raw → Except Fault Spot
  | here, [] => .ok (.present here .dir)
  | here, name :: rest =>
    if name = "." then walkNames files follow jump here rest
    else if name = ".." then walkNames files follow jump here.dropLast rest
    else if longestName < name.size then .error .nameTooLong
    else
      let next := here ++ [name]
      match files.find? next with
      | none => if rest = [] then .ok (.absent next) else .error .notFound
      | some .dir => walkNames files follow jump next rest
      | some (.file content executable) =>
        if rest = [] then .ok (.present next (.file content executable)) else .error .notDirectory
      | some (.link target) =>
        if rest = [] ∧ follow = false then .ok (.present next (.link target))
        else jump (if target.isAbsolute then [] else here) (target.steps ++ rest)

/-- A walk that follows at most `links` links. -/
def walk (files : Files) (follow : Bool) : (links : Nat) → Location → List Raw → Except Fault Spot
  | 0 => walkNames files follow fun _ _ => .error .tooManyLinks
  | links + 1 => walkNames files follow (walk files follow links)

/-- Walks along `names` from where a path starts, if the path can be one. -/
def walkFor (files : Files) (follow : Bool) (path : Path) (names : List Raw) : Except Fault Spot :=
  if path.raw.bytes.contains 0 then .error .nulInPath
  else if path.isEmpty then .error .notFound
  else if longestPath < path.raw.size then .error .nameTooLong
  else walk files follow mostLinks (if path.isAbsolute then [] else files.home) names

/-- Where a path leads. -/
def spot (files : Files) (follow : Bool) (path : Path) : Except Fault Spot :=
  files.walkFor follow path path.steps

/-- What a path itself names: a link at its end is not followed, and slashes at its end do not
matter. -/
def place (files : Files) (path : Path) : Except Fault Spot :=
  files.walkFor false path path.bare.steps

/-- What a path leads to when links are followed. -/
def target? (files : Files) (path : Path) : Option Entry :=
  match files.spot true path with
  | .ok (.present _ entry) => some entry
  | _ => none

/-- Something is where a path leads. -/
def has (files : Files) (path : Path) : Bool :=
  (files.target? path).isSome

/-- A path leads to a directory. -/
def isDirectory (files : Files) (path : Path) : Bool :=
  files.target? path == some .dir

/-- A path leads to a file. -/
def isFile (files : Files) (path : Path) : Bool :=
  match files.target? path with
  | some (.file ..) => true
  | _ => false

end Bindery.Files
