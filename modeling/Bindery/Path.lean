import Bindery.Text.Raw

/-!
# `Bindery.Path` — paths as they are written

A path is kept as it was written, because error messages and reports show it so. Like the names in it, it need not
be the UTF-8 of a text. Two paths name the same place in a tree when their components agree: repeated slashes,
inner `.` segments and a slash at the end make no difference, a leading `./` does.

**Contents.** `Path.join` and `Path.ofNames`, which build paths; `Path.components` and `Path.Same`,
the comparison; `Path.names?`, the normal form of a path that stays inside its base; `Path.parent?`,
`Path.bare` and `Path.withExtension`; `Path.steps`, the names that a look-up walks through.
-/

namespace Bindery

/-- A path, as written. -/
structure Path where
  raw : Raw
deriving DecidableEq, Repr, Inhabited

/-- The parts of a path that matter for comparison. -/
inductive Component where
  /-- the slash at the start of an absolute path -/
  | root
  /-- `.` at the start of a relative path -/
  | here
  /-- `..` -/
  | above
  /-- any other name -/
  | name (raw : Raw)
deriving DecidableEq, Repr

namespace Path

/-- The path as it is shown. -/
def text (p : Path) : String :=
  p.raw.text

/-- The byte between the names of a path. -/
def slash : UInt8 := 0x2F

/-- The byte of `.` and `..`. -/
def dot : UInt8 := 0x2E

/-- The bytes between slashes, also where there are none. -/
def segments : List UInt8 → List (List UInt8)
  | [] => [[]]
  | c :: rest =>
    if c = slash then [] :: segments rest
    else match segments rest with
      | [] => [[c]]
      | head :: tail => (c :: head) :: tail

theorem segments_ne_nil (s : List UInt8) : segments s ≠ [] := by
  cases s with
  | nil => simp [segments]
  | cons c rest =>
    rw [segments]
    split
    · simp
    · split <;> simp

/-- A path that starts with a slash. -/
def isAbsolute (p : Path) : Bool :=
  p.raw.bytes.head? == some slash

/-- A path without anything in it. -/
def isEmpty (p : Path) : Bool :=
  p.raw.bytes.isEmpty

/-- A path that can only name a directory, because a slash ends it. -/
def endsInSlash (p : Path) : Bool :=
  p.raw.bytes.getLast? == some slash

/-- The path without the slashes at its end; the root stays as it is. -/
def bare (p : Path) : Path :=
  match p.raw.bytes.reverse.dropWhile (· == slash) with
  | [] => p
  | front => ⟨⟨front.reverse⟩⟩

/-- `p` followed by `q`, which replaces `p` when it is absolute. -/
def join (p q : Path) : Path :=
  if q.isAbsolute || p.isEmpty then q
  else if p.endsInSlash then ⟨p.raw ++ q.raw⟩
  else ⟨p.raw ++ "/" ++ q.raw⟩

/-- Segments with slashes between them. -/
def slashed (parts : List (List UInt8)) : Raw :=
  ⟨[slash].intercalate parts⟩

/-- The path of names below nothing: the names with slashes between them. -/
def ofNames (names : List Raw) : Path :=
  ⟨slashed (names.map Raw.bytes)⟩

/-- What one segment stands for when it is not the first: `.` and an empty segment stand for nothing. -/
def inner? (segment : List UInt8) : Option Component :=
  if segment = [] ∨ segment = [dot] then none
  else if segment = [dot, dot] then some .above
  else some (.name ⟨segment⟩)

/-- The parts of a path in order. -/
def components (p : Path) : List Component :=
  let parts := segments p.raw.bytes
  if p.isAbsolute then .root :: parts.filterMap inner?
  else if parts.head? = some [dot] then .here :: parts.filterMap inner?
  else parts.filterMap inner?

/-- Paths with the same components. -/
def Same (p q : Path) : Prop :=
  p.components = q.components

instance (p q : Path) : Decidable (p.Same q) :=
  inferInstanceAs (Decidable (p.components = q.components))

/-- The plain names of a path; nothing if it is absolute or has a `..` anywhere. -/
def names? (p : Path) : Option (List Raw) :=
  p.components.foldr
    (fun part rest => match part with
      | .root | .above => none
      | .here => rest
      | .name raw => rest.map (raw :: ·))
    (some [])

/-- The last name of a path, if it ends in one. -/
def fileName? (p : Path) : Option Raw :=
  match p.components.getLast? with
  | some (.name raw) => some raw
  | _ => none

/-- Segments without those at the end that stand for nothing. -/
def dropIdle (parts : List (List UInt8)) : List (List UInt8) :=
  (parts.reverse.dropWhile fun segment => segment == [] || segment == [dot]).reverse

/-- The path without its last component; nothing for the empty path and the root. -/
def parent? (p : Path) : Option Path :=
  let parts := segments p.raw.bytes
  if p.isAbsolute then
    match dropIdle parts.tail with
    | [] => none
    | body => some ⟨"/" ++ slashed (dropIdle body.dropLast)⟩
  else if parts.head? = some [dot] then
    match dropIdle parts.tail with
    | [] => some ⟨""⟩
    | body => match dropIdle body.dropLast with
      | [] => some ⟨"."⟩
      | rest => some ⟨"./" ++ slashed rest⟩
  else
    match dropIdle parts with
    | [] => none
    | body => some ⟨slashed (dropIdle body.dropLast)⟩

/-- The path with the extension of its last name replaced, or added if it has none. -/
def withExtension (p : Path) (extension : Raw) : Path :=
  match p.parent?, p.fileName? with
  | some parent, some name =>
    let stem := match name.bytes.reverse.dropWhile (· ≠ dot) with
      | [] | [_] => name
      | _ :: front => ⟨front.reverse⟩
    parent.join ⟨stem ++ "." ++ extension⟩
  | _, _ => p

/-- The names that a look-up of the path walks through, with `.` at the end for a final slash. -/
def steps (p : Path) : List Raw :=
  ((segments p.raw.bytes).filter (· ≠ [])).map Raw.mk
    ++ (if p.endsInSlash then [("." : Raw)] else [])

end Path

end Bindery
