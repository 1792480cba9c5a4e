/-!
# `Bindery.Script.Syntax` — command scripts

A script is a sequence of commands. Each one is a list of words, of which the first names a program, and
may send its output to a file. Whether a command runs can hang on how the one before it ended.

**Contents.** `Script.Bit` and `Script.Word`; `Script.Redirect`; `Script.Command`; `Script.Link`, how a
command hangs on what went before; `Script`.
-/

namespace Bindery

namespace Script

/-- A part of a word. -/
inductive Bit where
  | char (c : Char)
  /-- a value that is put in: an argument by its digit, or one of `# ? $ @ *` -/
  | value (name : Char) (quoted : Bool)
deriving DecidableEq, Repr

/-- A word, before values are put in. -/
abbrev Word := List Bit

/-- What becomes of a stream. -/
inductive Way where
  /-- from a file -/
  | source
  /-- into a file, which is emptied -/
  | sink
  /-- to the end of a file -/
  | append
  /-- to where another stream goes -/
  | same
deriving DecidableEq, Repr

/-- A stream that is led elsewhere: input is 0, output 1, complaints 2. -/
structure Redirect where
  stream : Nat
  way : Way
  target : Word
deriving DecidableEq, Repr

/-- A command. -/
structure Command where
  words : List Word := []
  redirects : List Redirect := []
deriving DecidableEq, Repr

/-- When a command runs. -/
inductive Link where
  | always
  /-- the one before has succeeded -/
  | onSuccess
  | onFailure
deriving DecidableEq, Repr

/-- A command runs after one that has ended with a status. -/
def Link.allows (link : Link) (status : Nat) : Bool :=
  match link with
  | .always => true
  | .onSuccess => status = 0
  | .onFailure => status ≠ 0

end Script

/-- Commands in order. -/
abbrev Script := List (Script.Link × Script.Command)

end Bindery
