/-!
# `Bindery.CommandLine.Request` — what the arguments ask for

The program has one command, `build`. Two switches, `-v` and `--root`, may stand before the command as
well as after it; after it they win. The format may look like a switch, as long as it is none that
`build` knows: so `build -h` asks for the format `-h`. After `--` nothing is a switch.

A switch stands at most once on each side of the command.

**Contents.** `Request` and `Refusal`; `Given`, what has been read; `Given.readBuild`, for what follows
the command; `Request.ofArguments`.
-/

namespace Bindery.CommandLine

/-- What the program is asked to do. -/
inductive Request where
  /-- build in a format; without one, tell the formats -/
  | build (root : String) (format : Option String) (json : Bool)
  | help
  | buildHelp
  | version
deriving DecidableEq, Repr

/-- Why arguments are refused. -/
inductive Refusal where
  /-- nothing is asked for -/
  | nothing
  | misused (argument : String)
deriving DecidableEq, Repr

/-- What has been read on one side of the command. -/
structure Given where
  verbose : Bool := false
  root : Option String := none
  json : Bool := false
  format : Option String := none
deriving DecidableEq, Repr

/-- An argument by its looks. -/
inductive Shape where
  /-- `--`, after which nothing is a switch -/
  | escape
  /-- `--name` or `--name=value` -/
  | long (name : String) (value : Option String)
  /-- letters after a dash -/
  | short (letters : List Char)
  | plain
deriving DecidableEq, Repr

/-- How an argument looks. -/
def Shape.of (argument : String) : Shape :=
  match argument.toList with
  | ['-', '-'] => .escape
  | '-' :: '-' :: rest =>
    match rest.dropWhile (· ≠ '=') with
    | [] => .long (String.ofList rest) none
    | _ :: value => .long (String.ofList (rest.takeWhile (· ≠ '='))) (some (String.ofList value))
  | '-' :: c :: rest => .short (c :: rest)
  | _ => .plain

namespace Given

/-- Whether anything has been given. -/
def isNothing (given : Given) : Bool :=
  given = {}

/-- Takes a root, which is not empty and given once. -/
def setRoot (given : Given) (value : String) : Except Refusal Given :=
  if given.root.isSome || value = "" then .error (.misused "--root")
  else .ok { given with root := some value }

/-- Takes `-v`, which is given once. -/
def setVerbose (given : Given) : Except Refusal Given :=
  if given.verbose then .error (.misused "--verbose") else .ok { given with verbose := true }

/-- Takes `--json`, which is given once. -/
def setJson (given : Given) : Except Refusal Given :=
  if given.json then .error (.misused "--json") else .ok { given with json := true }

/-- Takes a format, of which there is one. -/
def setFormat (given : Given) (value : String) : Except Refusal Given :=
  if given.format.isSome then .error (.misused value) else .ok { given with format := some value }

/-- Takes all arguments for formats. -/
def setFormats (given : Given) (values : List String) : Except Refusal Given :=
  values.foldlM setFormat given

/-! ## After the command -/

/-- A switch that `build` knows. -/
def knowsLong (name : String) : Bool :=
  name = "json" || name = "verbose" || name = "root"

/-- Letters that `build` knows. -/
def knowsShort (letters : List Char) : Bool :=
  letters.all (· = 'v')

/-- An argument that can be the format although it looks like a switch. -/
def passes (given : Given) : Shape → Bool
  | .long name _ => given.format.isNone && !knowsLong name
  | .short letters => given.format.isNone && !knowsShort letters
  | .plain => true
  | .escape => false

/-- Reads what follows the command. -/
def readBuild (given : Given) : List String → Except Refusal Given
  | [] => .ok given
  | [argument] =>
    if given.passes (.of argument) then given.setFormat argument
    else match Shape.of argument with
      | .long "json" none => given.setJson
      | .long "verbose" none => given.setVerbose
      | .long "root" (some value) => given.setRoot value
      | .short letters =>
        if letters = ['v'] then given.setVerbose else .error (.misused argument)
      | .escape => .ok given
      | _ => .error (.misused argument)
  | argument :: next :: rest =>
    if given.passes (.of argument) then do readBuild (← given.setFormat argument) (next :: rest)
    else match Shape.of argument with
      | .long "json" none => do readBuild (← given.setJson) (next :: rest)
      | .long "verbose" none => do readBuild (← given.setVerbose) (next :: rest)
      | .long "root" (some value) => do readBuild (← given.setRoot value) (next :: rest)
      | .long "root" none =>
        if given.passes (.of next) then do readBuild (← given.setRoot next) rest
        else .error (.misused argument)
      | .short letters =>
        if letters = ['v'] then do readBuild (← given.setVerbose) (next :: rest)
        else .error (.misused argument)
      | .escape => given.setFormats (next :: rest)
      | _ => .error (.misused argument)

end Given

namespace Request

/-- The request to build: what is given after the command wins. -/
def ofGiven (before after : Given) : Request :=
  .build ((after.root <|> before.root).getD ".") after.format after.json

/-- What `help` is asked about. -/
def ofHelp : List String → Except Refusal Request
  | [] | ["help"] => .ok .help
  | ["build"] => .ok .buildHelp
  | topic :: _ => .error (.misused topic)

/-- Reads letters after a dash, before the command; help and the version end the reading. -/
def readLetters (given : Given) : List Char → Except Refusal (Given ⊕ Request)
  | [] => .ok (.inl given)
  | 'h' :: _ => .ok (.inr .help)
  | 'V' :: _ => .ok (.inr .version)
  | 'v' :: rest => do readLetters (← given.setVerbose) rest
  | c :: _ => .error (.misused (String.ofList ['-', c]))

/-- Reads arguments up to the command, and then what follows it. -/
def read (given : Given) : List String → Except Refusal Request
  | [] => .error (if given.isNothing then .nothing else .misused "")
  | "build" :: rest => do return ofGiven given (← Given.readBuild {} rest)
  | "help" :: rest => ofHelp rest
  | argument :: rest =>
    match Shape.of argument with
    | .long "help" none => .ok .help
    | .long "version" none => .ok .version
    | .long "verbose" none => do read (← given.setVerbose) rest
    | .long "root" (some value) => do read (← given.setRoot value) rest
    | .long "root" none =>
      match rest with
      | [] => .error (.misused argument)
      | value :: rest =>
        if Shape.of value = .plain then do read (← given.setRoot value) rest
        else .error (.misused argument)
    | .short letters => do
      match ← readLetters given letters with
      | .inl given => read given rest
      | .inr request => return request
    | .escape => .error (if given.isNothing && rest.isEmpty then .nothing else .misused argument)
    | _ => .error (.misused argument)

/-- What arguments ask for. -/
def ofArguments (arguments : List String) : Except Refusal Request :=
  read {} arguments

end Request

end Bindery.CommandLine
