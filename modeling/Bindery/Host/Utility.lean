import Bindery.Host.Machine

/-!
# `Bindery.Host.Utility` — the small programs of the host

Programs that a script can rely on: they compare, print, copy and wait. Each one takes arguments and
input, and gives a status and output.

**Contents.** `Host.Utility` with `ofName?`; `Utility.holds?`, the comparisons; `Utility.filled`, the
text of a format; `Utility.milliseconds?`; `Utility.run`.
-/

namespace Bindery.Host

/-- A small program. -/
inductive Utility where
  | succeed
  | fail
  | sleep
  | test
  /-- as `test`, with a bracket after its arguments -/
  | bracket
  | echo
  | printf
  | cat
  | touch
  | makeDir
  | remove
  | copy
deriving DecidableEq, Repr

namespace Utility

/-- The programs by name. -/
def table : List (String × Utility) :=
  [("true", succeed), ("false", fail), ("sleep", sleep), ("test", test), ("[", bracket),
    ("echo", echo), ("printf", printf), ("cat", cat), ("touch", touch), ("mkdir", makeDir),
    ("rm", remove), ("cp", copy)]

/-- The program with a name. -/
def ofName? (name : String) : Option Utility :=
  table.lookup name

/-! ## Comparing -/

/-- A comparison of numbers. -/
def compare? : String → Option (Int → Int → Bool)
  | "-eq" => some (· == ·)
  | "-ne" => some (· != ·)
  | "-lt" => some (· < ·)
  | "-le" => some (· ≤ ·)
  | "-gt" => some (· > ·)
  | "-ge" => some (· ≥ ·)
  | _ => none

/-- A file that has something in it. -/
def isFilled (files : Files) (path : Path) : Bool :=
  match files.target? path with
  | some (.file content _) => content.toBytes.size ≠ 0
  | some .dir => true
  | _ => false

/-- A link, whatever it leads to. -/
def isLink (files : Files) (path : Path) : Bool :=
  match files.spot false path with
  | .ok (.present _ (.link _)) => true
  | _ => false

/-- A directory, or a file that may be run. -/
def isRunnable (files : Files) (path : Path) : Bool :=
  match files.target? path with
  | some (.file _ executable) => executable
  | some .dir => true
  | _ => false

/-- Whether a condition holds; nothing if it is none. No stream is a terminal. -/
def holds? (files : Files) : List String → Option Bool
  | [] => some false
  | [text] => some (text ≠ "")
  | ["!", text] => some (text = "")
  | ["-n", text] => some (text ≠ "")
  | ["-z", text] => some (text = "")
  | ["-e", path] | ["-r", path] | ["-w", path] => some (files.has (pathOf path))
  | ["-f", path] => some (files.isFile (pathOf path))
  | ["-d", path] => some (files.isDirectory (pathOf path))
  | ["-s", path] => some (isFilled files (pathOf path))
  | ["-x", path] => some (isRunnable files (pathOf path))
  | ["-h", path] | ["-L", path] => some (isLink files (pathOf path))
  | ["-t", _] => some false
  | [left, "=", right] => some (left = right)
  | [left, "!=", right] => some (left ≠ right)
  | "!" :: rest => (holds? files rest).map (!·)
  | [left, operator, right] => do return (← compare? operator) (← left.toInt?) (← right.toInt?)
  | _ => none

/-- The status for a condition. -/
def verdict (condition : Option Bool) : Nat :=
  match condition with
  | some true => 0
  | some false => 1
  | none => 2

/-! ## Printing -/

/-- A word as output. -/
def printed (word : String) : ByteArray :=
  ⟨(bytesOf word).toArray⟩

/-- What a letter after a backslash stands for. -/
def escape? : Char → Option Char
  | 'n' => some '\n'
  | 't' => some '\t'
  | 'r' => some '\r'
  | '\\' => some '\\'
  | _ => none

/-- A text with its escapes replaced. -/
def unescaped : List Char → List Char
  | '\\' :: c :: rest =>
    match escape? c with
    | some d => d :: unescaped rest
    | none => '\\' :: c :: unescaped rest
  | c :: rest => c :: unescaped rest
  | [] => []

/-- Goes through a format once: the text with arguments put in, and the arguments left over. -/
def fillOnce : List Char → List String → List Char × List String
  | '%' :: '%' :: rest, args => (fillOnce rest args).map ('%' :: ·) id
  | '%' :: 's' :: rest, args => (fillOnce rest args.tail).map ((args.headD "").toList ++ ·) id
  | '%' :: 'd' :: rest, args =>
    let n := ((args.headD "").toInt?).getD 0
    (fillOnce rest args.tail).map ((toString n).toList ++ ·) id
  | '\\' :: c :: rest, args =>
    match escape? c with
    | some d => (fillOnce rest args).map (d :: ·) id
    | none => (fillOnce rest args).map (fun out => '\\' :: c :: out) id
  | c :: rest, args => (fillOnce rest args).map (c :: ·) id
  | [], args => ([], args)

/-- Goes through a format again, at most `rounds` times, until no arguments are left. -/
def fill (pattern : List Char) : (rounds : Nat) → List String → List Char
  | 0, args => (fillOnce pattern args).1
  | rounds + 1, args =>
    let (out, rest) := fillOnce pattern args
    if rest.isEmpty || rest.length = args.length then out else out ++ fill pattern rounds rest

/-- The text of a format with arguments. -/
def filled (pattern : String) (args : List String) : String :=
  String.ofList (fill pattern.toList args.length args)

/-! ## Waiting -/

/-- How many milliseconds a unit of time has. -/
def unit? : List Char → Option Nat
  | [] | ['s'] => some 1000
  | ['m'] => some 60000
  | ['h'] => some 3600000
  | ['d'] => some 86400000
  | _ => none

/-- The value of decimal digits. -/
def ofDigits (digits : List Char) : Nat :=
  digits.foldl (fun n c => 10 * n + (c.toNat - '0'.toNat)) 0

/-- A time in milliseconds: a decimal number with or without a unit. -/
def milliseconds? (text : String) : Option Nat :=
  let cs := text.toList
  let whole := cs.takeWhile Char.isDigit
  let rest := cs.dropWhile Char.isDigit
  let (fraction, ending) := match rest with
    | '.' :: more => (more.takeWhile Char.isDigit, more.dropWhile Char.isDigit)
    | _ => ([], rest)
  if whole.isEmpty && fraction.isEmpty then none
  else (unit? ending).map fun unit =>
    ofDigits (whole ++ fraction) * unit / Nat.pow 10 fraction.length

/-! ## Running -/

/-- Ends with a status and without output. -/
def quietly (status : Nat) : Activity (Nat × ByteArray) :=
  return (status, ByteArray.empty)

/-- Succeeds if something was possible. -/
def successOf (possible : Bool) : Nat :=
  if possible then 0 else 1

/-- Does something with each argument, and succeeds if it was possible with all. -/
def forEach (action : String → Activity Bool) (args : List String) : Activity (Nat × ByteArray) := do
  let possible ← args.foldlM (fun possible arg => do return (← action arg) && possible) true
  quietly (successOf possible)

/-- The arguments that are switches, and the others. -/
def switches (args : List String) : List String × List String :=
  args.partition fun arg => arg.toList.head? == some '-' && arg ≠ "-"

/-- A switch with a letter is among others. -/
def hasSwitch (letter : Char) (given : List String) : Bool :=
  given.any fun text => text.toList.contains letter

/-- The bytes of files one after another, and whether all could be read. -/
def contents (input : ByteArray) (args : List String) : Activity (Nat × ByteArray) :=
  args.foldlM
    (fun (status, out) arg => do
      if arg = "-" then return (status, out ++ input)
      match ← attempt? (Files.read · (pathOf arg)) with
      | some content => return (status, out ++ content.toBytes)
      | none => return (1, out))
    (0, ByteArray.empty)

/-- Makes an empty file where there is nothing. -/
def ensureFile (name : String) : Activity Bool := do
  if (← get).files.has (pathOf name) then return true
  change (Files.write (pathOf name) Files.Content.empty)

/-- Makes a directory and those around it that are missing. -/
def makeAll (path : Path) : Activity Bool := do
  let machine ← get
  let (made, files) := machine.files.makeDirs path
  set { machine with files }
  return made.isOk

/-- Takes something away; directories only when asked to, and what is missing is a failure unless told
otherwise. -/
def takeAway (given : List String) (name : String) : Activity Bool := do
  let recursive := hasSwitch 'r' given || hasSwitch 'R' given
  let missing := match (← get).files.spot false (pathOf name) with
    | .ok (.present ..) => false
    | _ => true
  if missing then return hasSwitch 'f' given
  change (if recursive then Files.removeAll (pathOf name) else Files.unlink (pathOf name))

/-- Copies a file to a place or into a directory. -/
def copyTo (source destination : String) : Activity Bool := do
  let inside := (← get).files.isDirectory (pathOf destination)
  let place : Path :=
    if inside then (pathOf destination).join ⟨(pathOf source).fileName?.getD ""⟩ else pathOf destination
  change (Files.copy (pathOf source) place)

/-- Runs a small program: its status and its output. -/
def run (utility : Utility) (args : List String) (input : ByteArray) : Activity (Nat × ByteArray) := do
  match utility with
  | succeed => quietly 0
  | fail => quietly 1
  | sleep =>
    match args.mapM milliseconds? with
    | none | some [] => quietly 1
    | some times => do
      spend (times.foldl (· + ·) 0)
      quietly 0
  | test => quietly (verdict (holds? (← get).files args))
  | bracket =>
    if args.getLast? = some "]" then quietly (verdict (holds? (← get).files args.dropLast))
    else quietly 2
  | echo =>
    let (words, ending) := match args with
      | "-n" :: words => (words, "")
      | words => (words, "\n")
    return (0, printed (String.ofList (unescaped (" ".intercalate words).toList) ++ ending))
  | printf =>
    match args with
    | [] => quietly 2
    | pattern :: values => return (0, printed (filled pattern values))
  | cat => contents input (if args.isEmpty then ["-"] else args)
  | touch => forEach ensureFile args
  | makeDir =>
    let (given, names) := switches args
    forEach
      (fun name => if hasSwitch 'p' given then makeAll (pathOf name) else change (Files.makeDir (pathOf name)))
      names
  | remove =>
    let (given, names) := switches args
    forEach (takeAway given) names
  | copy =>
    match args with
    | [source, destination] => return (successOf (← copyTo source destination), ByteArray.empty)
    | _ => quietly 1

end Utility

end Bindery.Host
