import Bindery.Host.Program
import Bindery.Script.Reading

/-!
# `Bindery.Host.Shell` — running scripts

The commands of a script run one after another. Some are carried out by the shell itself, the others are
programs, which it starts and waits for. The way in which a program is started is a parameter here, so
that a script is a plain recursion on its commands.

**Contents.** `Host.Setting` and `Setting.fields`, which puts values into words; `Host.Streams`;
`Host.Outcome`, what a command leads to; `runCommand` and `runScript`; `launch`, which ties the knot.
-/

namespace Bindery.Host

open Script (Bit Word Redirect Command Link)

/-- What a script is started with. -/
structure Setting where
  /-- its own name -/
  name : String
  args : List String
  /-- its number among the running programs -/
  number : Nat

/-! ## Words -/

/-- Words that are being put together: those that are complete, and the one that is being written. -/
structure Fields where
  complete : List String := []
  current : Option (List Char) := none

namespace Fields

/-- Writes on. -/
def write (fields : Fields) (cs : List Char) : Fields :=
  { fields with current := some (fields.current.getD [] ++ cs) }

/-- Ends the word that is being written. -/
def close (fields : Fields) : Fields :=
  match fields.current with
  | some cs => { complete := fields.complete ++ [String.ofList cs] }
  | none => fields

/-- Writes on with the first of several texts, and starts a word with each further one. -/
def writeAll (fields : Fields) : List (List Char) → Fields
  | [] => fields
  | [cs] => fields.write cs
  | cs :: rest => writeAll (fields.write cs).close rest

end Fields

/-- The words of a text between blanks. -/
def wordsOf (text : String) : List (List Char) :=
  let (done, last) := text.toList.foldr
    (fun c (done, word) =>
      if isGap c || c = '\n' then (if word.isEmpty then done else word :: done, [])
      else (done, c :: word))
    (([] : List (List Char)), ([] : List Char))
  if last.isEmpty then done else last :: done

namespace Setting

/-- A value: several texts for the arguments together, otherwise one. -/
def values (setting : Setting) (status : Nat) (name : Char) : List String :=
  if name = '@' ∨ name = '*' then setting.args
  else if name = '#' then [toString setting.args.length]
  else if name = '?' then [toString status]
  else if name = '$' then [toString setting.number]
  else if name = '0' then [setting.name]
  else [(setting.args[name.toNat - '1'.toNat]?).getD ""]

/-- Puts one part of a word in place. -/
def place (setting : Setting) (status : Nat) (fields : Fields) : Bit → Fields
  | .char c => fields.write [c]
  | .value name quoted =>
    let values := setting.values status name
    if !quoted then fields.writeAll (values.flatMap wordsOf)
    else if name = '*' then fields.write (" ".intercalate values).toList
    else fields.writeAll (values.map String.toList)

/-- The words that one word becomes. -/
def fields (setting : Setting) (status : Nat) (word : Word) : List String :=
  if word.isEmpty then [""] else (word.foldl (setting.place status) {}).close.complete

end Setting

/-! ## Streams -/

/-- Where a stream goes. -/
inductive Sink where
  | nowhere
  /-- to whoever has started the script -/
  | caller
  | file (path : Path)
deriving DecidableEq, Repr

/-- The streams of a program. -/
structure Streams where
  input : ByteArray
  output : Sink := .caller
  complaints : Sink := .nowhere

namespace Streams

/-- Leads a stream to a sink. -/
def lead (streams : Streams) (stream : Nat) (sink : Sink) : Streams :=
  match stream with
  | 1 => { streams with output := sink }
  | 2 => { streams with complaints := sink }
  | _ => streams

/-- Leads a stream elsewhere; nothing if that is not possible. -/
def redirect (streams : Streams) (stream : Nat) (way : Script.Way) (target : String) :
    Activity (Option Streams) := do
  let path := pathOf target
  match way with
  | .source => do
    let content ← attempt? (Files.read · path)
    return content.map fun content => { streams with input := content.toBytes }
  | .sink => do
    let possible ← change (Files.write path Files.Content.empty)
    return if possible then some (streams.lead stream (.file path)) else none
  | .append => do
    let kept := ((← attempt? (Files.read · path)).map Files.Content.toBytes).getD ByteArray.empty
    let possible ← change (Files.write path (.bytes kept))
    return if possible then some (streams.lead stream (.file path)) else none
  | .same =>
    match target with
    | "1" => return some (streams.lead stream streams.output)
    | "2" => return some (streams.lead stream streams.complaints)
    | _ => return none

/-- Leads streams elsewhere in turn. -/
def redirectAll (setting : Setting) (status : Nat) (streams : Streams) :
    List Redirect → Activity (Option Streams)
  | [] => return some streams
  | ⟨stream, way, target⟩ :: rest => do
    match setting.fields status target with
    | [target] =>
      match ← streams.redirect stream way target with
      | some streams => redirectAll setting status streams rest
      | none => return none
    | _ => return none

/-- Writes output to where it goes; what is for the caller is the result. -/
def emit (streams : Streams) (out : ByteArray) : Activity ByteArray := do
  match streams.output with
  | .nowhere => return ByteArray.empty
  | .caller => return out
  | .file path =>
    let kept := ((← attempt? (Files.read · path)).map Files.Content.toBytes).getD ByteArray.empty
    let _ ← change (Files.write path (.bytes (kept ++ out)))
    return ByteArray.empty

end Streams

/-! ## Commands -/

/-- What a command leads to. -/
inductive Outcome where
  /-- the script goes on -/
  | goOn (status : Nat)
  /-- the script is over -/
  | finished (ending : Ending)
deriving DecidableEq, Repr

/-- The way in which programs are started: why one is not, or how it ends, with its output. -/
abbrev Starter :=
  String → List String → ByteArray → Activity (Except Files.Fault (Ending × ByteArray))

/-- The status of a program that is not started. -/
def unstarted : Files.Fault → Nat
  | .notFound => 127
  | _ => 126

/-- Starts a program; a file that names no interpreter is run as a script. -/
def startAny (start : Starter) (name : String) (args : List String) (input : ByteArray) :
    Activity (Ending × ByteArray) := do
  match ← start name args input with
  | .ok result => return result
  | .error .notExecutable =>
    match ← start "sh" (name :: args) input with
    | .ok result => return result
    | .error fault => return (.status (unstarted fault), ByteArray.empty)
  | .error fault => return (.status (unstarted fault), ByteArray.empty)

/-- The number of a signal. -/
def signal? (text : String) : Option Nat :=
  match text with
  | "HUP" => some 1
  | "INT" => some 2
  | "QUIT" => some 3
  | "ABRT" => some 6
  | "KILL" => some 9
  | "TERM" => some 15
  | _ => text.toNat?

/-- What sending a signal leads to: the script can only reach itself. -/
def kill (setting : Setting) (args : List String) : Outcome :=
  let (signal, targets) := match args with
    | "-s" :: name :: rest => (signal? name, rest)
    | first :: rest =>
      match first.toList with
      | '-' :: name => (signal? (String.ofList name), rest)
      | _ => (some 15, args)
    | [] => (none, [])
  match signal with
  | none => .goOn 2
  | some signal =>
    if targets ≠ [toString setting.number] then .goOn 1
    else if signal = 0 then .goOn 0
    else .finished (.killed signal)

/-- Goes to a directory. -/
def goTo (path : Path) (files : Files) : Except Files.Fault Files := do
  match ← files.spot true path with
  | .present location .dir => return { files with home := location }
  | .present _ _ => .error .notDirectory
  | .absent _ => .error .notFound

/-- What the shell does itself; nothing if the words call for a program. -/
def builtin? (setting : Setting) (status : Nat) (input : ByteArray) :
    List String → Option (Activity Outcome)
  | [] | ":" :: _ | ["exec"] => some (return .goOn 0)
  | ["exit"] => some (return .finished (.status status))
  | "exit" :: text :: _ =>
    some (return .finished (.status (match text.toNat? with
      | some n => n % 256
      | none => 2)))
  | "kill" :: args => some (return kill setting args)
  | "read" :: _ => some (return .goOn (if input.isEmpty then 1 else 0))
  | "cd" :: path :: _ => some do return .goOn (if ← change (goTo (pathOf path)) then 0 else 2)
  | _ => none

/-- Carries out the words of a command. -/
def perform (start : Starter) (setting : Setting) (status : Nat) (streams : Streams)
    (words : List String) : Activity (Outcome × ByteArray) := do
  match builtin? setting status streams.input words, words with
  | some action, _ => return (← action, ByteArray.empty)
  | none, "exec" :: name :: args => do
    let (ending, out) ← startAny start name args streams.input
    return (.finished ending, ← streams.emit out)
  | none, name :: args => do
    let (ending, out) ← startAny start name args streams.input
    return (.goOn ending.seen, ← streams.emit out)
  | none, [] => return (.goOn 0, ByteArray.empty)

/-- Runs a command. -/
def runCommand (start : Starter) (setting : Setting) (status : Nat) (input : ByteArray)
    (command : Command) : Activity (Outcome × ByteArray) := do
  match ← Streams.redirectAll setting status { input } command.redirects with
  | none => return (.goOn 2, ByteArray.empty)
  | some streams =>
    perform start setting status streams (command.words.flatMap (setting.fields status))

/-- Runs the commands of a script; `out` is what they have written so far. -/
def runScript (start : Starter) (setting : Setting) (input : ByteArray) :
    (status : Nat) → (out : ByteArray) → Script → Activity (Ending × ByteArray)
  | status, out, [] => return (.status status, out)
  | status, out, (link, command) :: rest => do
    if !link.allows status then runScript start setting input status out rest
    else
      let (outcome, more) ← runCommand start setting status input command
      match outcome with
      | .goOn status => runScript start setting input status (out ++ more) rest
      | .finished ending => return (ending, out ++ more)

/-- Runs the script that a text is, if it is one. -/
def runText (start : Starter) (setting : Setting) (input : ByteArray) (text : Option String) :
    Activity (Ending × ByteArray) :=
  match text.bind Script.ofText? with
  | some script => runScript start setting input 0 ByteArray.empty script
  | none => return (.status 2, ByteArray.empty)

/-- Runs the shell: with `-c` the script is an argument, otherwise it is in a file or in the input. -/
def runShell (start : Starter) (number : Nat) (args : List String) (input : ByteArray) :
    Activity (Ending × ByteArray) := do
  match args with
  | ["-c"] => return (.status 2, ByteArray.empty)
  | "-c" :: text :: args =>
    runText start ⟨args.headD "sh", args.tail, number⟩ input (some text)
  | path :: args =>
    let content ← attempt? (Files.read · (pathOf path))
    runText start ⟨path, args, number⟩ input (content.map fun content => wordOf content.toBytes.toList)
  | [] => runText start ⟨"sh", [], number⟩ ByteArray.empty (some (wordOf input.toList))

/-! ## Programs -/

/-- Runs a program. -/
def runProgram (start : Starter) (number : Nat) (program : Program) (args : List String)
    (input : ByteArray) : Activity (Ending × ByteArray) := do
  match program with
  | .utility utility =>
    let (status, out) ← utility.run args input
    return (.status status, out)
  | .shell => runShell start number args input
  | .finder =>
    match args with
    | name :: args => startAny start name args input
    | [] => return (.status 0, ByteArray.empty)

/-- The number of the first program. -/
def firstNumber : Nat := 100

/-- Starts a program, which may start others in turn, at most `depth` deep. Starting takes a millisecond,
and a directory that the program has gone to is left again. -/
def launch : (depth : Nat) → Starter
  | 0, _, _, _ => return .error .tooManyLinks
  | depth + 1, name, args, input => do
    match resolve (← get).files name args with
    | .error fault => return .error fault
    | .ok (program, args) =>
      let home := (← get).files.home
      spend 1
      let result ← runProgram (launch depth) (firstNumber + depth) program args input
      modify fun machine => { machine with files := { machine.files with home } }
      return .ok result

end Bindery.Host
