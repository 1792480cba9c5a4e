import Bindery.Script.Syntax

/-!
# `Bindery.Script.Reading` — scripts from text

Words are set apart by blanks. Single quotes keep everything as it is, double quotes keep all but
values and backslashes. A line or a semicolon ends a command, `&&` and `||` link it to the next one.

**Contents.** `Script.Token` and `Script.tokens?`; `Script.ofText?`.
-/

namespace Bindery.Script

/-- What a script is read as first. -/
inductive Token where
  | word (bits : Word)
  | redirect (stream : Nat) (way : Way)
  | link (link : Link)
  | line
deriving DecidableEq, Repr

/-- What a character is between. -/
inductive Quoting where
  | none
  | single
  | double
  | comment
deriving DecidableEq

/-- The tokens so far, the last one first, and the word that is being read. -/
structure Sheet where
  tokens : List Token := []
  word : Option (List Bit) := Option.none

namespace Sheet

/-- Adds to the word that is being read. -/
def add (sheet : Sheet) (bits : List Bit) : Sheet :=
  { sheet with word := some (sheet.word.getD [] ++ bits) }

/-- Ends the word that is being read. -/
def endWord (sheet : Sheet) : Sheet :=
  match sheet.word with
  | some bits => { tokens := .word bits :: sheet.tokens }
  | Option.none => sheet

/-- Ends the word and adds a token after it. -/
def push (sheet : Sheet) (token : Token) : Sheet :=
  { tokens := token :: sheet.endWord.tokens }

/-- Starts a redirection; a digit just before it is the number of the stream. -/
def redirect (sheet : Sheet) (usual : Nat) (way : Way) : Sheet :=
  match sheet.word with
  | some [.char c] =>
    if c.isDigit then { tokens := .redirect (c.toNat - '0'.toNat) way :: sheet.tokens }
    else sheet.push (.redirect usual way)
  | _ => sheet.push (.redirect usual way)

end Sheet

/-- The names of values. -/
def isValueName (c : Char) : Bool :=
  c.isDigit || ['#', '?', '$', '@', '*'].contains c

/-- The characters that a backslash protects between double quotes. -/
def isEscapable (c : Char) : Bool :=
  "$`\"\\".toList.contains c

/-- The characters of constructs that scripts do not have. -/
def isReserved (c : Char) : Bool :=
  "&|()`".toList.contains c

/-- Reads tokens; nothing if a quotation stays open or a character has no meaning here. -/
def scan : Quoting → Sheet → List Char → Option (List Token)
  | .none, sheet, [] | .comment, sheet, [] => some sheet.endWord.tokens.reverse
  | .single, _, [] | .double, _, [] => Option.none
  | .comment, sheet, '\n' :: rest => scan .none (sheet.push .line) rest
  | .comment, sheet, _ :: rest => scan .comment sheet rest
  | .single, sheet, '\'' :: rest => scan .none sheet rest
  | .single, sheet, c :: rest => scan .single (sheet.add [.char c]) rest
  | .double, sheet, '"' :: rest => scan .none sheet rest
  | .double, sheet, '\\' :: c :: rest =>
    if c = '\n' then scan .double sheet rest
    else if isEscapable c then scan .double (sheet.add [.char c]) rest
    else scan .double (sheet.add [.char '\\', .char c]) rest
  | .double, sheet, '$' :: c :: rest =>
    if isValueName c then scan .double (sheet.add [.value c true]) rest
    else scan .double (sheet.add [.char '$']) (c :: rest)
  | .double, sheet, c :: rest => scan .double (sheet.add [.char c]) rest
  | .none, sheet, '\\' :: c :: rest =>
    scan .none (if c = '\n' then sheet else sheet.add [.char c]) rest
  | .none, sheet, '$' :: c :: rest =>
    if isValueName c then scan .none (sheet.add [.value c false]) rest
    else scan .none (sheet.add [.char '$']) (c :: rest)
  | .none, sheet, '&' :: '&' :: rest => scan .none (sheet.push (.link .onSuccess)) rest
  | .none, sheet, '|' :: '|' :: rest => scan .none (sheet.push (.link .onFailure)) rest
  | .none, sheet, '>' :: '>' :: rest => scan .none (sheet.redirect 1 .append) rest
  | .none, sheet, '>' :: '&' :: rest => scan .none (sheet.redirect 1 .same) rest
  | .none, sheet, c :: rest =>
    if c = ' ' ∨ c = '\t' then scan .none sheet.endWord rest
    else if c = '\n' then scan .none (sheet.push .line) rest
    else if c = ';' then scan .none (sheet.push (.link .always)) rest
    else if c = '>' then scan .none (sheet.redirect 1 .sink) rest
    else if c = '<' then scan .none (sheet.redirect 0 .source) rest
    else if c = '\'' then scan .single (sheet.add []) rest
    else if c = '"' then scan .double (sheet.add []) rest
    else if c = '#' ∧ sheet.word.isNone then scan .comment sheet rest
    else if isReserved c then Option.none
    else scan .none (sheet.add [.char c]) rest

/-- The tokens of a text. -/
def tokens? (text : String) : Option (List Token) :=
  scan .none {} text.toList

/-- A command without anything in it. -/
def Command.isEmpty (command : Command) : Bool :=
  command.words.isEmpty && command.redirects.isEmpty

/-- Reads commands: `link` is how the one that is being read hangs on what went before. -/
def commands? : (link : Link) → Command → List Token → Option Script
  | link, command, [] =>
    if !command.isEmpty then some [(link, command)]
    else if link = .always then some [] else none
  | link, command, .word bits :: rest =>
    commands? link { command with words := command.words ++ [bits] } rest
  | link, command, .redirect stream way :: .word target :: rest =>
    commands? link { command with redirects := command.redirects ++ [⟨stream, way, target⟩] } rest
  | _, _, .redirect .. :: _ => none
  | link, command, .line :: rest =>
    if command.isEmpty then commands? link command rest
    else (commands? .always {} rest).map ((link, command) :: ·)
  | link, command, .link next :: rest =>
    if command.isEmpty then none
    else (commands? next {} rest).map ((link, command) :: ·)

/-- The script that a text is. -/
def ofText? (text : String) : Option Script :=
  (tokens? text).bind (commands? .always {})

end Bindery.Script
