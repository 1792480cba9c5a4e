/-!
# `Bindery.Yaml.Token` — the tokens of YAML

A YAML text is a sequence of tokens. Indentation is part of it: a block sequence or mapping opens with
a token of its own and closes with `blockEnd`, and the key of a mapping entry has a `key` token in front
of it even where no question mark is written.

**Contents.** `Token`.
-/

namespace Bindery.Yaml

/-- A token. -/
inductive Token where
  | streamEnd
  /-- `%YAML` with its version -/
  | version (major minor : Nat)
  /-- `%TAG` with a handle and what it stands for -/
  | shorthand (handle expansion : String)
  | documentStart
  | documentEnd
  | blockSequence
  | blockMapping
  | blockEnd
  | flowSequence
  | flowSequenceEnd
  | flowMapping
  | flowMappingEnd
  | blockEntry
  | flowEntry
  | key
  | value
  | alias (name : String)
  | anchor (name : String)
  | tag (handle suffix : String)
  | scalar (text : String) (plain : Bool)
deriving DecidableEq, Repr

end Bindery.Yaml
