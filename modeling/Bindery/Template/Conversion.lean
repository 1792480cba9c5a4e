import Bindery.Template.Value
import Bindery.Yaml.Value

/-!
# `Bindery.Template.Conversion` — YAML values as template values

Numbers become their text and tags are dropped. A key of a mapping becomes its text when it is a
string, a number or a boolean, and its entry is left out otherwise; of the entries that get the same
key the last one stays.

**Contents.** `keyOfYaml?`; `Value.ofYaml` with `itemsOfYaml` and `fieldsOfYaml`.
-/

namespace Bindery.Template

/-- The name of the field that a YAML key becomes. -/
def keyOfYaml? : Yaml.Value → Option String
  | .text s => some s
  | .int n => some (toString n)
  | .float x => some x.text
  | .bool b => some (if b then "true" else "false")
  | _ => none

mutual

/-- The template value that a YAML value becomes. -/
def Value.ofYaml : Yaml.Value → Value
  | .null => .nil
  | .bool b => .bool b
  | .int n => .str (toString n)
  | .float x => .str x.text
  | .text s => .str s
  | .list items => .list (itemsOfYaml items)
  | .dict entries => .map (Dict.ofList (fieldsOfYaml entries))
  | .tagged _ value => Value.ofYaml value

/-- The template values that the items of a YAML list become. -/
def itemsOfYaml : List Yaml.Value → List Value
  | [] => []
  | item :: items => Value.ofYaml item :: itemsOfYaml items

/-- The fields that the entries of a YAML mapping become, in the order of the mapping. -/
def fieldsOfYaml : List (Yaml.Value × Yaml.Value) → List (String × Value)
  | [] => []
  | (key, value) :: entries =>
    match keyOfYaml? key with
    | some name => (name, Value.ofYaml value) :: fieldsOfYaml entries
    | none => fieldsOfYaml entries

end

end Bindery.Template
