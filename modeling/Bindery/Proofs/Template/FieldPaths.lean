import Bindery.Proofs.Outcome
import Bindery.Template.Conversion
import Bindery.Template.Render

/-!
# `Proofs.Template.FieldPaths` — fields of converted values

A field path can be followed in a YAML value as it is written (`Yaml.Value.follow`): tags are looked through, and
of the entries of a mapping the last one counts whose key is read as the name of the field. A template follows
it in the value after its conversion, which has no tags, no keys that are not names and no two fields of one
name. Both come to the same (`select_ofYaml`, by induction on the fields), because look-up in the converted
mapping finds what the last such entry became (`find?_fieldsOfYaml`).

**Contents.**
* `Yaml.Value.IsNamed`, `Yaml.Value.lastNamed`, `Yaml.Value.follow` — fields of a YAML value;
* `keyOfYaml?_eq_some_iff`, `find?_fieldsOfYaml` — the same look-up after the conversion;
* `select_ofYaml`, `fields_commute` — following fields and conversion commute.
-/

namespace Bindery

/-! ## Fields of a YAML value -/

namespace Yaml.Value

/-- A key that is read as a name: it is a string, or the text of it is, if it is a number or a boolean. -/
def IsNamed (name : String) : Yaml.Value → Prop
  | .text s => s = name
  | .int n => toString n = name
  | .float x => x.text = name
  | .bool b => (if b then "true" else "false") = name
  | _ => False

instance (name : String) : (key : Yaml.Value) → Decidable (IsNamed name key)
  | .text s => inferInstanceAs (Decidable (s = name))
  | .int n => inferInstanceAs (Decidable (toString n = name))
  | .float x => inferInstanceAs (Decidable (x.text = name))
  | .bool b => inferInstanceAs (Decidable ((if b then "true" else "false") = name))
  | .null => isFalse id
  | .list _ => isFalse id
  | .dict _ => isFalse id
  | .tagged _ _ => isFalse id

/-- The value of the last entry whose key is read as a name. -/
def lastNamed (name : String) (entries : List (Yaml.Value × Yaml.Value)) : Option Yaml.Value :=
  (entries.filter fun entry => IsNamed name entry.1).getLast?.map Prod.snd

/-- The value under all of its tags. -/
def untagged : Yaml.Value → Yaml.Value
  | .tagged _ value => value.untagged
  | value => value

/-- Where fields lead. -/
inductive Reached where
  | value (value : Yaml.Value)
  /-- there is no such field -/
  | nothing
  /-- `holder` has no fields at all, and is not null -/
  | stuck (field : String) (holder : Yaml.Value)

/-- Follows fields into a value. -/
def follow : Yaml.Value → List String → Reached
  | value, [] => .value value
  | value, field :: rest =>
    match value.untagged with
    | .null => .nothing
    | .dict entries =>
      match lastNamed field entries with
      | some inner => follow inner rest
      | none => .nothing
    | holder => .stuck field holder

theorem follow_cons (value : Yaml.Value) (field : String) (rest : List String) :
    follow value (field :: rest) =
      match value.untagged with
      | .null => .nothing
      | .dict entries =>
        match lastNamed field entries with
        | some inner => follow inner rest
        | none => .nothing
      | holder => .stuck field holder := by
  rw [follow.eq_def]

/-- Neither a mapping nor null, and without a tag. -/
inductive HasNoFields : Yaml.Value → Prop
  | bool (value : Bool) : HasNoFields (.bool value)
  | int (value : Int) : HasNoFields (.int value)
  | float (value : Number.Double) : HasNoFields (.float value)
  | text (value : String) : HasNoFields (.text value)
  | list (items : List Yaml.Value) : HasNoFields (.list items)

theorem not_tagged_untagged (value inner : Yaml.Value) (tag : String) : value.untagged ≠ .tagged tag inner := by
  induction value using Yaml.Value.untagged.induct with
  | case1 tag value ih => rwa [Yaml.Value.untagged]
  | case2 value hplain =>
    rw [Yaml.Value.untagged.eq_2 value hplain]
    exact hplain tag inner

/-- Fields lead nowhere only at a value that has none. -/
theorem hasNoFields_of_follow {value holder : Yaml.Value} {fields : List String} {field : String}
    (hfollow : follow value fields = .stuck field holder) : holder.HasNoFields := by
  induction fields generalizing value with
  | nil =>
    rw [follow] at hfollow
    cases hfollow
  | cons name rest ih =>
    rw [follow_cons] at hfollow
    cases huntagged : value.untagged with
    | null =>
      rw [huntagged] at hfollow
      cases hfollow
    | dict entries =>
      rw [huntagged] at hfollow
      dsimp only at hfollow
      -- a mapping has fields: one that is absent is an answer, one that is there is followed
      cases hentry : lastNamed name entries with
      | none =>
        rw [hentry] at hfollow
        cases hfollow
      | some inner =>
        rw [hentry] at hfollow
        exact ih hfollow
    | tagged tag inner => exact absurd huntagged (not_tagged_untagged value inner tag)
    | bool _ | int _ | float _ | text _ | list _ =>
      rw [huntagged] at hfollow
      cases hfollow
      constructor

end Yaml.Value

namespace Template

open Yaml.Value (IsNamed Reached follow follow_cons hasNoFields_of_follow lastNamed not_tagged_untagged)

/-! ## The same after conversion -/

/-- A key becomes the name that it is read as. -/
theorem keyOfYaml?_eq_some_iff {key : Yaml.Value} {name : String} :
    keyOfYaml? key = some name ↔ IsNamed name key := by
  cases key <;> simp [keyOfYaml?, IsNamed]

/-- The field that an entry of a mapping becomes. -/
def fieldOfYaml? (entry : Yaml.Value × Yaml.Value) : Option (String × Value) :=
  (keyOfYaml? entry.1).map fun name => (name, Value.ofYaml entry.2)

theorem fieldsOfYaml_eq (entries : List (Yaml.Value × Yaml.Value)) :
    fieldsOfYaml entries = entries.filterMap fieldOfYaml? := by
  induction entries with
  | nil => rfl
  | cons entry entries ih =>
    obtain ⟨key, value⟩ := entry
    rw [fieldsOfYaml, List.filterMap_cons, ih]
    unfold fieldOfYaml?
    cases keyOfYaml? key <;> rfl

theorem itemsOfYaml_eq (items : List Yaml.Value) : itemsOfYaml items = items.map Value.ofYaml := by
  induction items with
  | nil => rfl
  | cons item items ih => rw [itemsOfYaml, List.map_cons, ih]

/-- Of some fields the first one of a name comes from the first entry whose key is read as it. -/
theorem find?_filterMap (name : String) (entries : List (Yaml.Value × Yaml.Value)) :
    Dict.find? name (entries.filterMap fieldOfYaml?) =
      (entries.filter fun entry => IsNamed name entry.1).head?.map fun entry => Value.ofYaml entry.2 := by
  induction entries with
  | nil => rfl
  | cons entry entries ih =>
    obtain ⟨key, value⟩ := entry
    by_cases hnamed : IsNamed name key
    · have hfield : fieldOfYaml? (key, value) = some (name, Value.ofYaml value) := by
        unfold fieldOfYaml?
        rw [keyOfYaml?_eq_some_iff.mpr hnamed]
        rfl
      rw [List.filterMap_cons_some hfield, List.filter_cons_of_pos (by simpa using hnamed),
        Dict.find?_cons, if_pos rfl]
      rfl
    · -- an entry without a name is dropped by the conversion, one of another name is passed over by the look-up
      rw [List.filter_cons_of_neg (by simpa using hnamed), ← ih]
      cases hkey : keyOfYaml? key with
      | none =>
        have hfield : fieldOfYaml? (key, value) = none := by
          unfold fieldOfYaml?
          rw [hkey]
          rfl
        rw [List.filterMap_cons_none hfield]
      | some other =>
        have hfield : fieldOfYaml? (key, value) = some (other, Value.ofYaml value) := by
          unfold fieldOfYaml?
          rw [hkey]
          rfl
        have hother : other ≠ name := by
          rintro rfl
          exact hnamed (keyOfYaml?_eq_some_iff.mp hkey)
        rw [List.filterMap_cons_some hfield, Dict.find?_cons, if_neg hother]

/-- **Look-up in a converted mapping finds what the last entry of the name became.** -/
theorem find?_fieldsOfYaml (name : String) (entries : List (Yaml.Value × Yaml.Value)) :
    Dict.find? name (Dict.ofList (fieldsOfYaml entries)) = (lastNamed name entries).map Value.ofYaml := by
  rw [Dict.find?_ofList, fieldsOfYaml_eq, ← List.filterMap_reverse, find?_filterMap, List.filter_reverse,
    List.head?_reverse, lastNamed, Option.map_map]
  rfl

theorem ofYaml_untagged (value : Yaml.Value) : Value.ofYaml value.untagged = Value.ofYaml value := by
  induction value using Yaml.Value.untagged.induct with
  | case1 tag value ih => rw [Yaml.Value.untagged, Value.ofYaml, ih]
  | case2 value hplain => rw [Yaml.Value.untagged.eq_2 value hplain]

/-- What a template gets for the place that fields lead to. -/
def outcome : Reached → Except Cause Value
  | .value value => .ok (Value.ofYaml value)
  | .nothing => .ok .nil
  | .stuck field holder => .error (.notMapping field (Value.ofYaml holder).typeName)

/-- **Following fields and conversion commute.** -/
theorem select_ofYaml (value : Yaml.Value) (fields : List String) :
    (Value.ofYaml value).select fields = outcome (follow value fields) := by
  induction fields generalizing value with
  | nil =>
    rw [Value.select, follow]
    rfl
  | cons field rest ih =>
    rw [follow_cons, ← ofYaml_untagged]
    cases huntagged : value.untagged with
    | null | bool _ | int _ | float _ | text _ | list _ => rfl
    | tagged tag inner => exact absurd huntagged (not_tagged_untagged value inner tag)
    | dict entries =>
      rw [Value.ofYaml, Value.select, find?_fieldsOfYaml]
      dsimp only
      cases lastNamed field entries with
      | none => rfl
      | some inner => exact ih inner

/-- **Field paths commute with the conversion of YAML.** A template reads fields of a variable that holds a
converted value as they can be followed in the value as it is written: what they lead to is converted, a missing
field is nil, and a field of a boolean, a string, a number or a list is an evaluation fault of the template. Lists
keep the order of their items. -/
theorem fields_commute :
    (∀ (scope : Scope) (name : String) (value : Yaml.Value) (fields : List String),
      scope.find? name = some (Value.ofYaml value) →
      match follow value fields with
      | .value inner => (Expr.var name fields).eval scope = .ok (Value.ofYaml inner)
      | .nothing => (Expr.var name fields).eval scope = .ok .nil
      | .stuck field holder => holder.HasNoFields ∧ ∃ cause, cause.kind = .evaluation ∧
          cause = .notMapping field (Value.ofYaml holder).typeName ∧
          (Expr.var name fields).eval scope = .error ⟨scope.label, cause⟩) ∧
    ∀ items : List Yaml.Value, Value.ofYaml (.list items) = .list (items.map Value.ofYaml) := by
  constructor
  · intro scope name value fields hbound
    have heval : (Expr.var name fields).eval scope = (outcome (follow value fields)).mapError scope.fault := by
      rw [Expr.eval, hbound, ← select_ofYaml]
    cases hfollow : follow value fields with
    | value inner =>
      rw [heval, hfollow]
      rfl
    | nothing =>
      rw [heval, hfollow]
      rfl
    | stuck field holder =>
      refine ⟨hasNoFields_of_follow hfollow, _, rfl, rfl, ?_⟩
      rw [heval, hfollow]
      rfl
  · intro items
    rw [Value.ofYaml, itemsOfYaml_eq]

/-- A tagged mapping in which two keys are read as `1`, and two are not read as names. -/
def nestedYaml : Yaml.Value :=
  .tagged "!book" (.dict [(.text "1", .text "first"), (.null, .text "lost"),
    (.int 1, .tagged "!part" (.dict [(.bool true, .list [.int 7, .null, .text "z"]), (.text "open", .null)])),
    (.tagged "!key" (.text "1"), .text "lost")])

/-- A scope in which `x` is the tagged mapping. -/
def nestedScope : Scope where
  label := ⟨"page"⟩
  globals := [("x", Value.ofYaml nestedYaml)]
  locals := []
  resolve := fun path => .ok path.text

/-- The later of two entries of one name counts, and the tags around both mappings are looked through. -/
theorem fields_commute_nested :
    (Expr.var "x" ["1", "true"]).eval nestedScope = .ok (.list [.str "7", .nil, .str "z"]) ∧
    (Expr.var "x" ["1", "open", "wide"]).eval nestedScope = .ok .nil ∧
    (Expr.var "x" ["1", "true", "0"]).eval nestedScope =
      .error ⟨⟨"page"⟩, .notMapping "0" "list"⟩ := by
  obtain ⟨hfields, hitems⟩ := fields_commute
  have hbound : nestedScope.find? "x" = some (Value.ofYaml nestedYaml) := rfl
  have hlist := hfields nestedScope "x" nestedYaml ["1", "true"] hbound
  have hnil := hfields nestedScope "x" nestedYaml ["1", "open", "wide"] hbound
  have hstuck := hfields nestedScope "x" nestedYaml ["1", "true", "0"] hbound
  refine ⟨?_, hnil, ?_⟩
  · exact hlist.trans (congrArg Except.ok (hitems _))
  · obtain ⟨-, cause, -, rfl, heval⟩ := hstuck
    exact heval

end Template

end Bindery
