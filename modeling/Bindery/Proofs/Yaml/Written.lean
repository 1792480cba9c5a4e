import Bindery.Proofs.Yaml.DoubleText

/-!
# `Bindery.Proofs.Yaml.Written` — the trees that values are written as

Writing has some freedom: a string may stand in quotes, or without them if it does not look like something
else. `Written` says which trees a value may be written as, and leaves that freedom open. Values under
tags of one's own are not written here.

Whatever tree is chosen, a value is read from it again, if it is one that a program can hold: integers
have 64 bits, finite doubles are kept as their shortest decimals, and the keys of a mapping are distinct.

**Contents.** `Value.Every`, what holds of a value and of all values in it; `Value.Proper` and
`Value.Untagged`; `Written`; `exists_written`; `ofTree?_written`.
-/

namespace Bindery.Yaml

open Bindery.Number

namespace Value

mutual

/-- `p` holds of a value and of every value in it. -/
def Every (p : Value → Prop) : Value → Prop
  | .list items => p (.list items) ∧ EveryItem p items
  | .dict entries => p (.dict entries) ∧ EveryEntry p entries
  | .tagged tag value => p (.tagged tag value) ∧ Every p value
  | value => p value

/-- `p` holds of every value in a list. -/
def EveryItem (p : Value → Prop) : List Value → Prop
  | [] => True
  | item :: items => Every p item ∧ EveryItem p items

/-- `p` holds of every value in the entries of a mapping. -/
def EveryEntry (p : Value → Prop) : List (Value × Value) → Prop
  | [] => True
  | (key, value) :: entries => Every p key ∧ Every p value ∧ EveryEntry p entries

end

theorem everyItem_iff {p : Value → Prop} {items : List Value} :
    EveryItem p items ↔ ∀ item ∈ items, item.Every p := by
  induction items with
  | nil => simp [EveryItem]
  | cons item items ih => simp [EveryItem, ih]

theorem everyEntry_iff {p : Value → Prop} {entries : List (Value × Value)} :
    EveryEntry p entries ↔ ∀ entry ∈ entries, entry.1.Every p ∧ entry.2.Every p := by
  induction entries with
  | nil => simp [EveryEntry]
  | cons entry entries ih => simp [EveryEntry, ih, and_assoc]

/-- What holds of strings and of the values of fields holds in their mapping. -/
theorem everyEntry_fields {p : Value → Prop} (texts : ∀ s, p (.text s)) {fields : List (String × Value)}
    (h : ∀ field ∈ fields, field.2.Every p) :
    EveryEntry p (fields.map fun (name, value) => (.text name, value)) := by
  rw [everyEntry_iff]
  intro entry hmem
  obtain ⟨field, hfield, rfl⟩ := List.mem_map.mp hmem
  exact ⟨texts field.1, h field hfield⟩

/-- What a program can hold, without a look at the values inside. -/
def Held : Value → Prop
  | .int n => isWithin 64 n = true
  | .float x => x.Proper
  | .dict entries => distinctKeys entries = true
  | _ => True

/-- A value that a program can hold. -/
def Proper (value : Value) : Prop :=
  value.Every Held

/-- The value is not one under a tag. -/
def Bare : Value → Prop
  | .tagged .. => False
  | _ => True

/-- Neither the value nor one in it has a tag. -/
def Untagged (value : Value) : Prop :=
  value.Every Bare

end Value

/-! ## Writing -/

mutual

/-- The trees that a value may be written as. -/
inductive Written : Value → Tree → Prop where
  | null : Written .null (.scalar none "null" true)
  | bool (b : Bool) : Written (.bool b) (.scalar none (toString b) true)
  | int (n : Int) : Written (.int n) (.scalar none (toString n) true)
  | float (x : Double) : Written (.float x) (.scalar none x.text true)
  | quoted (s : String) : Written (.text s) (.scalar none s false)
  /-- a string that looks like nothing else needs no quotes -/
  | bare (s : String) (h : Value.ofPlain? s = some (.text s)) : Written (.text s) (.scalar none s true)
  | list {items : List Value} {trees : List Tree} (h : WrittenItems items trees) :
    Written (.list items) (.list none trees)
  | dict {entries : List (Value × Value)} {trees : List (Tree × Tree)}
    (h : WrittenEntries entries trees) : Written (.dict entries) (.dict none trees)

/-- The trees that the items of a list may be written as. -/
inductive WrittenItems : List Value → List Tree → Prop where
  | nil : WrittenItems [] []
  | cons {item : Value} {tree : Tree} {items : List Value} {trees : List Tree}
    (head : Written item tree) (tail : WrittenItems items trees) :
    WrittenItems (item :: items) (tree :: trees)

/-- The trees that the entries of a mapping may be written as. -/
inductive WrittenEntries : List (Value × Value) → List (Tree × Tree) → Prop where
  | nil : WrittenEntries [] []
  | cons {key value : Value} {keyTree valueTree : Tree} {entries : List (Value × Value)}
    {trees : List (Tree × Tree)} (first : Written key keyTree) (second : Written value valueTree)
    (tail : WrittenEntries entries trees) :
    WrittenEntries ((key, value) :: entries) ((keyTree, valueTree) :: trees)

end

mutual

/-- Every value without tags can be written. -/
theorem exists_written : ∀ {value : Value}, value.Untagged → ∃ tree, Written value tree
  | .null, _ => ⟨_, .null⟩
  | .bool b, _ => ⟨_, .bool b⟩
  | .int n, _ => ⟨_, .int n⟩
  | .float x, _ => ⟨_, .float x⟩
  | .text s, _ => ⟨_, .quoted s⟩
  | .list _, h => (exists_writtenItems h.2).elim fun _ h => ⟨_, .list h⟩
  | .dict _, h => (exists_writtenEntries h.2).elim fun _ h => ⟨_, .dict h⟩
  | .tagged _ _, h => h.1.elim

theorem exists_writtenItems : ∀ {items : List Value}, Value.EveryItem Value.Bare items →
    ∃ trees, WrittenItems items trees
  | [], _ => ⟨_, .nil⟩
  | _ :: _, h =>
    (exists_written h.1).elim fun _ head =>
      (exists_writtenItems h.2).elim fun _ tail => ⟨_, .cons head tail⟩

theorem exists_writtenEntries : ∀ {entries : List (Value × Value)}, Value.EveryEntry Value.Bare entries →
    ∃ trees, WrittenEntries entries trees
  | [], _ => ⟨_, .nil⟩
  | (_, _) :: _, h =>
    (exists_written h.1).elim fun _ first =>
      (exists_written h.2.1).elim fun _ second =>
        (exists_writtenEntries h.2.2).elim fun _ tail => ⟨_, .cons first second tail⟩

end

/-! ## Reading -/

/-- A plain scalar without a tag is read by its looks. -/
theorem ofTree?_plain (own : Bool) (text : String) :
    Value.ofTree? own (.scalar none text true) = Value.ofPlain? text := by
  show (Value.ofPlain? text).bind (Value.under? own none) = Value.ofPlain? text
  cases Value.ofPlain? text <;> rfl

mutual

/-- A value is read from every tree that it may be written as. -/
theorem ofTree?_written (own : Bool) : ∀ {value : Value} {tree : Tree}, Written value tree →
    value.Proper → Value.ofTree? own tree = some value
  | _, _, .null, _ => by rw [ofTree?_plain]; rfl
  | _, _, .bool b, _ => by rw [ofTree?_plain]; cases b <;> rfl
  | _, _, .int n, proper => by rw [ofTree?_plain]; exact ofPlain?_int proper
  | _, _, .float x, proper => by rw [ofTree?_plain]; exact ofPlain?_float proper
  | _, _, .quoted s, _ => by rfl
  | _, _, .bare s h, _ => by rw [ofTree?_plain]; exact h
  | _, _, .list h, proper => by
    rw [Value.ofTree?, ofItems?_written own h proper.2]
    rfl
  | _, _, .dict h, proper => by
    rw [Value.ofTree?, ofEntries?_written own h proper.2, Option.bind_some,
      if_pos (show Value.distinctKeys _ = true from proper.1)]
    rfl

theorem ofItems?_written (own : Bool) : ∀ {items : List Value} {trees : List Tree},
    WrittenItems items trees → Value.EveryItem Value.Held items → Value.ofItems? own trees = some items
  | _, _, .nil, _ => rfl
  | _, _, .cons head tail, proper => by
    rw [Value.ofItems?, ofTree?_written own head proper.1, ofItems?_written own tail proper.2]
    rfl

theorem ofEntries?_written (own : Bool) : ∀ {entries : List (Value × Value)} {trees : List (Tree × Tree)},
    WrittenEntries entries trees → Value.EveryEntry Value.Held entries →
    Value.ofEntries? own trees = some entries
  | _, _, .nil, _ => rfl
  | _, _, .cons first second tail, proper => by
    rw [Value.ofEntries?, ofTree?_written own first proper.1, ofTree?_written own second proper.2.1,
      ofEntries?_written own tail proper.2.2]
    rfl

end

end Bindery.Yaml
