import Bindery.Dict
import Bindery.Template.Syntax

/-!
# `Bindery.Template.Value` — the values of expressions

There are no numbers: an integer is the string of its decimal digits. Only nil and false count as
false in a test.

**Contents.** `Value` with decidable equality; `Value.truthy`, `Value.typeName`; `Value.field?`, one
field of a mapping; `Binding`, the variables that a template sees.
-/

namespace Bindery.Template

/-- The value of an expression. -/
inductive Value where
  | nil
  | bool (value : Bool)
  | str (text : String)
  | list (items : List Value)
  /-- fields in ascending order of their names -/
  | map (fields : List (String × Value))
deriving Repr, Inhabited

namespace Value

mutual

/-- Equality of values. -/
def same : Value → Value → Bool
  | .nil, .nil => true
  | .bool a, .bool b => a == b
  | .str s, .str t => s == t
  | .list xs, .list ys => sameItems xs ys
  | .map fs, .map gs => sameFields fs gs
  | _, _ => false

/-- Equality of lists of values. -/
def sameItems : List Value → List Value → Bool
  | [], [] => true
  | x :: xs, y :: ys => same x y && sameItems xs ys
  | _, _ => false

/-- Equality of the fields of mappings. -/
def sameFields : List (String × Value) → List (String × Value) → Bool
  | [], [] => true
  | (k, x) :: fs, (l, y) :: gs => k == l && same x y && sameFields fs gs
  | _, _ => false

end

mutual

theorem same_self : ∀ v : Value, same v v = true
  | .nil => rfl
  | .bool b => by simp [same]
  | .str s => by simp [same]
  | .list xs => by simp [same, sameItems_self xs]
  | .map fs => by simp [same, sameFields_self fs]

theorem sameItems_self : ∀ xs : List Value, sameItems xs xs = true
  | [] => rfl
  | x :: xs => by simp [sameItems, same_self x, sameItems_self xs]

theorem sameFields_self : ∀ fs : List (String × Value), sameFields fs fs = true
  | [] => rfl
  | (k, x) :: fs => by simp [sameFields, same_self x, sameFields_self fs]

end

mutual

theorem eq_of_same : ∀ {v w : Value}, same v w = true → v = w
  | .nil, w, h => by cases w <;> simp [same] at h ⊢
  | .bool a, w, h => by cases w <;> simp [same] at h ⊢; exact h
  | .str s, w, h => by cases w <;> simp [same] at h ⊢; exact h
  | .list xs, w, h => by
    cases w <;> simp [same] at h ⊢
    exact eq_of_sameItems h
  | .map fs, w, h => by
    cases w <;> simp [same] at h ⊢
    exact eq_of_sameFields h

theorem eq_of_sameItems : ∀ {xs ys : List Value}, sameItems xs ys = true → xs = ys
  | [], ys, h => by cases ys <;> simp [sameItems] at h ⊢
  | x :: xs, ys, h => by
    cases ys <;> simp [sameItems] at h ⊢
    exact ⟨eq_of_same h.1, eq_of_sameItems h.2⟩

theorem eq_of_sameFields : ∀ {fs gs : List (String × Value)}, sameFields fs gs = true → fs = gs
  | [], gs, h => by cases gs <;> simp [sameFields] at h ⊢
  | (k, x) :: fs, gs, h => by
    cases gs with
    | nil => simp [sameFields] at h
    | cons g gs =>
      obtain ⟨l, y⟩ := g
      simp [sameFields] at h ⊢
      exact ⟨⟨h.1.1, eq_of_same h.1.2⟩, eq_of_sameFields h.2⟩

end

instance : DecidableEq Value := fun v w =>
  if h : same v w = true then isTrue (eq_of_same h)
  else isFalse fun e => h (e ▸ same_self v)

/-- What counts as true in a test. -/
def truthy : Value → Bool
  | .nil => false
  | .bool b => b
  | _ => true

/-- The word for the kind of a value. -/
def typeName : Value → String
  | .nil => "nil"
  | .bool _ => "boolean"
  | .str _ => "string"
  | .list _ => "list"
  | .map _ => "mapping"

/-- A field of a mapping; nothing for any other value. -/
def field? (name : String) : Value → Option Value
  | .map fields => Dict.find? name fields
  | _ => none

end Value

/-- The variables that a template sees, by name. -/
abbrev Binding := Dict String Value

end Bindery.Template
