/-!
# `Bindery.Text.Blank` — white space and trimming

Tags are read without the white space around their code, and a book title made of white space alone
counts as missing. White space is the Unicode property `White_Space`, which has 25 code points.

**Contents.** `isBlank`, the class; `trimStart`, `trimEnd` and `trim` on lists of characters;
`withoutFinalNewline`, which drops one newline at the end of a text.
-/

namespace Bindery.Text

/-- White space in the sense of the Unicode property `White_Space`. -/
def isBlank (c : Char) : Bool :=
  (0x09 ≤ c.toNat && c.toNat ≤ 0x0D) || c.toNat == 0x20 || c.toNat == 0x85 || c.toNat == 0xA0
    || c.toNat == 0x1680 || (0x2000 ≤ c.toNat && c.toNat ≤ 0x200A) || c.toNat == 0x2028
    || c.toNat == 0x2029 || c.toNat == 0x202F || c.toNat == 0x205F || c.toNat == 0x3000

/-- The text without its leading white space. -/
def trimStart (s : List Char) : List Char :=
  s.dropWhile isBlank

/-- The text without its trailing white space. -/
def trimEnd (s : List Char) : List Char :=
  (s.reverse.dropWhile isBlank).reverse

/-- The text without the white space on either side. -/
def trim (s : List Char) : List Char :=
  trimEnd (trimStart s)

/-- The text less one newline at its end, if there is one there. -/
def withoutFinalNewline (s : String) : String :=
  match s.toList.reverse with
  | '\n' :: front => String.ofList front.reverse
  | _ => s

@[simp] theorem trim_nil : trim [] = [] := rfl

theorem trim_eq_nil_iff {s : List Char} : trim s = [] ↔ ∀ c ∈ s, isBlank c = true := by
  have drop : ∀ t : List Char, t.dropWhile isBlank = [] ↔ ∀ c ∈ t, isBlank c = true := by
    intro t
    induction t with
    | nil => simp
    | cons c t ih => by_cases h : isBlank c = true <;> simp [h, ih]
  unfold trim trimEnd trimStart
  rw [List.reverse_eq_nil_iff, drop]
  constructor
  · intro h
    have blankRest : ∀ c ∈ s.dropWhile isBlank, isBlank c = true := fun c hc =>
      h c (List.mem_reverse.2 hc)
    have nil : s.dropWhile isBlank = [] := by
      cases e : s.dropWhile isBlank with
      | nil => rfl
      | cons c t =>
        have stop := List.head_dropWhile_not isBlank (l := s) (by simp [e])
        have := blankRest c (by simp [e])
        simp [e, this] at stop
    exact (drop s).1 nil
  · intro h c hc
    exact h c (List.dropWhile_subset _ (List.mem_reverse.1 hc))

end Bindery.Text
