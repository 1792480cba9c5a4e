/-!
# `Bindery.Dict` — entries in key order

Template mappings, book metadata and directory trees are all listed in ascending order of their keys,
whatever order they were written in. They share one representation: a list of entries in that order.

**Contents.** `Dict.find?`, `Dict.insert` (which replaces an entry with the same key), `Dict.erase` and
`Dict.ofList` (the last entry of a key wins); the effect of each on look-up, which needs no
hypothesis on the entries; `Dict.Sorted` and its preservation.
-/

namespace Bindery

/-- Entries in ascending order of their keys. -/
abbrev Dict (κ α : Type) := List (κ × α)

namespace Dict

variable {κ α β : Type}

/-- The value of the first entry with key `k`. -/
def find? [DecidableEq κ] (k : κ) : Dict κ α → Option α
  | [] => none
  | (k', a) :: rest => if k' = k then some a else find? k rest

/-- Adds an entry at its place, instead of one with the same key if there is one. -/
def insert [DecidableEq κ] [LT κ] [DecidableLT κ] (k : κ) (a : α) : Dict κ α → Dict κ α
  | [] => [(k, a)]
  | (k', a') :: rest =>
    if k' = k then (k, a) :: rest
    else if k < k' then (k, a) :: (k', a') :: rest
    else (k', a') :: insert k a rest

/-- Drops every entry with key `k`. -/
def erase [DecidableEq κ] (k : κ) (d : Dict κ α) : Dict κ α :=
  d.filter fun entry => entry.1 ≠ k

/-- Puts entries in order; of two with the same key the later one stays. -/
def ofList [DecidableEq κ] [LT κ] [DecidableLT κ] (entries : List (κ × α)) : Dict κ α :=
  entries.foldl (fun d entry => insert entry.1 entry.2 d) []

/-- Adds the entries of `upper` to `base`, where they win. -/
def overlay [DecidableEq κ] [LT κ] [DecidableLT κ] (base upper : Dict κ α) : Dict κ α :=
  upper.foldl (fun d entry => insert entry.1 entry.2 d) base

/-- The same keys with every value changed by `f`. -/
def mapValues (f : α → β) (d : Dict κ α) : Dict κ β :=
  d.map fun entry => (entry.1, f entry.2)

/-! ## Look-up -/

section Find

variable [DecidableEq κ]

@[simp] theorem find?_nil (k : κ) : find? k ([] : Dict κ α) = none := rfl

@[simp] theorem find?_cons (k k' : κ) (a : α) (d : Dict κ α) :
    find? k ((k', a) :: d) = if k' = k then some a else find? k d := rfl

/-- A value that look-up gives belongs to an entry. -/
theorem mem_of_find? {k : κ} {a : α} {d : Dict κ α} (h : find? k d = some a) : (k, a) ∈ d := by
  induction d with
  | nil => simp at h
  | cons entry d ih =>
    obtain ⟨k', a'⟩ := entry
    by_cases hk : k' = k
    · subst hk; simp at h; simp [h]
    · simp [hk] at h; exact List.mem_cons_of_mem _ (ih h)

/-- Look-up finds nothing exactly for the keys that no entry has. -/
theorem find?_eq_none_iff {k : κ} {d : Dict κ α} : find? k d = none ↔ ∀ a, (k, a) ∉ d := by
  induction d with
  | nil => simp
  | cons entry d ih =>
    obtain ⟨k', a'⟩ := entry
    by_cases hk : k' = k
    · subst hk
      simp only [find?_cons, if_pos, reduceCtorEq, false_iff]
      exact fun none => none a' List.mem_cons_self
    · have hk' : ¬ k = k' := fun h => hk h.symm
      simp [hk, hk', ih]

theorem find?_append (k : κ) (d e : Dict κ α) :
    find? k (d ++ e) = (find? k d).or (find? k e) := by
  induction d with
  | nil => simp
  | cons entry d ih => obtain ⟨k', a'⟩ := entry; by_cases hk : k' = k <;> simp [hk, ih]

theorem find?_filter_of_true {k : κ} {p : κ × α → Bool} (d : Dict κ α) (h : ∀ a, p (k, a) = true) :
    find? k (d.filter p) = find? k d := by
  induction d with
  | nil => rfl
  | cons entry d ih =>
    obtain ⟨k', a'⟩ := entry
    by_cases hk : k' = k
    · subst hk; simp [h a']
    · by_cases hp : p (k', a') = true <;> simp [hp, hk, ih]

theorem find?_filter_of_false {k : κ} {p : κ × α → Bool} (d : Dict κ α)
    (h : ∀ a, p (k, a) = false) : find? k (d.filter p) = none := by
  rw [find?_eq_none_iff]
  intro a ha
  have := (List.mem_filter.1 ha).2
  simp [h a] at this

@[simp] theorem find?_erase_self (k : κ) (d : Dict κ α) : find? k (erase k d) = none :=
  find?_filter_of_false d (by simp)

theorem find?_erase_of_ne {k k' : κ} (h : k' ≠ k) (d : Dict κ α) :
    find? k' (erase k d) = find? k' d :=
  find?_filter_of_true d (by simp [h])

variable [LT κ] [DecidableLT κ]

@[simp] theorem find?_insert_self (k : κ) (a : α) (d : Dict κ α) :
    find? k (insert k a d) = some a := by
  induction d with
  | nil => simp [insert]
  | cons entry d ih =>
    obtain ⟨k', a'⟩ := entry
    by_cases hk : k' = k
    · simp [insert, hk]
    · by_cases hlt : k < k' <;> simp [insert, hk, hlt, ih]

theorem find?_insert_of_ne {k k' : κ} (h : k' ≠ k) (a : α) (d : Dict κ α) :
    find? k' (insert k a d) = find? k' d := by
  induction d with
  | nil => simp [insert, h.symm]
  | cons entry d ih =>
    obtain ⟨k'', a''⟩ := entry
    by_cases hk : k'' = k
    · subst hk; simp [insert, h.symm]
    · by_cases hlt : k < k''
      · simp [insert, hk, hlt, h.symm]
      · simp [insert, hk, hlt, ih]

/-- Look-up after an insertion. -/
theorem find?_insert (k k' : κ) (a : α) (d : Dict κ α) :
    find? k' (insert k a d) = if k' = k then some a else find? k' d := by
  by_cases h : k' = k
  · subst h; simp
  · simp [h, find?_insert_of_ne h]

theorem find?_overlay (k : κ) (base upper : Dict κ α) :
    find? k (overlay base upper) = (find? k upper.reverse).or (find? k base) := by
  induction upper generalizing base with
  | nil => simp [overlay]
  | cons entry upper ih =>
    obtain ⟨k', a'⟩ := entry
    have step : overlay base ((k', a') :: upper) = overlay (insert k' a' base) upper := rfl
    rw [step, ih, List.reverse_cons, find?_append, find?_insert]
    cases find? k upper.reverse with
    | some b => simp
    | none =>
      by_cases hk : k' = k
      · subst hk; simp
      · have hk' : ¬ k = k' := fun h => hk h.symm
        simp [hk, hk']

/-- Of the entries with one key the last one is found. -/
theorem find?_ofList (k : κ) (entries : List (κ × α)) :
    find? k (ofList entries) = find? k entries.reverse := by
  have h := find?_overlay k ([] : Dict κ α) entries
  simpa [overlay, ofList] using h

end Find

/-! ## Order -/

/-- Keys strictly ascend, so that no key occurs twice. -/
def Sorted [LT κ] (d : Dict κ α) : Prop :=
  d.Pairwise fun a b => a.1 < b.1

section Order

variable [DecidableEq κ] [LT κ] [DecidableLT κ]

theorem mem_insert {k : κ} {a : α} {d : Dict κ α} {entry : κ × α} (h : entry ∈ insert k a d) :
    entry = (k, a) ∨ entry ∈ d := by
  induction d with
  | nil => simp [insert] at h; exact Or.inl h
  | cons head d ih =>
    obtain ⟨k', a'⟩ := head
    rw [insert] at h
    split at h
    · rcases List.mem_cons.1 h with h | h
      · exact Or.inl h
      · exact Or.inr (List.mem_cons_of_mem _ h)
    · split at h
      · rcases List.mem_cons.1 h with h | h
        · exact Or.inl h
        · exact Or.inr h
      · rcases List.mem_cons.1 h with h | h
        · exact Or.inr (h ▸ List.mem_cons_self)
        · exact (ih h).imp id (List.mem_cons_of_mem _)

theorem Sorted.insert [LE κ] [Std.IsLinearOrder κ] [Std.LawfulOrderLT κ] {d : Dict κ α}
    (h : Sorted d) (k : κ) (a : α) : Sorted (Dict.insert k a d) := by
  induction d with
  | nil => simp [Dict.insert, Sorted]
  | cons head d ih =>
    obtain ⟨k', a'⟩ := head
    have tail : Sorted d := (List.pairwise_cons.1 h).2
    have above : ∀ entry ∈ d, k' < entry.1 := (List.pairwise_cons.1 h).1
    rw [Dict.insert]
    split
    · next hk => subst hk; exact List.pairwise_cons.2 ⟨above, tail⟩
    · next hk =>
      split
      · next hlt =>
        refine List.pairwise_cons.2 ⟨fun entry he => ?_, h⟩
        rcases List.mem_cons.1 he with rfl | he
        · exact hlt
        · exact Std.lt_trans hlt (above entry he)
      · next hlt =>
        refine List.pairwise_cons.2 ⟨fun entry he => ?_, ih tail⟩
        rcases mem_insert he with rfl | he
        · exact Std.lt_of_le_of_ne (Std.not_lt.1 hlt) hk
        · exact above entry he

/-- An entry whose key is above all others goes to the end. -/
theorem insert_last [LE κ] [Std.IsLinearOrder κ] [Std.LawfulOrderLT κ] {d : Dict κ α} {k : κ}
    (h : ∀ entry ∈ d, entry.1 < k) (a : α) : insert k a d = d ++ [(k, a)] := by
  induction d with
  | nil => rfl
  | cons head d ih =>
    obtain ⟨k', a'⟩ := head
    have hless : k' < k := h _ List.mem_cons_self
    have hne : k' ≠ k := by
      rintro rfl
      exact Std.lt_irrefl hless
    rw [insert, if_neg hne, if_neg (Std.not_lt.2 (Std.le_of_lt hless)),
      ih fun entry hmem => h entry (List.mem_cons_of_mem _ hmem)]
    rfl

/-- Entries that follow those of `base` in order are appended. -/
theorem overlay_of_sorted [LE κ] [Std.IsLinearOrder κ] [Std.LawfulOrderLT κ] {base upper : Dict κ α}
    (h : Sorted (base ++ upper)) : overlay base upper = base ++ upper := by
  induction upper generalizing base with
  | nil => simp [overlay]
  | cons entry upper ih =>
    obtain ⟨k, a⟩ := entry
    have below : ∀ entry ∈ base, entry.1 < k := fun entry hmem =>
      (List.pairwise_append.1 h).2.2 entry hmem (k, a) List.mem_cons_self
    have step : overlay base ((k, a) :: upper) = overlay (insert k a base) upper := rfl
    rw [List.append_cons] at h ⊢
    rw [step, insert_last below, ih h]

end Order

end Dict

end Bindery
