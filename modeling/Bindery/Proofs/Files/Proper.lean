import Bindery.Files.Tree
import Bindery.Proofs.Path

/-!
# `Proofs.Files.Proper` — what every file tree is like

The table of a tree has its locations in order, each of them a chain of names, and everything in it is
in a directory (`Files.Proper`). Such a tree is determined by what look-up finds in it, and every
change that puts something into a directory, takes something away that is not a directory, or empties a
directory keeps it so.

**Contents.**
* `Dict.Sorted.mem_iff`, `Dict.Sorted.eq_of_find?` — a table in order is determined by look-up;
* `Files.Proper` with `Proper.ext`, `Proper.dir_of_append`, `Proper.mem_children` and `Proper.mem_subtree`;
* `Proper.subtree_sorted`, `Proper.children_sorted` — the order of what is below a location;
* `Proper.put`, `Proper.remove`, `Proper.clear` — what keeps a tree proper.
-/

namespace Bindery

namespace Dict

variable {κ α : Type} [DecidableEq κ] [LT κ] [LE κ] [Std.IsLinearOrder κ] [Std.LawfulOrderLT κ]

omit [Std.IsLinearOrder κ] in
/-- In a table in order, an entry is what look-up finds. -/
theorem Sorted.mem_iff {d : Dict κ α} (h : Sorted d) {k : κ} {a : α} :
    (k, a) ∈ d ↔ find? k d = some a := by
  refine ⟨fun hmem => ?_, mem_of_find?⟩
  induction d with
  | nil => cases hmem
  | cons entry d ih =>
    obtain ⟨k', a'⟩ := entry
    have habove := (List.pairwise_cons.mp h).1
    rw [find?_cons]
    rcases List.mem_cons.mp hmem with heq | htail
    · cases heq
      rw [if_pos rfl]
    · have hlt : k' < k := habove _ htail
      rw [if_neg fun heq => Std.lt_irrefl (heq ▸ hlt), ih (List.pairwise_cons.mp h).2 htail]

/-- Tables in order in which look-up finds the same are the same. -/
theorem Sorted.eq_of_find? {d d' : Dict κ α} (h : Sorted d) (h' : Sorted d')
    (hfind : ∀ k, find? k d = find? k d') : d = d' := by
  have hnodup {d : Dict κ α} (h : Sorted d) : d.Nodup := by
    refine List.Pairwise.imp (fun {a b} hlt heq => ?_) h
    rw [heq] at hlt
    exact Std.lt_irrefl hlt
  refine List.Perm.eq_of_pairwise (fun a b _ _ hlt hlt' => ?_) h h' ?_
  · exact absurd (Std.lt_trans hlt hlt') Std.lt_irrefl
  · refine (List.perm_ext_iff_of_nodup (hnodup h) (hnodup h')).mpr fun ⟨k, a⟩ => ?_
    rw [h.mem_iff, h'.mem_iff, hfind]

end Dict

theorem append_lt_append_iff {α : Type} [LT α] [Std.Irrefl fun a b : α => a < b] {front left right : List α} :
    front ++ left < front ++ right ↔ left < right := by
  induction front with
  | nil => rfl
  | cons a front ih =>
    rw [List.cons_append, List.cons_append, List.cons_lt_cons_iff, ih]
    exact ⟨fun h => h.resolve_left (Std.Irrefl.irrefl a) |>.2, fun h => .inr ⟨rfl, h⟩⟩

/-- What leads from a location to others is in their order. -/
theorem Location.lt_of_under? {base place place' names names' : Location} (hlt : place < place')
    (h : under? base place = some names) (h' : under? base place' = some names') : names < names' := by
  rw [under?_eq_some_iff.mp h, under?_eq_some_iff.mp h'] at hlt
  exact append_lt_append_iff.mp hlt

namespace Files

/-- A table in the order of its locations, which are chains of names, with everything in a directory. -/
structure Proper (files : Files) : Prop where
  sorted : Dict.Sorted files.entries
  named : ∀ entry ∈ files.entries, entry.1 ≠ [] ∧ ∀ name ∈ entry.1, Path.IsName name
  closed : ∀ location name entry, files.find? (location ++ [name]) = some entry →
    files.find? location = some .dir

namespace Proper

variable {files files' : Files} {location : Location} {name : Raw} {entry : Entry}

theorem mem_entries (h : files.Proper) :
    (location, entry) ∈ files.entries ↔ location ≠ [] ∧ files.find? location = some entry := by
  unfold find?
  constructor
  · intro hmem
    have hfull := (h.named _ hmem).1
    rw [if_neg hfull]
    exact ⟨hfull, h.sorted.mem_iff.mp hmem⟩
  · rintro ⟨hfull, hfind⟩
    rw [if_neg hfull] at hfind
    exact h.sorted.mem_iff.mpr hfind

/-- Trees in which look-up finds the same are the same. -/
theorem ext (h : files.Proper) (h' : files'.Proper) (hhome : files.home = files'.home)
    (hfind : ∀ location, files.find? location = files'.find? location) : files = files' := by
  have hentries : files.entries = files'.entries := by
    refine h.sorted.eq_of_find? h'.sorted fun location => ?_
    by_cases hfull : location = []
    · -- the root has no entry of its own in either table
      have hnone {files : Files} (h : files.Proper) : Dict.find? location files.entries = none :=
        Dict.find?_eq_none_iff.mpr fun entry hmem => (h.named _ hmem).1 hfull
      rw [hnone h, hnone h']
    · have hsame := hfind location
      unfold find? at hsame
      rwa [if_neg hfull, if_neg hfull] at hsame
  cases files
  cases files'
  cases hhome
  cases hentries
  rfl

/-- A table can be checked entry by entry. -/
theorem of_entries (hsorted : Dict.Sorted files.entries)
    (hnamed : ∀ entry ∈ files.entries, entry.1 ≠ [] ∧ ∀ name ∈ entry.1, Path.IsName name)
    (hclosed : ∀ entry ∈ files.entries, files.find? entry.1.dropLast = some .dir) : files.Proper where
  sorted := hsorted
  named := hnamed
  closed := by
    intro location name entry hfind
    unfold find? at hfind
    rw [if_neg (by simp)] at hfind
    have hdir := hclosed _ (Dict.mem_of_find? hfind)
    rwa [List.dropLast_concat] at hdir

theorem isName (h : files.Proper) (hfind : files.find? location = some entry) :
    ∀ name ∈ location, Path.IsName name := by
  by_cases hfull : location = []
  · rw [hfull]
    exact fun name hname => absurd hname List.not_mem_nil
  · exact (h.named _ (h.mem_entries.mpr ⟨hfull, hfind⟩)).2

/-- What is on the way to an entry is a directory. -/
theorem dir_of_append (h : files.Proper) {rest : List Raw} (hfull : rest ≠ [])
    (hfind : files.find? (location ++ rest) = some entry) : files.find? location = some .dir := by
  induction rest generalizing location with
  | nil => exact absurd rfl hfull
  | cons name rest ih =>
    cases rest with
    | nil => exact h.closed _ _ _ hfind
    | cons next rest =>
      have hsplit : location ++ name :: next :: rest = (location ++ [name]) ++ (next :: rest) := by simp
      rw [hsplit] at hfind
      exact h.closed _ _ _ (ih (List.cons_ne_nil _ _) hfind)

/-- What leads to a directory is a directory. -/
theorem dir_of_prefix {place : Location} (h : files.Proper) (hway : location <+: place)
    (hfind : files.find? place = some .dir) : files.find? location = some .dir := by
  obtain ⟨rest, rfl⟩ := hway
  by_cases hend : rest = []
  · rwa [hend, List.append_nil] at hfind
  · exact h.dir_of_append hend hfind

/-- What is below an entry is below the one that the first name leads to. -/
theorem exists_child {rest : List Raw} (h : files.Proper)
    (hfind : files.find? (location ++ name :: rest) = some entry) :
    ∃ entry, files.find? (location ++ [name]) = some entry := by
  by_cases hend : rest = []
  · exact ⟨entry, hend ▸ hfind⟩
  · have hsplit : location ++ name :: rest = location ++ [name] ++ rest := by simp
    rw [hsplit] at hfind
    exact ⟨.dir, h.dir_of_append hend hfind⟩

/-- Where there is nothing, there is nothing below. -/
theorem none_of_below {place : Location} (h : files.Proper) (hbelow : Below location place)
    (hnone : files.find? location = none) : files.find? place = none := by
  obtain ⟨name, rest, rfl⟩ := hbelow
  cases hfind : files.find? (location ++ name :: rest) with
  | none => rfl
  | some entry =>
    rw [h.dir_of_append (List.cons_ne_nil _ _) hfind] at hnone
    cases hnone

/-- The children of a directory are the entries that one more name leads to. -/
theorem mem_children (h : files.Proper) :
    (name, entry) ∈ files.children location ↔ files.find? (location ++ [name]) = some entry := by
  unfold children
  rw [List.mem_filterMap]
  constructor
  · rintro ⟨⟨place, entry'⟩, hmem, hplace⟩
    dsimp only at hplace
    split at hplace
    · next name' hunder =>
      cases hplace
      rw [← Location.under?_eq_some_iff.mp hunder]
      exact (h.mem_entries.mp hmem).2
    · cases hplace
  · intro hfind
    refine ⟨(location ++ [name], entry), h.mem_entries.mpr ⟨by simp, hfind⟩, ?_⟩
    dsimp only
    rw [Location.under?_eq_some_iff.mpr rfl]

/-- What is below a location are the entries that one more name or several lead to. -/
theorem mem_subtree {names : List Raw} (h : files.Proper) :
    (names, entry) ∈ files.subtree location ↔ names ≠ [] ∧ files.find? (location ++ names) = some entry := by
  unfold subtree
  rw [List.mem_filterMap]
  constructor
  · rintro ⟨⟨place, entry'⟩, hmem, hplace⟩
    dsimp only at hplace
    split at hplace
    · next name rest hunder =>
      cases hplace
      rw [← Location.under?_eq_some_iff.mp hunder]
      exact ⟨List.cons_ne_nil _ _, (h.mem_entries.mp hmem).2⟩
    · cases hplace
  · rintro ⟨hfull, hfind⟩
    have hplace : location ++ names ≠ [] := fun hnil => hfull (List.append_eq_nil_iff.mp hnil).2
    refine ⟨(location ++ names, entry), h.mem_entries.mpr ⟨hplace, hfind⟩, ?_⟩
    dsimp only
    rw [Location.under?_eq_some_iff.mpr rfl]
    cases names with
    | nil => exact absurd rfl hfull
    | cons name rest => rfl

/-- What is below a location is listed in the order of the names that lead there. -/
theorem subtree_sorted (h : files.Proper) (base : Location) :
    (files.subtree base).Pairwise fun left right => left.1 < right.1 := by
  refine List.Pairwise.filterMap _ ?_ h.sorted
  rintro ⟨place, entry⟩ ⟨place', entry'⟩ hlt below hbelow below' hbelow'
  dsimp only at hlt hbelow hbelow'
  split at hbelow
  · next hunder =>
    split at hbelow'
    · next hunder' =>
      cases hbelow
      cases hbelow'
      exact Location.lt_of_under? hlt hunder hunder'
    · cases hbelow'
  · cases hbelow

/-- The entries of a directory are listed in the order of their names. -/
theorem children_sorted (h : files.Proper) (base : Location) :
    (files.children base).Pairwise fun left right => left.1 < right.1 := by
  refine List.Pairwise.filterMap _ ?_ h.sorted
  rintro ⟨place, entry⟩ ⟨place', entry'⟩ hlt child hchild child' hchild'
  dsimp only at hlt hchild hchild'
  split at hchild
  · next hunder =>
    split at hchild'
    · next hunder' =>
      cases hchild
      cases hchild'
      rcases List.cons_lt_cons_iff.mp (Location.lt_of_under? hlt hunder hunder') with hlt | ⟨-, hcontra⟩
      · exact hlt
      · exact absurd hcontra (List.not_lt_nil _)
    · cases hchild'
  · cases hchild

/-! ## Changes -/

/-- An entry can be put into a directory, unless it takes the place of another directory. -/
theorem put (h : files.Proper) (hdir : files.find? location = some .dir) (hname : Path.IsName name)
    (hfree : files.find? (location ++ [name]) = some .dir → entry = .dir) :
    (files.put (location ++ [name]) entry).Proper where
  sorted := h.sorted.insert _ _
  named := by
    intro entry' hmem
    rcases Dict.mem_insert hmem with rfl | hmem
    · refine ⟨by simp, fun name' hname' => ?_⟩
      rcases List.mem_append.mp hname' with hbefore | hlast
      · exact h.isName hdir name' hbefore
      · exact List.mem_singleton.mp hlast ▸ hname
    · exact h.named entry' hmem
  closed := by
    intro location' name' entry' hfind
    have hfull : location ++ [name] ≠ [] := by simp
    by_cases hplace : location' ++ [name'] = location ++ [name]
    · have hsame : location' = location := (List.append_inj' hplace rfl).1
      rw [hsame, find?_put_of_ne (by simp), hdir]
    · rw [find?_put_of_ne hplace] at hfind
      have habove := h.closed _ _ _ hfind
      by_cases hself : location' = location ++ [name]
      · rw [hself] at habove ⊢
        rw [find?_put_self hfull, hfree habove]
      · rw [find?_put_of_ne hself, habove]

/-- What has nothing in it can be taken away. -/
theorem remove_empty (h : files.Proper) (hempty : ∀ name, files.find? (location ++ [name]) = none) :
    (files.remove location).Proper where
  sorted := h.sorted.filter _
  named := fun entry hmem => h.named entry ((List.mem_filter.mp hmem).1)
  closed := by
    intro location' name' entry' hfind
    have hne : location' ++ [name'] ≠ location := by
      intro heq
      rw [heq, find?_remove_self (heq ▸ by simp)] at hfind
      cases hfind
    rw [find?_remove_of_ne hne] at hfind
    have hother : location' ≠ location := by
      rintro rfl
      rw [hempty] at hfind
      cases hfind
    rw [find?_remove_of_ne hother, h.closed _ _ _ hfind]

/-- There is nothing in what is not a directory. -/
theorem none_of_not_dir (h : files.Proper) (hfile : files.find? location ≠ some .dir) (name : Raw) :
    files.find? (location ++ [name]) = none :=
  Option.eq_none_iff_forall_ne_some.mpr fun _ hfind => hfile (h.closed _ _ _ hfind)

/-- What is not a directory can be taken away. -/
theorem remove (h : files.Proper) (hfile : files.find? location ≠ some .dir) :
    (files.remove location).Proper :=
  h.remove_empty (h.none_of_not_dir hfile)

/-- A directory can be emptied. -/
theorem clear (h : files.Proper) (location : Location) : (files.clear location).Proper where
  sorted := h.sorted.filter _
  named := fun entry hmem => h.named entry ((List.mem_filter.mp hmem).1)
  closed := by
    intro location' name' entry' hfind
    by_cases hbelow : Below location (location' ++ [name'])
    · rw [find?_clear_of_below hbelow] at hfind
      cases hfind
    · rw [find?_clear_of_not_below hbelow] at hfind
      have habove : ¬Below location location' := by
        rintro ⟨next, rest, rfl⟩
        exact hbelow ⟨next, rest ++ [name'], by simp⟩
      rw [find?_clear_of_not_below habove]
      exact h.closed _ _ _ hfind

end Proper

end Files

end Bindery
