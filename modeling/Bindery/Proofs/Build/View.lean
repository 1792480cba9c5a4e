import Bindery.Proofs.Build.Copying

/-!
# `Proofs.Build.View` — what is in the directory of a build

The directory of a build is looked at as a function from chains of names to entries (`Files.view`). What a
step of a build does to it is one of three changes: an entry is put in a place, a tree is laid over a
place, or some places are cleared.

**Contents.**
* `Files.view`, `View.put`, `View.lay`, `View.drop`;
* `view_put`, `view_paved`, `view_copied`, `view_pruned`, `view_entry` — the steps as such changes.
-/

namespace Bindery

/-- What is below a location, by the names that lead there. -/
abbrev View := List Raw → Option Files.Entry

/-- What is below a location of a tree. -/
def Files.view (files : Files) (location : Location) : View :=
  fun names => files.find? (location ++ names)

namespace View

/-- An empty directory. -/
def hollow : View
  | [] => some .dir
  | _ => none

/-- An entry is put in a place. -/
def put (view : View) (place : List Raw) (entry : Files.Entry) : View :=
  fun names => if names = place then some entry else view names

/-- A tree is laid over what is at a place. -/
def lay (view : View) (place : List Raw) (tree : View) : View :=
  fun names => match Location.under? place names with
    | some rest => (tree rest).or (view names)
    | none => view names

/-- Places are cleared. -/
def drop (view : View) (places : List (List Raw)) : View :=
  fun names => if names ∈ places then none else view names

end View

/-! ## The steps of a build as changes -/

namespace Build

open Files (Entry Content Ground Paved)

variable {files files' : Files} {root : Path} {base : Location} {area more names : List Raw}

theorem view_apply (files : Files) (base : Location) (area names : List Raw) :
    files.view (base ++ area) names = files.find? (base ++ (area ++ names)) := by
  unfold Files.view
  rw [List.append_assoc]

theorem view_put {entry : Entry} (hfull : more ≠ []) :
    (files.put (base ++ (area ++ more)) entry).view (base ++ area) =
      (files.view (base ++ area)).put more entry := by
  funext names
  rw [view_apply, View.put]
  by_cases hsame : names = more
  · rw [if_pos hsame, hsame, Files.find?_put_self (by simp [hfull])]
  · have hother : base ++ (area ++ names) ≠ base ++ (area ++ more) := fun heq =>
      hsame (List.append_cancel_left (List.append_cancel_left heq))
    rw [if_neg hsame, Files.find?_put_of_ne hother, view_apply]

/-- What is on the way to a place in a directory is there. -/
theorem dir_of_around (hproper : files.Proper)
    (haround : files.find? (base ++ (area ++ more.dropLast)) = some .dir) (hway : names <+: more)
    (hother : names ≠ more) : files.find? (base ++ (area ++ names)) = some .dir := by
  have hbefore : names <+: more.dropLast := by
    by_cases hend : more = []
    · rwa [hend] at hway ⊢
    · rw [← List.dropLast_concat_getLast hend] at hway
      rcases List.prefix_concat_iff.mp hway with heq | hbefore
      · rw [List.dropLast_concat_getLast hend] at heq
        exact absurd heq hother
      · exact hbefore
  exact hproper.dir_of_prefix ((List.prefix_append_right_inj base).mpr
    ((List.prefix_append_right_inj area).mpr hbefore)) haround

/-- A directory that has been made right in a directory. -/
theorem view_paved (hproper : files.Proper) (hpaved : Paved files files' root base (area ++ more))
    (haround : files.find? (base ++ (area ++ more.dropLast)) = some .dir)
    (hmade : files'.find? (base ++ (area ++ more)) = some .dir) :
    files'.view (base ++ area) = (files.view (base ++ area)).put more .dir := by
  funext names
  rw [view_apply, View.put, view_apply]
  by_cases hsame : names = more
  · rw [if_pos hsame, hsame, hmade]
  · rw [if_neg hsame]
    rcases hpaved.found (base ++ (area ++ names)) with hkept | ⟨hnone, -, pre, -, hpre, heq⟩
    · exact hkept
    · rw [← List.append_cancel_left heq] at hpre
      have hdir := dir_of_around hproper haround ((List.prefix_append_right_inj _).mp hpre) hsame
      rw [hdir] at hnone
      cases hnone

/-- Directories that were there already have not been made. -/
theorem view_paved_there (hproper : files.Proper) (hpaved : Paved files files' root base (area ++ more))
    (hthere : files.find? (base ++ (area ++ more)) = some .dir) :
    files'.view (base ++ area) = files.view (base ++ area) := by
  funext names
  rw [view_apply, view_apply]
  rcases hpaved.found (base ++ (area ++ names)) with hkept | ⟨hnone, -, pre, -, hpre, heq⟩
  · exact hkept
  · rw [← List.append_cancel_left heq] at hpre
    have hdir := hproper.dir_of_prefix ((List.prefix_append_right_inj base).mpr hpre) hthere
    rw [hdir] at hnone
    cases hnone

/-- A tree that has been copied right into a directory. -/
theorem view_copied {source : Location} (hproper : files.Proper)
    (haround : files.find? (base ++ (area ++ more.dropLast)) = some .dir)
    (hcopied : Copied files files' source (base ++ (area ++ more))) :
    files'.view (base ++ area) = (files.view (base ++ area)).lay more (files.view source) := by
  funext names
  rw [view_apply, View.lay, view_apply]
  -- a location is below the place of the copy, or it is as it was before
  cases hunder : Location.under? more names with
  | some rest =>
    have hsplit : base ++ (area ++ names) = base ++ (area ++ more) ++ rest := by
      rw [Location.under?_eq_some_iff.mp hunder]
      simp
    rw [hsplit]
    exact hcopied.copied rest
  | none =>
    have hout : ¬base ++ (area ++ more) <+: base ++ (area ++ names) := by
      rintro hway
      obtain ⟨rest, rfl⟩ :=
        (List.prefix_append_right_inj area).mp ((List.prefix_append_right_inj base).mp hway)
      rw [Location.under?_eq_some_iff.mpr rfl] at hunder
      cases hunder
    rcases hcopied.kept _ hout with hkept | ⟨hnone, -, hway⟩
    · exact hkept
    -- a directory made on the way would be around the copy, where there was one already
    · have hshort := (List.prefix_append_right_inj area).mp ((List.prefix_append_right_inj base).mp hway)
      have hother : names ≠ more := fun heq => hout (heq ▸ List.prefix_rfl)
      rw [dir_of_around hproper haround hshort hother] at hnone
      cases hnone

/-- Files that have been taken away from a directory. -/
theorem view_pruned {sheets : List String} (hpruned : Pruned files files' (base ++ (area ++ more)) sheets) :
    files'.view (base ++ area) =
      (files.view (base ++ area)).drop (sheets.map fun sheet => more ++ [Raw.ofText sheet]) := by
  funext place
  rw [view_apply, View.drop, view_apply]
  by_cases hmem : place ∈ sheets.map fun sheet => more ++ [Raw.ofText sheet]
  · rw [if_pos hmem]
    obtain ⟨name, hname, rfl⟩ := List.mem_map.mp hmem
    have hgone := hpruned.gone name hname
    rwa [List.append_assoc, List.append_assoc] at hgone
  · rw [if_neg hmem]
    refine hpruned.kept _ fun name hname heq => hmem (List.mem_map.mpr ⟨name, hname, ?_⟩)
    rw [List.append_assoc, List.append_assoc] at heq
    exact (List.append_cancel_left (List.append_cancel_left heq)).symm

/-- An entry that has come into the directory, or another one in its place. -/
theorem view_entry {name : Raw} {entry : Entry}
    (harchive : files'.find? (base ++ (area ++ [name])) = some entry)
    (hkept : ∀ location, location ≠ base ++ (area ++ [name]) → files'.find? location = files.find? location) :
    files'.view (base ++ area) = (files.view (base ++ area)).put [name] entry := by
  funext names
  rw [view_apply, View.put, view_apply]
  by_cases hsame : names = [name]
  · rw [if_pos hsame, hsame, harchive]
  · rw [if_neg hsame]
    exact hkept _ fun heq => hsame (List.append_cancel_left (List.append_cancel_left heq))

end Build

end Bindery
