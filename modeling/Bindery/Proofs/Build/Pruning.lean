import Bindery.Proofs.Build.Copying

/-!
# `Proofs.Build.Pruning` — taking names away from any directory

Names are taken away one after another, each by its path. A name is looked up where the path of the directory
leads at its turn. Taking away a file changes nothing about where that is, and neither does taking away a link
that the path does not go by. If the path goes by a link in the directory itself and that link is taken away, the
directory is lost to the names after it: they are not there any more, as far as their paths go.

So names are found in the directory up to some point, and nowhere after it (`TakenFrom`, by induction on the
names). With nothing of the directory on its own path, the point is the end of the names
(`TakenFrom.of_direct`).

**Contents.**
* `prune_cons_eq_ok` — the two ways that a turn can go;
* `TakenFrom` and `taken_of_prune` — what has been taken away, and what was not there;
* `prune_nowhere` — a path that leads to no directory.
-/

namespace Bindery.Build

open Files (Below Entry Roads)

variable {files files' : Files} {dir : Path} {location : Location} {names missing : List String} {name : String}

/-! ## One turn -/

/-- A name is taken away, or there is nothing under it. -/
theorem prune_cons_eq_ok (h : (prune dir (name :: names)).run files = (.ok missing, files')) :
    (∃ files₁, files.unlink (dir.join ⟨name⟩) = .ok files₁ ∧
        (prune dir names).run files₁ = (.ok missing, files')) ∨
      ∃ later, files.unlink (dir.join ⟨name⟩) = .error .notFound ∧ missing = name :: later ∧
        (prune dir names).run files = (.ok later, files') := by
  rw [prune, Work.run_get] at h
  split at h
  · next files₁ hunlink => exact .inl ⟨files₁, hunlink, h⟩
  · next hunlink =>
    obtain ⟨later, files₁, hprune, hreturn⟩ := Work.run_bind_ok h
    obtain ⟨hok, rfl⟩ := Work.run_pure hreturn
    cases hok
    exact .inr ⟨later, hunlink, rfl, hprune⟩
  · obtain ⟨hok, -⟩ := Work.run_fail h
    cases hok

/-- What is left after something has been taken away was there before. -/
theorem find?_of_remove {place : Location} {entry : Entry}
    (hfind : (files.remove location).find? place = some entry) : files.find? place = some entry := by
  by_cases hsame : place = location
  · by_cases hroot : location = []
    · rw [hsame, hroot, Files.find?_nil] at hfind
      rw [hsame, hroot, Files.find?_nil, hfind]
    · rw [hsame, Files.find?_remove_self hroot] at hfind
      cases hfind
  · rwa [Files.find?_remove_of_ne hsame] at hfind

/-- When something has been taken away, a path leads nowhere else than before. -/
theorem leads_of_remove {place place' : Location} (hleads : files.Leads dir location)
    (h : (files.remove place).Leads dir place') : place' = location := by
  have hroads : Roads (files.remove place) files := fun _ _ hfind _ => find?_of_remove hfind
  have hbefore : files.Leads dir place' := h.mono rfl hroads
  exact hbefore.unique hleads

/-! ## All turns -/

/-- Names have been taken away from a directory. Each of them up to some point is gone, and was no directory;
the result are those of them that were not there at their turn, and all that come after that point. If any
do, the path of the directory leads there no longer. -/
def TakenFrom (dir : Path) (files files' : Files) (location : Location) (names missing : List String) : Prop :=
  files'.home = files.home ∧ ∃ found lost, names = found ++ lost ∧ Pruned files files' location found ∧
    (∀ name ∈ found, files.find? (location ++ [(name : Raw)]) ≠ some .dir) ∧
    missing = absentees (present files location) found ++ lost ∧
    (lost = [] ∨ ∀ place, ¬files'.Leads dir place)

namespace TakenFrom

theorem nil : TakenFrom dir files files location [] [] :=
  ⟨rfl, [], [], rfl, ⟨nofun, fun _ _ => rfl⟩, nofun, rfl, .inl rfl⟩

/-- None of the names is found when the directory is lost. -/
theorem nowhere (hnowhere : ∀ place, ¬files.Leads dir place) : TakenFrom dir files files location names names :=
  ⟨rfl, [], names, rfl, ⟨nofun, fun _ _ => rfl⟩, nofun, rfl, .inr hnowhere⟩

/-- A name is taken away before the others. -/
theorem take {entry : Entry} (hfind : files.find? (location ++ [(name : Raw)]) = some entry) (hfile : entry ≠ .dir)
    (h : TakenFrom dir (files.remove (location ++ [(name : Raw)])) files' location names missing) :
    TakenFrom dir files files' location (name :: names) missing := by
  obtain ⟨hhome, found, lost, rfl, hpruned, hfiles, rfl, hlost⟩ := h
  have hgone : (files.remove (location ++ [(name : Raw)])).find? (location ++ [(name : Raw)]) = none :=
    Files.find?_remove_self (by simp) _
  have hkept : ∀ place, place ≠ location ++ [(name : Raw)] →
      (files.remove (location ++ [(name : Raw)])).find? place = files.find? place :=
    fun place hother => Files.find?_remove_of_ne hother _
  have hdir : files.find? (location ++ [(name : Raw)]) ≠ some .dir := by
    rw [hfind]
    exact fun heq => hfile (Option.some.inj heq)
  refine ⟨hhome, name :: found, lost, rfl, .cons hgone hkept hpruned, ?_, ?_, hlost⟩
  · refine List.forall_mem_cons.mpr ⟨hdir, fun other hother hfound => ?_⟩
    have hne : other ≠ name := by
      rintro rfl
      exact hdir hfound
    refine hfiles other hother ?_
    rw [hkept _ (by simp [hne]), hfound]
  · rw [absentees_there hfind]

/-- A name is not there before the others are taken away. -/
theorem skip (hfind : files.find? (location ++ [(name : Raw)]) = none)
    (h : TakenFrom dir files files' location names missing) :
    TakenFrom dir files files' location (name :: names) (name :: missing) := by
  obtain ⟨hhome, found, lost, rfl, hpruned, hfiles, rfl, hlost⟩ := h
  refine ⟨hhome, name :: found, lost, rfl, .cons hfind (fun _ _ => rfl) hpruned, ?_, ?_, hlost⟩
  · exact List.forall_mem_cons.mpr ⟨by rw [hfind]; exact nofun, hfiles⟩
  · rw [absentees_none hfind]
    rfl

end TakenFrom

/-- A path that leads to no directory is of no use to any of the names. -/
theorem prune_nowhere (hnames : ∀ name ∈ names, Path.IsName name)
    (hnowhere : ∀ place, ¬files.Leads dir place) (h : (prune dir names).run files = (.ok missing, files')) :
    missing = names ∧ files' = files := by
  induction names generalizing missing with
  | nil =>
    obtain ⟨hok, rfl⟩ := Work.run_pure h
    cases hok
    exact ⟨rfl, rfl⟩
  | cons name names ih =>
    obtain ⟨hname, hnames⟩ := List.forall_mem_cons.mp hnames
    rcases prune_cons_eq_ok h with ⟨files₁, hunlink, -⟩ | ⟨later, -, rfl, hrest⟩
    · obtain ⟨place, hleads⟩ := Files.leads_of_unlink hname hunlink
      exact absurd hleads (hnowhere place)
    · obtain ⟨rfl, hsame⟩ := ih hnames hrest
      exact ⟨rfl, hsame⟩

/-- **What is taken away from a directory, and what was not there.** -/
theorem taken_of_prune (hnames : ∀ name ∈ names, Path.IsName name) (hleads : files.Leads dir location)
    (h : (prune dir names).run files = (.ok missing, files')) :
    TakenFrom dir files files' location names missing := by
  induction names generalizing files missing with
  | nil =>
    obtain ⟨hok, rfl⟩ := Work.run_pure h
    cases hok
    exact .nil
  | cons name names ih =>
    obtain ⟨hname, hnames⟩ := List.forall_mem_cons.mp hnames
    rcases prune_cons_eq_ok h with ⟨files₁, hunlink, hrest⟩ | ⟨later, hunlink, rfl, hrest⟩
    · rcases hleads.unlink_cases hname with ⟨entry, hfind, hfile, hremove⟩ | ⟨-, hnone⟩ | ⟨fault, hfault, -⟩
      · cases hremove.symm.trans hunlink
        refine .take hfind hfile ?_
        -- the path leads where it did, or nowhere
        by_cases hstill : ∃ place, (files.remove (location ++ [(name : Raw)])).Leads dir place
        · obtain ⟨place, hstill⟩ := hstill
          obtain rfl := leads_of_remove hleads hstill
          exact ih hnames hstill hrest
        · have hnowhere : ∀ place, ¬(files.remove (location ++ [(name : Raw)])).Leads dir place :=
            fun place hplace => hstill ⟨place, hplace⟩
          obtain ⟨rfl, rfl⟩ := prune_nowhere hnames hnowhere hrest
          exact .nowhere hnowhere
      · cases hnone.symm.trans hunlink
      · cases hfault.symm.trans hunlink
    · rcases hleads.unlink_cases hname with ⟨entry, -, -, hremove⟩ | ⟨hnone, -⟩ | ⟨fault, hfault, hother⟩
      · cases hremove.symm.trans hunlink
      · exact .skip hnone (ih hnames hleads hrest)
      · cases hfault.symm.trans hunlink
        exact absurd rfl hother

/-- A directory whose path does not go by anything in it is not lost. -/
theorem TakenFrom.of_direct (h : TakenFrom dir files files' location names missing)
    (hdirect : (files.clear location).Leads dir location) :
    Pruned files files' location names ∧ (∀ name ∈ names, files.find? (location ++ [(name : Raw)]) ≠ some .dir) ∧
      missing = absentees (present files location) names := by
  obtain ⟨hhome, found, lost, rfl, hpruned, hfiles, rfl, hlost⟩ := h
  have hleads : files'.Leads dir location := by
    refine hdirect.mono hhome fun place entry hfind _ => ?_
    -- what is not in the directory is where it was
    by_cases hbelow : Below location place
    · rw [Files.find?_clear_of_below hbelow] at hfind
      cases hfind
    · rw [Files.find?_clear_of_not_below hbelow] at hfind
      rw [hpruned.kept place, hfind]
      rintro name - rfl
      exact hbelow ⟨name, [], rfl⟩
  rcases hlost with rfl | hlost
  · rw [List.append_nil, List.append_nil]
    exact ⟨hpruned, hfiles, rfl⟩
  · exact absurd hleads (hlost location)

end Bindery.Build
