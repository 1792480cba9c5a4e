import Bindery.Proofs.Files.Inside

/-!
# `Proofs.Files.Removing` — what is taken away

Taking things away leaves a tree in which there is less (`Thinned`). A path leads to the same directory in it, or
nowhere any more, for the path may go through what has been taken away.

A directory right inside another one is taken away with everything below it (`removeTree_cases`): its content first,
and then the directory itself, if its path still leads there.

Two trees lead a walk to a directory on the same way as long as they agree on every directory and link that both of
them have; then any tree that has these leads it there, too (`Walked.meet`).

**Contents.**
* `Thinned`, a preorder on trees;
* `Leads.place_inside` — what a path of one more name takes away;
* `clear_eq_self`, `removeTree_cases`;
* `Walked.meet`, `Leads.meet`.
-/

namespace Bindery.Files

variable {files files' : Files} {dir : Path} {base location place : Location} {name : Raw} {spot : Spot}
  {gone gone' : Location → Prop}

theorem prefix_iff : place <+: location ↔ location = place ∨ Below place location := by
  constructor
  · rintro ⟨rest, rfl⟩
    cases rest with
    | nil => exact .inl (List.append_nil _)
    | cons name rest => exact .inr ⟨name, rest, rfl⟩
  · rintro (rfl | ⟨name, rest, rfl⟩)
    · exact List.prefix_rfl
    · exact List.prefix_append _ _

theorem below_of_prefix_concat (h : place ++ [name] <+: location) : Below place location := by
  obtain ⟨rest, rfl⟩ := h
  exact ⟨name, rest, by simp⟩

/-- What has been taken away is in some places, and nothing else has changed. -/
structure Thinned (gone : Location → Prop) (files files' : Files) : Prop where
  proper : files'.Proper
  home : files'.home = files.home
  found : ∀ location, files'.find? location = files.find? location ∨
    gone location ∧ files'.find? location = none

namespace Thinned

theorem refl (hproper : files.Proper) : Thinned gone files files :=
  ⟨hproper, rfl, fun _ => .inl rfl⟩

theorem trans {files'' : Files} (h : Thinned gone files files') (h' : Thinned gone files' files'') :
    Thinned gone files files'' where
  proper := h'.proper
  home := h'.home.trans h.home
  found := by
    intro location
    rcases h'.found location with hsame | hgone
    · rw [hsame]
      exact h.found location
    · exact .inr hgone

theorem mono (h : Thinned gone files files') (hgone : ∀ location, gone location → gone' location) :
    Thinned gone' files files' :=
  ⟨h.proper, h.home, fun location => (h.found location).imp id fun ⟨hplace, hnone⟩ => ⟨hgone _ hplace, hnone⟩⟩

theorem kept (h : Thinned gone files files') (hout : ¬gone location) :
    files'.find? location = files.find? location :=
  (h.found location).resolve_right fun ⟨hplace, _⟩ => hout hplace

/-- What is left was there before. -/
theorem left (h : Thinned gone files files') {entry : Entry} (hfind : files'.find? location = some entry) :
    files.find? location = some entry := by
  rcases h.found location with hsame | ⟨-, hnone⟩
  · rw [← hsame, hfind]
  · rw [hnone] at hfind
    cases hfind

theorem still_none (h : Thinned gone files files') (hnone : files.find? location = none) :
    files'.find? location = none := by
  rcases h.found location with hsame | ⟨-, hnone'⟩
  · rw [hsame, hnone]
  · exact hnone'

/-- **A path that still leads anywhere leads where it did.** -/
theorem leads (h : Thinned gone files files') (hleads : files'.Leads dir location) : files.Leads dir location :=
  hleads.mono h.home.symm fun _ _ hfind _ => h.left hfind

end Thinned

theorem Thinned.clear (hproper : files.Proper) (location : Location) :
    Thinned (Below location) files (files.clear location) where
  proper := hproper.clear location
  home := rfl
  found := by
    intro place
    by_cases hbelow : Below location place
    · exact .inr ⟨hbelow, find?_clear_of_below hbelow _⟩
    · exact .inl (find?_clear_of_not_below hbelow _)

theorem Thinned.remove (hproper : files.Proper) (hempty : ∀ name, files.find? (location ++ [name]) = none) :
    Thinned (location <+: ·) files (files.remove location) where
  proper := hproper.remove_empty hempty
  home := rfl
  found := by
    intro place
    by_cases hsame : place = location
    · subst hsame
      by_cases hfull : place = []
      · subst hfull
        exact .inl rfl
      · exact .inr ⟨List.prefix_rfl, find?_remove_self hfull _⟩
    · exact .inl (find?_remove_of_ne hsame _)

/-- There is nothing to be cleared. -/
theorem clear_eq_self (hproper : files.Proper)
    (hempty : ∀ location, Below place location → files.find? location = none) : files.clear place = files := by
  refine (hproper.clear place).ext hproper rfl fun location => ?_
  by_cases hbelow : Below place location
  · rw [find?_clear_of_below hbelow, hempty location hbelow]
  · exact find?_clear_of_not_below hbelow _

theorem children_eq_nil (hproper : files.Proper) (hempty : ∀ name, files.find? (location ++ [name]) = none) :
    files.children location = [] := by
  refine List.eq_nil_iff_forall_not_mem.mpr fun ⟨name, entry⟩ hmem => ?_
  have hfind := hproper.mem_children.mp hmem
  rw [hempty] at hfind
  cases hfind

theorem below_concat : Below location (location ++ [name]) :=
  ⟨name, [], rfl⟩

/-! ## One name in a directory -/

/-- What the path of a directory with one more name stands for is right inside the directory. -/
theorem place_inside (hname : Path.IsName name) (hsame : ∀ location, files.Leads dir location → location = base)
    (h : files.place (dir.join ⟨name⟩) = .ok spot) :
    files.Leads dir base ∧ spot = files.spotAt (base ++ [name]) := by
  rw [place_join hname] at h
  obtain ⟨location, hleads⟩ := leads_of_spot_below (hname.isBelow dir) h
  cases hsame _ hleads
  refine ⟨hleads, ?_⟩
  rcases hleads.spot_or_long hname with hspot | hspot | hspot
  · exact Except.ok.inj (h.symm.trans hspot)
  · cases hspot.symm.trans h
  · cases hspot.symm.trans h

/-- An empty directory inside another one is taken away, unless its path leads nowhere. -/
theorem removeDir_cases (hproper : files.Proper) (hname : Path.IsName name)
    (hsame : ∀ location, files.Leads dir location → location = base)
    (hdir : files.find? (base ++ [name]) = some .dir)
    (hempty : ∀ next, files.find? (base ++ [name] ++ [next]) = none) :
    files.Leads dir base ∧ files.removeDir (dir.join ⟨name⟩) = .ok (files.remove (base ++ [name])) ∨
      ∃ fault, files.removeDir (dir.join ⟨name⟩) = .error fault ∧ (fault = .notFound → ¬files.Leads dir base) := by
  unfold removeDir
  cases hplace : files.place (dir.join ⟨name⟩) with
  | ok spot =>
    obtain ⟨hleads, rfl⟩ := place_inside hname hsame hplace
    refine .inl ⟨hleads, ?_⟩
    rw [spotAt_eq hdir]
    show (if (files.children (base ++ [name])).isEmpty then _ else _) = _
    rw [children_eq_nil hproper hempty]
    rfl
  | error fault =>
    refine .inr ⟨fault, rfl, ?_⟩
    rintro rfl hleads
    rw [place_join hname] at hplace
    rcases hleads.spot_or_long hname with hspot | hspot | hspot
    · cases hspot.symm.trans hplace
    · cases hspot.symm.trans hplace
    · cases hspot.symm.trans hplace

/-- **A directory inside another one is taken away with everything below it.** Where that has ended well, the path
leads nowhere after what is below has gone, and the directory is left, or it is gone as well. -/
theorem removeTree_cases {result : Except Fault Unit} (hproper : files.Proper) (hname : Path.IsName name)
    (hsame : ∀ location, files.Leads dir location → location = base)
    (hdir : files.find? (base ++ [name]) = some .dir)
    (h : files.removeTree (dir.join ⟨name⟩) = (result, files')) :
    files' = files ∧ result ≠ .ok () ∨
      files.Leads dir base ∧
        (files' = (files.clear (base ++ [name])).remove (base ++ [name]) ∧
            (files.clear (base ++ [name])).Leads dir base ∨
          files' = files.clear (base ++ [name]) ∧ (result = .ok () → ¬files'.Leads dir base)) := by
  unfold removeTree at h
  cases hplace : files.place (dir.join ⟨name⟩) with
  | error fault =>
    rw [hplace] at h
    cases h
    exact .inl ⟨rfl, nofun⟩
  | ok spot =>
    obtain ⟨hleads, rfl⟩ := place_inside hname hsame hplace
    rw [hplace, spotAt_eq hdir] at h
    refine .inr ⟨hleads, ?_⟩
    have hthinned := Thinned.clear hproper (base ++ [name])
    have hself : ¬Below (base ++ [name]) (base ++ [name]) := by
      rintro ⟨next, rest, heq⟩
      simp at heq
    -- the content has gone by now, and the directory is still there
    rcases removeDir_cases hthinned.proper hname (fun location h => hsame location (hthinned.leads h))
      (by rw [find?_clear_of_not_below hself, hdir])
      (fun next => find?_clear_of_below below_concat _) with ⟨hstill, hremoved⟩ | ⟨fault, hfails, hlost⟩
    · dsimp only at h
      rw [hremoved] at h
      cases h
      exact .inl ⟨rfl, hstill⟩
    · right
      dsimp only at h
      rw [hfails] at h
      split at h
      · next heq => cases heq
      · next heq =>
        cases heq
        cases h
        exact ⟨rfl, fun _ => hlost rfl⟩
      · cases h
        exact ⟨rfl, nofun⟩

/-! ## Two trees on one way -/

/-- **What leads to a directory in two trees leads there in what they have in common,** if a directory or link of
one of them is nowhere in the place of another one of the other. -/
theorem Walked.meet {left right both : Files} {links : Nat} {here location location' : Location}
    {names : List Raw}
    (hmeet : ∀ location entry entry', left.find? location = some entry → right.find? location = some entry' →
      (∀ content executable, entry ≠ .file content executable) →
      (∀ content executable, entry' ≠ .file content executable) →
      entry' = entry ∧ both.find? location = some entry)
    (h : Walked left true links here names (.present location .dir))
    (h' : Walked right true links here names (.present location' .dir)) :
    Walked both true links here names (.present location .dir) := by
  generalize hspot : Spot.present location .dir = spot at h ⊢
  induction h with
  | done => exact .done
  | dot _ ih =>
    have hwalk := h'.walk_eq
    rw [walk_cons, if_pos rfl] at hwalk
    exact .dot (ih (walk_eq_ok.mp hwalk) hspot)
  | up _ ih =>
    have hwalk := h'.walk_eq
    rw [walk_cons, if_neg (by decide), if_pos rfl] at hwalk
    exact .up (ih (walk_eq_ok.mp hwalk) hspot)
  | dir hstep hfind _ ih =>
    cases h' with
    | dot => exact absurd rfl hstep.1
    | up => exact absurd rfl hstep.2.1
    | dir _ hfind' h' => exact .dir hstep (hmeet _ _ _ hfind hfind' nofun nofun).2 (ih h' hspot)
    | jump _ hfind' => cases (hmeet _ _ _ hfind hfind' nofun nofun).1
  | absent => cases hspot
  | file => cases hspot
  | stay => cases hspot
  | jump hstep hfind hgo _ ih =>
    cases h' with
    | dot => exact absurd rfl hstep.1
    | up => exact absurd rfl hstep.2.1
    | dir _ hfind' => cases (hmeet _ _ _ hfind hfind' nofun nofun).1
    | jump _ hfind' _ h' =>
      obtain ⟨heq, hboth⟩ := hmeet _ _ _ hfind hfind' nofun nofun
      cases heq
      exact .jump hstep hboth hgo (ih h' hspot)

theorem Leads.meet {left right both : Files} {location' : Location} (hhome : both.home = left.home)
    (hhome' : right.home = left.home)
    (hmeet : ∀ location entry entry', left.find? location = some entry → right.find? location = some entry' →
      (∀ content executable, entry ≠ .file content executable) →
      (∀ content executable, entry' ≠ .file content executable) →
      entry' = entry ∧ both.find? location = some entry)
    (h : left.Leads dir location) (h' : right.Leads dir location') : both.Leads dir location := by
  unfold Leads start at h h' ⊢
  rw [hhome'] at h'
  rw [hhome]
  exact ((walk_eq_ok.mp h).meet hmeet (walk_eq_ok.mp h')).walk_eq

end Bindery.Files
