import Bindery.Proofs.Files.Walk

/-!
# `Proofs.Files.Ground` — a directory without links

A project is a directory that a path leads to, with no link at or below it (`Ground`). What the paths
below it lead to is then what look-up finds at the location that their names spell
(`Ground.spot_eq`, `Ground.place_eq`), and the other way round, as long as neither the path nor a name in
it is too long (`Ground.walkFor_or_long`).

A tree that has changed without losing a directory or gaining a link is still ground for the same path
(`Ground.change`).

**Contents.**
* `Files.Leads` — the directory that a path leads to, as a place for names after it;
* `Files.Ground` with `Ground.spot_eq`, `Ground.place_eq` and `Ground.walkFor_or_long`;
* `Ground.change`, `Ground.put`, `Ground.remove` — changes that keep it.
-/

namespace Bindery.Files

variable {files files' : Files} {follow : Bool} {root path : Path} {base location : Location}
  {names : List Raw} {spot : Spot}

/-- A path that a look-up accepts. -/
def Usable (path : Path) : Prop :=
  path.raw.bytes.contains 0 = false ∧ path.isEmpty = false ∧ path.raw.size ≤ longestPath

/-- Where the walk along a path starts. -/
def start (files : Files) (path : Path) : Location :=
  if path.isAbsolute then [] else files.home

theorem walkFor_eq (h : Usable path) (files : Files) (follow : Bool) (names : List Raw) :
    files.walkFor follow path names = walk files follow mostLinks (files.start path) names := by
  unfold walkFor
  rw [h.1, if_neg Bool.false_ne_true, h.2.1, if_neg Bool.false_ne_true, if_neg (Nat.not_lt.mpr h.2.2)]
  rfl

theorem usable_of_walkFor (h : files.walkFor follow path names = .ok spot) : Usable path := by
  unfold walkFor at h
  split at h
  · cases h
  next hnul =>
    split at h
    · cases h
    next hempty =>
      split at h
      · cases h
      next hlong =>
        exact ⟨Bool.eq_false_iff.mpr hnul, Bool.eq_false_iff.mpr hempty, Nat.not_lt.mp hlong⟩

/-- A path that is not longer than another one in the same directory. -/
theorem Usable.of_join {dir : Path} {long short : Raw} (h : Usable (dir.join ⟨long⟩))
    (hlong : Path.isAbsolute ⟨long⟩ = false) (hshort : Path.isAbsolute ⟨short⟩ = false)
    (hempty : Path.isEmpty ⟨short⟩ = false) (hnul : short.bytes.contains 0 = false)
    (hsize : short.size ≤ long.size) : Usable (dir.join ⟨short⟩) := by
  have hjoin {next : Raw} (hnext : Path.isAbsolute ⟨next⟩ = false) :
      (dir.join ⟨next⟩).raw = ⟨dir.front⟩ ++ next :=
    Raw.ext (Path.bytes_join hnext)
  obtain ⟨hfree, -, hbound⟩ := h
  rw [hjoin hlong, Raw.bytes_append] at hfree
  rw [hjoin hlong, Raw.size_append] at hbound
  refine ⟨?_, Path.isEmpty_join hshort hempty, ?_⟩
  · rw [hjoin hshort, Raw.bytes_append]
    rw [List.contains_append, Bool.or_eq_false_iff] at hfree ⊢
    exact ⟨hfree.1, hnul⟩
  · rw [hjoin hshort, Raw.size_append]
    omega

/-- A path that no look-up accepts is refused before the tree is looked at. -/
theorem walkFor_of_not_usable (h : ¬Usable path) :
    ∃ fault, ∀ files follow names, walkFor files follow path names = .error fault := by
  unfold Usable at h
  by_cases hnul : path.raw.bytes.contains 0 = true
  · exact ⟨.nulInPath, fun files follow names => if_pos hnul⟩
  by_cases hempty : path.isEmpty = true
  · exact ⟨.notFound, fun files follow names => (if_neg hnul).trans (if_pos hempty)⟩
  by_cases hlong : longestPath < path.raw.size
  · exact ⟨.nameTooLong, fun files follow names =>
      (if_neg hnul).trans ((if_neg hempty).trans (if_pos hlong))⟩
  · exact absurd ⟨Bool.eq_false_iff.mpr hnul, Bool.eq_false_iff.mpr hempty, Nat.not_lt.mp hlong⟩ h

/-- The directory that a path leads to. The empty path leads to the home of the tree, for it stands
before names that are looked up there. -/
def Leads (files : Files) (path : Path) (location : Location) : Prop :=
  walk files true mostLinks (files.start path) path.stops = .ok (.present location .dir)

theorem Leads.unique {location' : Location} (h : files.Leads path location)
    (h' : files.Leads path location') : location = location' := by
  have hsame := h.symm.trans h'
  cases hsame
  rfl

theorem Leads.mono (h : files.Leads path location) (hhome : files'.home = files.home)
    (hroads : Roads files files') : files'.Leads path location := by
  unfold Leads start at h ⊢
  rw [hhome]
  exact ((walk_eq_ok.mp h).mono hroads).walk_eq

/-- What is found below a directory is found by way of the directory. -/
theorem leads_of_walkFor {ends : List Raw} (hbelow : root.IsBelow names path)
    (h : files.walkFor follow path (root.stops ++ names ++ ends) = .ok spot) :
    ∃ location left, files.Leads root location ∧ Walked files follow left location (names ++ ends) spot := by
  have hwalk := walk_eq_ok.mp ((walkFor_eq (usable_of_walkFor h) files follow _).symm.trans h)
  have hstart : files.start path = files.start root := by
    unfold start
    rw [hbelow.isAbsolute]
  rw [hstart, List.append_assoc] at hwalk
  obtain ⟨location, left, hfirst, hmore⟩ := hwalk.split (by simp [hbelow.full])
  exact ⟨location, left, hfirst.walk_eq, hmore⟩

theorem leads_of_spot_below (hbelow : root.IsBelow names path)
    (h : files.spot follow path = .ok spot) : ∃ location, files.Leads root location := by
  obtain ⟨ends, hsteps, -⟩ := hbelow.steps
  unfold Files.spot at h
  rw [hsteps] at h
  obtain ⟨location, -, hleads, -⟩ := leads_of_walkFor hbelow h
  exact ⟨location, hleads⟩

/-! ## Ground -/

/-- A directory that a path leads to, with no link at or below it. -/
structure Ground (files : Files) (root : Path) (base : Location) : Prop where
  proper : files.Proper
  leads : files.Leads root base
  dir : files.find? base = some .dir
  plain : Linkless files base

namespace Ground

theorem find?_of_spotAt {entry : Entry} (h : Spot.present location entry = files.spotAt base) :
    location = base ∧ files.find? base = some entry := by
  unfold spotAt at h
  split at h
  · next entry' hfind => cases h; exact ⟨rfl, hfind⟩
  · cases h

theorem find?_of_spotAt_absent (h : Spot.absent location = files.spotAt base) :
    location = base ∧ files.find? base = none := by
  unfold spotAt at h
  split at h
  · cases h
  · next hfind => cases h; exact ⟨rfl, hfind⟩

theorem walked_eq {left : Nat} {ends : List Raw} (hground : files.Ground root base)
    (hnames : ∀ name ∈ names, Path.IsName name) (hends : ends = [] ∨ ends = [("." : Raw)])
    (h : Walked files follow left base (names ++ ends) spot) : spot = files.spotAt (base ++ names) := by
  rcases hends with rfl | rfl
  · rw [List.append_nil] at h
    exact h.spot_eq hnames hground.plain hground.dir
  · obtain ⟨location, left', hfirst, hdot⟩ := h.split (List.cons_ne_nil _ _)
    rw [hdot.dot_eq]
    exact hfirst.spot_eq hnames hground.plain hground.dir

theorem walkFor_eq {ends : List Raw} (hground : files.Ground root base)
    (hbelow : root.IsBelow names path) (hends : ends = [] ∨ ends = [("." : Raw)])
    (h : files.walkFor follow path (root.stops ++ names ++ ends) = .ok spot) :
    spot = files.spotAt (base ++ names) ∧ files.find? (base ++ names.dropLast) = some .dir := by
  obtain ⟨location, left, hleads, hmore⟩ := leads_of_walkFor hbelow h
  rw [hleads.unique hground.leads] at hmore
  refine ⟨hground.walked_eq hbelow.named hends hmore, ?_⟩
  obtain ⟨init, last, rfl⟩ := Path.eq_concat hbelow.full
  rw [List.append_assoc] at hmore
  obtain ⟨around, left', hfirst, -⟩ := hmore.split (by simp)
  have hinit : ∀ name ∈ init, Path.IsName name :=
    fun name hmem => hbelow.named name (List.mem_append_left _ hmem)
  have hspot := hfirst.spot_eq hinit hground.plain hground.dir
  rw [List.dropLast_concat]
  exact (find?_of_spotAt hspot).2

/-- **What a path leads to is what look-up finds where its names say.** -/
theorem spot_eq (hground : files.Ground root base) (hbelow : root.IsBelow names path)
    (h : files.spot follow path = .ok spot) :
    spot = files.spotAt (base ++ names) ∧ files.find? (base ++ names.dropLast) = some .dir := by
  obtain ⟨ends, hsteps, hends⟩ := hbelow.steps
  unfold Files.spot at h
  rw [hsteps] at h
  exact hground.walkFor_eq hbelow hends h

theorem place_eq (hground : files.Ground root base) (hbelow : root.IsBelow names path)
    (h : files.place path = .ok spot) :
    spot = files.spotAt (base ++ names) ∧ files.find? (base ++ names.dropLast) = some .dir := by
  unfold Files.place at h
  rw [hbelow.bare, ← List.append_nil (root.stops ++ names)] at h
  exact hground.walkFor_eq hbelow (.inl rfl) h

/-- A path below ground leads to the directory where its names say, if anywhere. -/
theorem leads_eq (hground : files.Ground root base) (hbelow : root.IsBelow names path)
    (h : files.Leads path location) : location = base ++ names := by
  unfold Leads start at h
  rw [hbelow.isAbsolute, hbelow.stops] at h
  obtain ⟨around, left, hfirst, hmore⟩ := (walk_eq_ok.mp h).split hbelow.full
  cases Leads.unique hfirst.walk_eq hground.leads
  exact (find?_of_spotAt (hmore.spot_eq hbelow.named hground.plain hground.dir)).1

/-- A path into a directory that is there can be looked up, unless it is not a path at all or something
about it is too long. -/
theorem walkFor_or_long {name : Raw} (hground : files.Ground root base)
    (hbelow : root.IsBelow (names ++ [name]) path)
    (hdir : files.find? (base ++ names) = some .dir) :
    files.walkFor follow path (root.stops ++ (names ++ [name])) =
        .ok (files.spotAt (base ++ (names ++ [name]))) ∨
      files.walkFor follow path (root.stops ++ (names ++ [name])) = .error .nulInPath ∨
      files.walkFor follow path (root.stops ++ (names ++ [name])) = .error .nameTooLong := by
  unfold walkFor
  rw [hbelow.isEmpty, if_neg Bool.false_ne_true]
  split
  · exact .inr (.inl rfl)
  · split
    · exact .inr (.inr rfl)
    · have hleads := hground.leads
      unfold Leads start at hleads
      rw [← hbelow.isAbsolute] at hleads
      obtain ⟨left, hleft⟩ := (walk_eq_ok.mp hleads).through
      rw [hleft follow _ (by simp)]
      rcases walk_names hground.proper hbelow.named hground.plain hdir with hwalk | ⟨hwalk, -⟩
      · exact .inl hwalk
      · exact .inr (.inr hwalk)

/-! ## Changes -/

/-- A change that loses no directory and makes no link keeps the ground. -/
theorem change (hground : files.Ground root base) (hproper : files'.Proper)
    (hhome : files'.home = files.home) (hroads : Roads files files') (hplain : Linkless files' base) :
    files'.Ground root base where
  proper := hproper
  leads := hground.leads.mono hhome hroads
  dir := hroads _ _ hground.dir (by simp)
  plain := hplain

/-- A file or a directory can be put into a directory, unless it takes the place of a directory. -/
theorem put {entry : Entry} (hground : files.Ground root base) (hfull : names ≠ [])
    (hnames : ∀ name ∈ names, Path.IsName name)
    (haround : files.find? (base ++ names.dropLast) = some .dir)
    (hlink : ∀ target, entry ≠ .link target)
    (hfree : files.find? (base ++ names) = some .dir → entry = .dir) :
    (files.put (base ++ names) entry).Ground root base := by
  have hplace : base ++ names ≠ [] := by simp [hfull]
  -- what leads to the ground is kept, and no link comes into it
  refine hground.change ?_ rfl ?_ ?_
  · obtain ⟨init, name, rfl⟩ := Path.eq_concat hfull
    rw [List.dropLast_concat] at haround
    rw [← List.append_assoc] at hfree ⊢
    exact hground.proper.put haround (hnames name (by simp)) hfree
  · intro location old hfind hroad
    by_cases hsame : location = base ++ names
    · subst hsame
      rw [find?_put_self hplace]
      cases old with
      | dir => rw [hfree hfind]
      | file content executable => exact absurd rfl (hroad content executable)
      | link target => exact absurd hfind (hground.plain names target)
    · rw [find?_put_of_ne hsame, hfind]
  · intro rest target hfind
    by_cases hsame : base ++ rest = base ++ names
    · rw [hsame, find?_put_self hplace] at hfind
      exact hlink target (Option.some.inj hfind)
    · rw [find?_put_of_ne hsame] at hfind
      exact hground.plain rest target hfind

/-- What is not a directory can be taken away. -/
theorem remove (hground : files.Ground root base) (hfull : names ≠ [])
    (hfile : files.find? (base ++ names) ≠ some .dir) :
    (files.remove (base ++ names)).Ground root base := by
  have hplace : base ++ names ≠ [] := by simp [hfull]
  refine hground.change (hground.proper.remove hfile) rfl ?_ ?_
  · intro location old hfind hroad
    have hother : location ≠ base ++ names := by
      rintro rfl
      cases old with
      | dir => exact hfile hfind
      | file content executable => exact hroad content executable rfl
      | link target => exact hground.plain names target hfind
    rw [find?_remove_of_ne hother, hfind]
  · intro rest target hfind
    by_cases hsame : base ++ rest = base ++ names
    · rw [hsame, find?_remove_self hplace] at hfind
      cases hfind
    · rw [find?_remove_of_ne hsame] at hfind
      exact hground.plain rest target hfind

end Ground

end Bindery.Files
