import Bindery.Proofs.Files.Access

/-!
# `Proofs.Files.Inside` — right inside a directory

A directory that a path leads to may hold links, so that it need not be ground. What a name right inside it
leads to is still what look-up finds there, unless that very name is one of a link (`Leads.inside_eq`). So
a file can be written into such a directory, and the path goes on to lead there (`Leads.write_eq`). A
directory can be made there, too (`Leads.ensureDir_eq`), and its path leads into it (`Leads.join`).

**Contents.**
* `leads_of_spot`, `Leads.spot_eq` — where the path of a directory leads;
* `Leads.inside_eq`, `Leads.inside_absent` — what a name inside it leads to;
* `Leads.write_eq` and `Leads.putFile` — a file that is written there;
* `Leads.join`, `Leads.ensureDir_eq` and `Leads.makeDirs_there` — a directory that is there, or is made there;
* `Leads.unlink_cases` — what is taken away.
-/

namespace Bindery.Files

variable {files files' : Files} {follow : Bool} {path : Path} {base location : Location} {name : Raw}
  {spot : Spot}

/-- A path that leads to a directory and ends in a slash leads there without the slash, too. -/
theorem leads_of_spot (h : files.spot true path = .ok (.present base .dir)) : files.Leads path base := by
  have hwalk := (walkFor_eq (usable_of_walkFor h) files true path.steps).symm.trans h
  rw [Path.steps_eq] at hwalk
  split at hwalk
  · -- the slash is one more step, which stays in the directory
    obtain ⟨location, left, hfirst, hdot⟩ := (walk_eq_ok.mp hwalk).split (List.cons_ne_nil _ _)
    cases hdot.dot_eq
    exact hfirst.walk_eq
  · rw [List.append_nil] at hwalk
    exact hwalk

theorem contains_nul_join (husable : Usable path) (hname : Path.IsName name)
    (hnul : name.bytes.contains 0 = false) :
    (path.join ⟨name⟩).raw.bytes.contains 0 = false := by
  have hfront : path.front.contains 0 = false := by
    unfold Path.front
    rw [husable.2.1, if_neg Bool.false_ne_true]
    split
    · exact husable.1
    · rw [List.contains_append, husable.1]
      decide
  rw [Path.bytes_join_name hname, List.contains_append, hfront, hnul]
  rfl

/-- The last name of a walk, unless it is one of a link. -/
theorem Walked.name_eq {links : Nat} (h : Walked files follow links base [name] spot) (hname : Path.IsName name)
    (hplain : ∀ target, files.find? (base ++ [name]) ≠ some (.link target)) :
    spot = files.spotAt (base ++ [name]) := by
  cases h with
  | dot => exact absurd rfl hname.2.2.1
  | up => exact absurd rfl hname.2.2.2
  | dir hstep hfind hrest =>
    cases hrest
    exact (spotAt_eq hfind).symm
  | absent hstep hfind => exact (spotAt_eq_absent hfind).symm
  | file hstep hfind => exact (spotAt_eq hfind).symm
  | stay hstep hfind => exact absurd hfind (hplain _)
  | jump hstep hfind => exact absurd hfind (hplain _)

theorem start_join (hname : Path.IsName name) (files : Files) (path : Path) :
    files.start (path.join ⟨name⟩) = files.start path := by
  unfold start
  rw [(hname.isBelow path).isAbsolute]

theorem place_join (hname : Path.IsName name) :
    files.place (path.join ⟨name⟩) = files.spot false (path.join ⟨name⟩) := by
  unfold Files.place Files.spot
  rw [Path.bare_join_name hname]

namespace Leads

theorem spot_eq (hleads : files.Leads path base) (h : files.spot true path = .ok spot) :
    spot = .present base .dir := by
  have hwalk := (walkFor_eq (usable_of_walkFor h) files true path.steps).symm.trans h
  rw [Path.steps_eq] at hwalk
  split at hwalk
  · obtain ⟨location, left, hfirst, hdot⟩ := (walk_eq_ok.mp hwalk).split (List.cons_ne_nil _ _)
    rw [hdot.dot_eq, Leads.unique hfirst.walk_eq hleads]
  · rw [List.append_nil] at hwalk
    exact (Except.ok.inj (hleads.symm.trans hwalk)).symm

/-- **A name inside a directory leads to what is there,** unless it is one of a link. -/
theorem inside_eq (hleads : files.Leads path base) (hname : Path.IsName name)
    (hplain : ∀ target, files.find? (base ++ [name]) ≠ some (.link target))
    (h : files.spot follow (path.join ⟨name⟩) = .ok spot) : spot = files.spotAt (base ++ [name]) := by
  unfold Files.spot at h
  rw [Path.steps_join_name hname, ← List.append_nil (path.stops ++ [name])] at h
  obtain ⟨location, left, hfirst, hwalked⟩ := leads_of_walkFor (hname.isBelow path) h
  cases hfirst.unique hleads
  exact hwalked.name_eq hname hplain

/-- What a name inside a directory leads to is there because something has the name, be it a link. -/
theorem inside_there {entry : Entry} (hleads : files.Leads path base) (hname : Path.IsName name)
    (h : files.spot follow (path.join ⟨name⟩) = .ok (.present location entry)) :
    files.find? (base ++ [name]) ≠ none := by
  unfold Files.spot at h
  rw [Path.steps_join_name hname, ← List.append_nil (path.stops ++ [name])] at h
  obtain ⟨around, left, hfirst, hwalked⟩ := leads_of_walkFor (hname.isBelow path) h
  cases hfirst.unique hleads
  cases hwalked with
  | dot => exact absurd rfl hname.2.2.1
  | up => exact absurd rfl hname.2.2.2
  | dir _ hfind => simp [hfind]
  | file _ hfind => simp [hfind]
  | stay _ hfind => simp [hfind]
  | jump _ hfind => simp [hfind]

/-- A name inside a directory under which there is nothing leads nowhere, unless its path is too long to be
looked up. -/
theorem inside_absent (hleads : files.Leads path base) (husable : Usable path) (hname : Path.IsName name)
    (hnul : name.bytes.contains 0 = false) (hshort : name.size ≤ longestName)
    (hfind : files.find? (base ++ [name]) = none) :
    files.spot follow (path.join ⟨name⟩) = .ok (.absent (base ++ [name])) ∨
      longestPath < (path.join ⟨name⟩).raw.size ∧
        files.spot follow (path.join ⟨name⟩) = .error .nameTooLong := by
  have hfree := contains_nul_join husable hname hnul
  have hempty : (path.join ⟨name⟩).isEmpty = false := Path.isEmpty_join_name hname
  unfold Files.spot
  by_cases hlong : longestPath < (path.join ⟨name⟩).raw.size
  · refine .inr ⟨hlong, ?_⟩
    unfold walkFor
    rw [hfree, if_neg Bool.false_ne_true, hempty, if_neg Bool.false_ne_true, if_pos hlong]
  · left
    -- the walk goes through the directory, and ends with the name
    obtain ⟨left, hleft⟩ := (walk_eq_ok.mp hleads).through
    rw [Path.steps_join_name hname, walkFor_eq ⟨hfree, hempty, Nat.not_lt.mp hlong⟩, start_join hname,
      hleft _ _ (List.cons_ne_nil _ _), walk_step ⟨hname.2.2.1, hname.2.2.2, hshort⟩, hfind]
    exact if_pos rfl

/-- What is written to a name inside a directory takes the place of a file there, or of nothing. -/
theorem write_eq {content : Content} (hleads : files.Leads path base) (hname : Path.IsName name)
    (hplain : ∀ target, files.find? (base ++ [name]) ≠ some (.link target))
    (h : files.write (path.join ⟨name⟩) content = .ok files') :
    files.find? (base ++ [name]) ≠ some .dir ∧
      files' = files.put (base ++ [name]) (.file content (files.executableAt (base ++ [name]))) := by
  obtain ⟨⟨location, executable⟩, hwritable, h⟩ := bind_eq_ok.mp h
  cases h
  unfold writable at hwritable
  split at hwritable
  · obtain ⟨spot, -, hcontra⟩ := bind_eq_ok.mp hwritable
    cases hcontra
  obtain ⟨spot, hspot, hwritable⟩ := bind_eq_ok.mp hwritable
  have hspot := hleads.inside_eq hname hplain hspot
  unfold executableAt
  -- what is there decides: nothing and a file can be written, a directory cannot
  cases spot with
  | absent place =>
    cases hwritable
    obtain ⟨rfl, hfind⟩ := Ground.find?_of_spotAt_absent hspot
    rw [hfind]
    exact ⟨nofun, rfl⟩
  | present place entry =>
    obtain ⟨rfl, hfind⟩ := Ground.find?_of_spotAt hspot
    cases entry with
    | dir => cases hwritable
    | link target => cases hwritable
    | file content' executable' =>
      cases hwritable
      rw [hfind]
      exact ⟨by simp, rfl⟩

/-- A file that takes no directory's or link's place does not change where paths lead. -/
theorem putFile {place : Location} (hleads : files.Leads path base)
    (hplain : ∀ target, files.find? place ≠ some (.link target)) (hfree : files.find? place ≠ some .dir)
    (content : Content) (executable : Bool) : (files.put place (.file content executable)).Leads path base :=
  hleads.mono rfl (.putFile hplain hfree content executable)

/-! ## Directories in it -/

/-- A name inside a directory can be looked up, be it one of a link, unless its path is not one at all or too
long. -/
theorem spot_or_long (hleads : files.Leads path base) (hname : Path.IsName name) :
    files.spot false (path.join ⟨name⟩) = .ok (files.spotAt (base ++ [name])) ∨
      files.spot false (path.join ⟨name⟩) = .error .nulInPath ∨
      files.spot false (path.join ⟨name⟩) = .error .nameTooLong := by
  by_cases husable : Usable (path.join ⟨name⟩)
  · obtain ⟨left, hleft⟩ := (walk_eq_ok.mp hleads).through
    unfold Files.spot
    rw [Path.steps_join_name hname, walkFor_eq husable, start_join hname, hleft _ _ (List.cons_ne_nil _ _)]
    by_cases hlong : longestName < name.size
    · right; right
      rw [walk_cons, if_neg hname.2.2.1, if_neg hname.2.2.2, if_pos hlong]
    · left
      rw [walk_step ⟨hname.2.2.1, hname.2.2.2, Nat.not_lt.mp hlong⟩]
      cases hfind : files.find? (base ++ [name]) with
      | none =>
        rw [spotAt_eq_absent hfind]
        rfl
      | some entry =>
        rw [spotAt_eq hfind]
        cases entry with
        | dir => exact walk_nil
        | file content executable => rfl
        | link target => exact if_pos ⟨rfl, rfl⟩
  · right
    unfold Files.spot walkFor
    rw [Path.isEmpty_join_name hname, if_neg Bool.false_ne_true]
    by_cases hnul : (path.join ⟨name⟩).raw.bytes.contains 0 = true
    · exact .inl (if_pos hnul)
    · right
      have hlong : longestPath < (path.join ⟨name⟩).raw.size := by
        refine Nat.lt_of_not_le fun hshort => husable ⟨Bool.eq_false_iff.mpr hnul, ?_, hshort⟩
        exact Path.isEmpty_join_name hname
      rw [if_neg hnul, if_pos hlong]

/-- The path of a directory with the name of another one inside it. -/
theorem join (hleads : files.Leads path base) (hname : Path.IsName name)
    (hshort : name.size ≤ longestName) (hdir : files.find? (base ++ [name]) = some .dir) :
    files.Leads (path.join ⟨name⟩) (base ++ [name]) := by
  obtain ⟨left, hleft⟩ := (walk_eq_ok.mp hleads).through
  unfold Leads
  rw [start_join hname, Path.stops_join_name hname, hleft _ _ (List.cons_ne_nil _ _),
    walk_step ⟨hname.2.2.1, hname.2.2.2, hshort⟩, hdir]
  exact walk_nil

/-- The path of a directory with names that lead to another one below it. -/
theorem below {names : List Raw} (hleads : files.Leads path base) (hproper : files.Proper)
    (hnames : ∀ name ∈ names, Path.IsName name ∧ name.size ≤ longestName)
    (hdir : files.find? (base ++ names) = some .dir) : files.Leads (path.below names) (base ++ names) := by
  induction names generalizing path base with
  | nil => rwa [List.append_nil]
  | cons name names ih =>
    obtain ⟨hname, hshort⟩ := hnames name List.mem_cons_self
    rw [List.append_cons] at hdir ⊢
    have hfirst := hproper.dir_of_prefix (List.prefix_append _ names) hdir
    exact ih (hleads.join hname hshort hfirst) (fun name' hmem => hnames name' (List.mem_cons_of_mem _ hmem)) hdir

/-- A directory is made where there is nothing. That the directory around it is missing is no reason not to. -/
theorem makeDir_cases (hleads : files.Leads path base) (hname : Path.IsName name) :
    files.find? (base ++ [name]) = none ∧
        files.makeDir (path.join ⟨name⟩) = .ok (files.put (base ++ [name]) .dir) ∨
      ∃ fault, files.makeDir (path.join ⟨name⟩) = .error fault ∧ fault ≠ .notFound := by
  unfold makeDir
  rw [place_join hname]
  rcases hleads.spot_or_long hname with hspot | hspot | hspot
  · rw [hspot]
    cases hfind : files.find? (base ++ [name]) with
    | none =>
      rw [spotAt_eq_absent hfind]
      exact .inl ⟨rfl, rfl⟩
    | some entry =>
      rw [spotAt_eq hfind]
      exact .inr ⟨.alreadyExists, rfl, nofun⟩
  · rw [hspot]
    exact .inr ⟨.nulInPath, rfl, nofun⟩
  · rw [hspot]
    exact .inr ⟨.nameTooLong, rfl, nofun⟩

/-- Making sure of a directory inside another one. -/
theorem ensureDir_eq {result : Except Fault Unit} (hleads : files.Leads path base) (hname : Path.IsName name)
    (h : files.ensureDir (path.join ⟨name⟩) = (result, files')) :
    result ≠ .error .notFound ∧
      (files' = files ∧ (result = .ok () → files.isDirectory (path.join ⟨name⟩) = true) ∨
        files.find? (base ++ [name]) = none ∧ files' = files.put (base ++ [name]) .dir) := by
  unfold ensureDir at h
  rcases hleads.makeDir_cases hname with ⟨hnone, hmake⟩ | ⟨fault, hmake, hother⟩
  · rw [hmake] at h
    cases h
    exact ⟨nofun, .inr ⟨hnone, rfl⟩⟩
  · rw [hmake] at h
    cases hdir : files.isDirectory (path.join ⟨name⟩) with
    | true =>
      rw [hdir] at h
      cases h
      exact ⟨nofun, .inl ⟨rfl, fun _ => rfl⟩⟩
    | false =>
      rw [hdir] at h
      cases h
      exact ⟨fun heq => hother (Except.error.inj heq), .inl ⟨rfl, nofun⟩⟩

/-- Something is in the place of a directory whose path leads anywhere, if only a link. -/
theorem inner (hleads : files.Leads (path.join ⟨name⟩) location) (hname : Path.IsName name) :
    ∃ base, files.Leads path base ∧ files.find? (base ++ [name]) ≠ none := by
  unfold Leads at hleads
  rw [start_join hname, Path.stops_join_name hname] at hleads
  obtain ⟨base, left, hfirst, hlast⟩ := (walk_eq_ok.mp hleads).split (List.cons_ne_nil _ _)
  refine ⟨base, hfirst.walk_eq, ?_⟩
  cases hlast with
  | dot => exact absurd rfl hname.2.2.1
  | up => exact absurd rfl hname.2.2.2
  | dir _ hfind => simp [hfind]
  | jump _ hfind => simp [hfind]

/-- A directory whose path leads anywhere is not made. -/
theorem makeDirs_there {result : Except Fault Unit} (hleads : files.Leads (path.join ⟨name⟩) location)
    (hname : Path.IsName name) (h : files.makeDirs (path.join ⟨name⟩) = (result, files')) : files' = files := by
  obtain ⟨base, haround, hthere⟩ := hleads.inner hname
  cases hensure : files.ensureDir (path.join ⟨name⟩) with
  | mk outcome made =>
    obtain ⟨hother, hstep⟩ := haround.ensureDir_eq hname hensure
    cases (makeDirsUpTo_succ (Path.isEmpty_join_name hname) hensure hother).symm.trans h
    rcases hstep with ⟨hsame, -⟩ | ⟨hnone, -⟩
    · exact hsame
    · exact absurd hnone hthere

/-! ## Taking away -/

/-- A name is taken away from a directory if there is a file or a link under it. -/
theorem unlink_cases (hleads : files.Leads path base) (hname : Path.IsName name) :
    (∃ entry, files.find? (base ++ [name]) = some entry ∧ entry ≠ .dir ∧
        files.unlink (path.join ⟨name⟩) = .ok (files.remove (base ++ [name]))) ∨
      files.find? (base ++ [name]) = none ∧ files.unlink (path.join ⟨name⟩) = .error .notFound ∨
      ∃ fault, files.unlink (path.join ⟨name⟩) = .error fault ∧ fault ≠ .notFound := by
  have hslash : (path.join ⟨name⟩).endsInSlash = false := Path.endsInSlash_join_name hname
  unfold unlink
  rw [place_join hname]
  rcases hleads.spot_or_long hname with hspot | hspot | hspot
  · rw [hspot]
    cases hfind : files.find? (base ++ [name]) with
    | none =>
      rw [spotAt_eq_absent hfind]
      exact .inr (.inl ⟨rfl, rfl⟩)
    | some entry =>
      rw [spotAt_eq hfind]
      cases entry with
      | dir => exact .inr (.inr ⟨.isDirectory, rfl, nofun⟩)
      | file content executable => exact .inl ⟨_, rfl, nofun, if_neg (by rw [hslash]; exact Bool.false_ne_true)⟩
      | link target => exact .inl ⟨_, rfl, nofun, if_neg (by rw [hslash]; exact Bool.false_ne_true)⟩
  · rw [hspot]
    exact .inr (.inr ⟨.nulInPath, rfl, nofun⟩)
  · rw [hspot]
    exact .inr (.inr ⟨.nameTooLong, rfl, nofun⟩)

end Leads

/-- Nothing is taken away from a directory whose path leads nowhere. -/
theorem leads_of_unlink (hname : Path.IsName name) (h : files.unlink (path.join ⟨name⟩) = .ok files') :
    ∃ location, files.Leads path location := by
  obtain ⟨spot, hspot, -⟩ := bind_eq_ok.mp h
  rw [place_join hname] at hspot
  exact leads_of_spot_below (hname.isBelow path) hspot

end Bindery.Files
