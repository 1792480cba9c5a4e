import Bindery.Proofs.Files.Making

/-!
# `Proofs.Files.Seen` — a tree as it is copied

Who copies a tree sees the files that links in it lead to instead of the links (`Files.seen`). Where a link leads
does not depend on how many links have been followed before (`Walked.unique`), nor on changes that neither take a
directory or a link away nor touch the file (`Walked.mono_file`). So a tree looks the same after a change to
another place, if all its links lead to files outside of that place (`LinksOut`).

The files in a directory are those among its entries, and those in the directories in it
(`Proper.fileCount_eq_entriesCount`).

**Contents.**
* `Walked.more_links`, `Walked.unique`, `Walked.mono_file` — where links lead;
* `Files.seen`, `LinksOut`, `Leads.seen_eq` — links as the files that they lead to;
* `fileCount` with `Proper.fileCount_eq_entriesCount`, `Proper.fileCount_congr` and `Proper.entriesCount_congr`.
-/

namespace Bindery.Files

variable {files files' : Files} {follow : Bool} {links links' : Nat} {target path : Path}
  {here location place : Location} {names : List Raw} {name : Raw} {spot spot' : Spot} {entry : Entry}

/-! ## Where links lead -/

/-- More links that may be followed make no difference to a walk that ends well. -/
theorem Walked.more_links (hle : links ≤ links') (h : Walked files follow links here names spot) :
    Walked files follow links' here names spot := by
  induction h generalizing links' with
  | done => exact .done
  | dot _ ih => exact .dot (ih hle)
  | up _ ih => exact .up (ih hle)
  | dir hstep hfind _ ih => exact .dir hstep hfind (ih hle)
  | absent hstep hfind => exact .absent hstep hfind
  | file hstep hfind => exact .file hstep hfind
  | stay hstep hfind hfollow => exact .stay hstep hfind hfollow
  | jump hstep hfind hgo _ ih =>
    -- one link is used up, so that at least one is left among the more
    obtain ⟨links', rfl⟩ := Nat.exists_eq_add_one_of_ne_zero (Nat.ne_of_gt (Nat.lt_of_lt_of_le (Nat.succ_pos _) hle))
    exact .jump hstep hfind hgo (ih (Nat.le_of_succ_le_succ hle))

theorem Walked.unique (h : Walked files follow links here names spot)
    (h' : Walked files follow links' here names spot') : spot = spot' := by
  have hmost := (h.more_links (Nat.le_max_left links links')).walk_eq
  have hmost' := (h'.more_links (Nat.le_max_right links links')).walk_eq
  exact Except.ok.inj (hmost.symm.trans hmost')

/-- **What leads to a file still leads there** when no directory or link has gone, and the file has not changed. -/
theorem Walked.mono_file {content : Content} {executable : Bool} (hroads : Roads files files')
    (hsame : files'.find? location = files.find? location)
    (h : Walked files true links here names (.present location (.file content executable))) :
    Walked files' true links here names (.present location (.file content executable)) := by
  generalize hspot : Spot.present location (.file content executable) = spot at h ⊢
  induction h with
  | done => cases hspot
  | dot _ ih => exact .dot (ih hspot)
  | up _ ih => exact .up (ih hspot)
  | dir hstep hfind _ ih => exact .dir hstep (hroads _ _ hfind nofun) (ih hspot)
  | absent => cases hspot
  | file hstep hfind =>
    cases hspot
    exact .file hstep (hsame.trans hfind)
  | stay => cases hspot
  | jump hstep hfind hgo _ ih => exact .jump hstep (hroads _ _ hfind nofun) hgo (ih hspot)

theorem Walked.file_there {content : Content} {executable : Bool}
    (h : Walked files follow links here names (.present location (.file content executable))) :
    files.find? location = some (.file content executable) := by
  rcases h.ends with ⟨place, hcontra⟩ | ⟨place, hplace⟩
  · cases hcontra
  · obtain ⟨rfl, hfind⟩ := Ground.find?_of_spotAt hplace
    exact hfind

/-- A file is written where there is a file or nothing, wherever the path leads. -/
theorem free_of_writable {executable : Bool} (h : files.writable path = .ok (location, executable)) :
    (∀ target, files.find? location ≠ some (.link target)) ∧ files.find? location ≠ some .dir := by
  unfold writable at h
  split at h
  · obtain ⟨spot, -, hcontra⟩ := bind_eq_ok.mp h
    cases hcontra
  · obtain ⟨spot, hspot, h⟩ := bind_eq_ok.mp h
    have hwalked := walk_eq_ok.mp ((walkFor_eq (usable_of_walkFor hspot) files true path.steps).symm.trans hspot)
    cases spot with
    | absent place =>
      cases h
      simp [hwalked.absent_none]
    | present place entry =>
      cases entry with
      | dir => cases h
      | link target => cases h
      | file content mode =>
        cases h
        simp [hwalked.file_there]

/-! ## Links as the files that they lead to -/

/-- What is at a location, with what a link there leads to instead of the link. -/
def seen (files : Files) (location : Location) : Option Entry :=
  match files.find? location with
  | some (.link target) =>
    match walk files true mostLinks (linkStart target location.dropLast) target.steps with
    | .ok (.present _ entry) => some entry
    | _ => some (.link target)
  | found => found

/-- Every link in a tree leads to a file that is not at or below a place. -/
def LinksOut (files : Files) (source place : Location) : Prop :=
  ∀ rest target, files.find? (source ++ rest) = some (.link target) →
    ∃ goal content executable, walk files true mostLinks (linkStart target (source ++ rest).dropLast) target.steps =
      .ok (.present goal (.file content executable)) ∧ ¬place <+: goal

theorem seen_eq (hplain : ∀ target, files.find? location ≠ some (.link target)) :
    files.seen location = files.find? location := by
  unfold seen
  split
  · next hfind => exact absurd hfind (hplain _)
  · rfl

theorem seen_link {goal : Location} (hfind : files.find? location = some (.link target))
    (hwalk : walk files true mostLinks (linkStart target location.dropLast) target.steps = .ok (.present goal entry)) :
    files.seen location = some entry := by
  unfold seen
  rw [hfind]
  dsimp only
  rw [hwalk]

theorem seen_none (hfind : files.find? location = none) : files.seen location = none := by
  rw [seen_eq fun target hlink => ?_, hfind]
  rw [hfind] at hlink
  cases hlink

/-- In a tree without links, none leads anywhere. -/
theorem Linkless.linksOut {source : Location} (hplain : Linkless files source) (place : Location) :
    LinksOut files source place :=
  fun rest target hfind => absurd hfind (hplain rest target)

namespace LinksOut

variable {source : Location} (h : LinksOut files source place)

include h

theorem append (rest : List Raw) : LinksOut files (source ++ rest) place := by
  intro more target hfind
  rw [List.append_assoc] at hfind ⊢
  exact h _ _ hfind

section Change

variable (hroads : Roads files files')
  (hsource : ∀ rest, files'.find? (source ++ rest) = files.find? (source ++ rest))
  (hout : ∀ location, ¬place <+: location → files.find? location ≠ none →
    files'.find? location = files.find? location)

include hroads hout

/-- A link of the tree leads where it led before, if nothing has changed that was there, but at the place. -/
theorem goal_eq {rest : List Raw} (hfind : files.find? (source ++ rest) = some (.link target)) :
    ∃ goal content executable, walk files true mostLinks (linkStart target (source ++ rest).dropLast) target.steps =
        .ok (.present goal (.file content executable)) ∧
      walk files' true mostLinks (linkStart target (source ++ rest).dropLast) target.steps =
        .ok (.present goal (.file content executable)) ∧ ¬place <+: goal := by
  obtain ⟨goal, content, executable, hwalk, hgoal⟩ := h _ _ hfind
  have hwalked := walk_eq_ok.mp hwalk
  have hthere : files.find? goal ≠ none := by
    rw [hwalked.file_there]
    exact nofun
  exact ⟨goal, content, executable, hwalk, (hwalked.mono_file hroads (hout goal hgoal hthere)).walk_eq, hgoal⟩

include hsource

theorem change : LinksOut files' source place := by
  intro rest target hfind
  rw [hsource] at hfind
  obtain ⟨goal, content, executable, -, hwalk, hgoal⟩ := h.goal_eq hroads hout hfind
  exact ⟨goal, content, executable, hwalk, hgoal⟩

theorem seen_congr (rest : List Raw) : files'.seen (source ++ rest) = files.seen (source ++ rest) := by
  by_cases hlink : ∃ target, files.find? (source ++ rest) = some (.link target)
  · obtain ⟨target, hfind⟩ := hlink
    obtain ⟨goal, content, executable, hwalk, hwalk', -⟩ := h.goal_eq hroads hout hfind
    rw [seen_link hfind hwalk, seen_link ((hsource rest).trans hfind) hwalk']
  · have hplain : ∀ target, files.find? (source ++ rest) ≠ some (.link target) := not_exists.mp hlink
    have hplain' : ∀ target, files'.find? (source ++ rest) ≠ some (.link target) := by rwa [hsource]
    rw [seen_eq hplain, seen_eq hplain', hsource]

end Change

end LinksOut

/-- **What is copied from an entry of a directory is the file that is seen there.** -/
theorem Leads.seen_eq {source : Location} (hleads : files.Leads path source) (hname : Path.IsName name)
    (hlinks : LinksOut files (source ++ [name]) place) (hfree : ¬place <+: source ++ [name])
    (hspot : files.spot true (path.join ⟨name⟩) = .ok (.present location entry)) :
    files.seen (source ++ [name]) = some entry ∧ ¬place <+: location := by
  have hwalked : ∃ left, Walked files true left source [name] (.present location entry) := by
    unfold Files.spot at hspot
    rw [Path.steps_join_name hname, ← List.append_nil (path.stops ++ [name])] at hspot
    obtain ⟨location', left, hfirst, hwalked⟩ := leads_of_walkFor (hname.isBelow path) hspot
    cases hfirst.unique hleads
    exact ⟨left, hwalked⟩
  obtain ⟨left, hwalked⟩ := hwalked
  by_cases hlink : ∃ target, files.find? (source ++ [name]) = some (.link target)
  · -- the look-up may have followed links before, which makes no difference to where this one leads
    obtain ⟨target, hfind⟩ := hlink
    obtain ⟨goal, content, executable, hwalk, hgoal⟩ := hlinks [] target (by rw [List.append_nil, hfind])
    rw [List.append_nil] at hwalk
    rw [seen_link hfind hwalk]
    rw [List.dropLast_concat] at hwalk
    cases hwalked with
    | dot => exact absurd rfl hname.2.2.1
    | up => exact absurd rfl hname.2.2.2
    | dir _ hother => rw [hfind] at hother; cases hother
    | file _ hother => rw [hfind] at hother; cases hother
    | stay _ _ hfollow => cases hfollow
    | jump _ hsame _ hjumped =>
      cases hfind.symm.trans hsame
      rw [List.append_nil] at hjumped
      cases hjumped.unique (walk_eq_ok.mp hwalk)
      exact ⟨rfl, hgoal⟩
  · have hplain : ∀ target, files.find? (source ++ [name]) ≠ some (.link target) := not_exists.mp hlink
    obtain ⟨rfl, hfind⟩ := Ground.find?_of_spotAt (hwalked.name_eq hname hplain)
    rw [Files.seen_eq hplain]
    exact ⟨hfind, hfree⟩

/-! ## How many files there are -/

/-- The number of files and links below a location. -/
def fileCount (files : Files) (location : Location) : Nat :=
  (files.subtree location).countP fun entry => entry.2 ≠ .dir

/-- The number of files and links that an entry of a directory stands for. -/
def entryCount (files : Files) (location : Location) (entry : Raw × Entry) : Nat :=
  if entry.2 = .dir then files.fileCount (location ++ [entry.1]) else 1

/-- The number of files and links that some entries of a directory stand for. -/
def entriesCount (files : Files) (location : Location) : List (Raw × Entry) → Nat
  | [] => 0
  | entry :: entries => files.entryCount location entry + files.entriesCount location entries

/-- An entry of a directory with what is below it. -/
def branch (files : Files) (location : Location) (entry : Raw × Entry) : List (List Raw × Entry) :=
  ([entry.1], entry.2) :: (files.subtree (location ++ [entry.1])).map fun below => (entry.1 :: below.1, below.2)

theorem head_of_mem_branch {below : List Raw × Entry} {child : Raw × Entry}
    (h : below ∈ files.branch location child) : below.1.head? = some child.1 := by
  rcases List.mem_cons.mp h with rfl | hmem
  · rfl
  · obtain ⟨rest, -, rfl⟩ := List.mem_map.mp hmem
    rfl

namespace Proper

variable (h : files.Proper)

include h

theorem mem_branch {names : List Raw} {below : Entry} (hfind : files.find? (location ++ [name]) = some entry) :
    (names, below) ∈ files.branch location (name, entry) ↔
      ∃ rest, names = name :: rest ∧ files.find? (location ++ names) = some below := by
  unfold branch
  rw [List.mem_cons, List.mem_map]
  constructor
  · rintro (heq | ⟨⟨rest, found⟩, hmem, heq⟩)
    · cases heq
      exact ⟨[], rfl, hfind⟩
    · cases heq
      obtain ⟨-, hfound⟩ := h.mem_subtree.mp hmem
      exact ⟨rest, rfl, by rwa [List.append_assoc] at hfound⟩
  · rintro ⟨rest, rfl, hbelow⟩
    by_cases hend : rest = []
    · subst hend
      cases hfind.symm.trans hbelow
      exact .inl rfl
    · refine .inr ⟨(rest, below), h.mem_subtree.mpr ⟨hend, ?_⟩, rfl⟩
      rwa [List.append_assoc]

theorem nodup_subtree (location : Location) : (files.subtree location).Nodup := by
  refine (h.subtree_sorted location).imp fun {left right} hlt heq => ?_
  rw [heq] at hlt
  exact Std.lt_irrefl hlt

theorem nodup_branch (entry : Raw × Entry) : (files.branch location entry).Nodup := by
  refine List.nodup_cons.mpr ⟨fun hmem => ?_, List.pairwise_map.mpr ?_⟩
  · obtain ⟨⟨names, below⟩, hmem, heq⟩ := List.mem_map.mp hmem
    cases heq
    exact (h.mem_subtree.mp hmem).1 rfl
  · refine List.Pairwise.imp (fun {left right} hne heq => hne ?_) (h.nodup_subtree _)
    obtain ⟨hnames, hbelow⟩ := Prod.mk.inj heq
    exact Prod.ext (List.cons.inj hnames).2 hbelow

/-- What is below a location is its entries, each with what is below it. -/
theorem subtree_perm (location : Location) :
    (files.subtree location).Perm ((files.children location).flatMap (files.branch location)) := by
  refine (List.perm_ext_iff_of_nodup (h.nodup_subtree location) ?_).mpr ?_
  · -- two entries differ in their names, with which everything below them starts
    refine List.pairwise_flatMap.mpr ⟨fun entry _ => h.nodup_branch entry, ?_⟩
    refine (h.children_sorted location).imp fun {left right} hlt below hbelow below' hbelow' heq => ?_
    have hleft := head_of_mem_branch hbelow
    rw [heq, head_of_mem_branch hbelow'] at hleft
    rw [Option.some.inj hleft] at hlt
    exact Std.lt_irrefl hlt
  · rintro ⟨names, below⟩
    rw [h.mem_subtree, List.mem_flatMap]
    constructor
    · rintro ⟨hfull, hfind⟩
      obtain ⟨name, rest, rfl⟩ := List.exists_cons_of_ne_nil hfull
      obtain ⟨entry, hchild⟩ := h.exists_child hfind
      exact ⟨(name, entry), h.mem_children.mpr hchild, (h.mem_branch hchild).mpr ⟨rest, rfl, hfind⟩⟩
    · rintro ⟨⟨name, entry⟩, hentry, hmem⟩
      obtain ⟨rest, rfl, hfind⟩ := (h.mem_branch (h.mem_children.mp hentry)).mp hmem
      exact ⟨List.cons_ne_nil _ _, hfind⟩

theorem fileCount_file (hfile : files.find? location ≠ some .dir) : files.fileCount location = 0 := by
  unfold fileCount
  refine List.countP_eq_zero.mpr ?_
  rintro ⟨names, below⟩ hmem
  obtain ⟨hfull, hfind⟩ := h.mem_subtree.mp hmem
  exact absurd (h.dir_of_append hfull hfind) hfile

theorem countP_branch (hfind : files.find? (location ++ [name]) = some entry) :
    (files.branch location (name, entry)).countP (fun below => below.2 ≠ .dir) =
      files.entryCount location (name, entry) := by
  unfold branch entryCount
  rw [List.countP_cons, List.countP_map]
  show files.fileCount (location ++ [name]) + (if decide (entry ≠ .dir) = true then 1 else 0) = _
  by_cases hdir : entry = .dir
  · rw [if_pos hdir, if_neg (by simp [hdir])]
    rfl
  · have hnone : files.fileCount (location ++ [name]) = 0 := h.fileCount_file (by simp [hfind, hdir])
    rw [if_neg hdir, if_pos (by simp [hdir]), hnone]

theorem countP_branches {entries : List (Raw × Entry)}
    (hentries : ∀ entry ∈ entries, files.find? (location ++ [entry.1]) = some entry.2) :
    (entries.flatMap (files.branch location)).countP (fun below => below.2 ≠ .dir) =
      files.entriesCount location entries := by
  induction entries with
  | nil => rfl
  | cons entry entries ih =>
    obtain ⟨hentry, hentries⟩ := List.forall_mem_cons.mp hentries
    rw [List.flatMap_cons, List.countP_append, h.countP_branch hentry, ih hentries]
    rfl

/-- **The files below a location are those among its entries and those below them.** -/
theorem fileCount_eq_entriesCount (location : Location) :
    files.fileCount location = files.entriesCount location (files.children location) := by
  unfold fileCount
  rw [(h.subtree_perm location).countP_eq]
  exact h.countP_branches fun entry hentry => h.mem_children.mp hentry

theorem fileCount_congr (h' : files'.Proper)
    (hsame : ∀ rest, files'.find? (location ++ rest) = files.find? (location ++ rest)) :
    files'.fileCount location = files.fileCount location := by
  have hperm : (files'.subtree location).Perm (files.subtree location) := by
    refine (List.perm_ext_iff_of_nodup (h'.nodup_subtree location) (h.nodup_subtree location)).mpr ?_
    rintro ⟨names, entry⟩
    rw [h'.mem_subtree, h.mem_subtree, hsame]
  exact hperm.countP_eq _

/-- Entries stand for as many files as before, if nothing has changed in them. -/
theorem entriesCount_congr {entries : List (Raw × Entry)} (h' : files'.Proper)
    (hsame : ∀ entry ∈ entries, ∀ rest,
      files'.find? (location ++ [entry.1] ++ rest) = files.find? (location ++ [entry.1] ++ rest)) :
    files'.entriesCount location entries = files.entriesCount location entries := by
  induction entries with
  | nil => rfl
  | cons entry entries ih =>
    obtain ⟨hentry, hentries⟩ := List.forall_mem_cons.mp hsame
    unfold entriesCount entryCount
    rw [h.fileCount_congr h' hentry, ih hentries]

end Proper

end Bindery.Files
