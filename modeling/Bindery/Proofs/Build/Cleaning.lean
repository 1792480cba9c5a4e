import Bindery.Proofs.Build.Work
import Bindery.Proofs.Files.Removing

/-!
# `Proofs.Build.Cleaning` — an empty directory to start with

Emptying a directory goes through what is in it, entry by entry. One step takes an entry away with everything below
it and touches nothing else (`run_removeEntry`); whatever becomes of the steps, what is not below the directory stays
as it is, and if all of them end well there is nothing left (`run_removeEntries`). The order of the entries makes no
difference to that.

There is one exception. The path of the directory may go through what is in the directory. Then it leads nowhere any
more when that is taken away, so that no further entry can be, and the last one may be left as an empty directory.
Which one that is depends only on the way of the path (`sweep_unique`), not on what else there was.

Both ways, of emptying a directory and of making it, lead to the same tree (`Emptied`): what look-up finds in it does
not depend on what was below the directory, nor on whether the directory was there at all. Nothing else changes but
that directories on the way are made (`Spared`).

**Contents.**
* `Spared`, a preorder on trees with `Within` in it;
* `Taken` and `run_removeEntry`, one step; `Swept` and `run_removeEntries`, the steps together;
* `emptyDir_cases`, `run_emptyDir` — what a run can do, and to what it leads;
* `Emptied`, the tree after a directory has been emptied, with `Emptied.unique` and `emptyDir_unique`.
-/

namespace Bindery.Build

open Files (Entry Ground Paved Below Linkless Roads Thinned)

variable {files files' : Files} {root path : Path} {base location place : Location} {area names : List Raw}
  {name : Raw} {order : Files.Order}

/-- Nothing has changed but what is below the directory of a build, and directories on the way to it may
have been made. -/
structure Spared (base : Location) (area : List Raw) (files files' : Files) : Prop where
  proper : files'.Proper
  home : files'.home = files.home
  plain : Linkless files' base
  same : ∀ location, ¬Below (base ++ area) location → files'.find? location = files.find? location ∨
    files.find? location = none ∧ files'.find? location = some .dir ∧ location <+: base ++ area

namespace Spared

theorem refl (hproper : files.Proper) (hplain : Linkless files base) : Spared base area files files :=
  ⟨hproper, rfl, hplain, fun _ _ => .inl rfl⟩

theorem trans {files'' : Files} (h : Spared base area files files')
    (h' : Spared base area files' files'') : Spared base area files files'' where
  proper := h'.proper
  home := h'.home.trans h.home
  plain := h'.plain
  same := fun location hout => Files.made_trans (h.same location hout) (h'.same location hout)

theorem of_within (h : Within root base area files files') : Spared base area files files' where
  proper := h.ground.proper
  home := h.home
  plain := h.ground.plain
  same := fun location hout => .inl (h.same location hout)

theorem of_paved (h : Paved files files' root base area) : Spared base area files files' where
  proper := h.ground.proper
  home := h.home
  plain := h.ground.plain
  same := fun location _ => h.on_way location

end Spared

section Entries

variable {dir : Path}

/-! ## One entry -/

theorem removeTree_run (path : Path) (files : Files) :
    (removeTree path).run files =
      match files.removeTree path with
      | (.ok (), left) => (.ok (), left)
      | (.error fault, left) => (.error (.files .removing path fault), left) :=
  run_step (Files.removeTree path) (.files .removing path) files

/-- An entry of a directory has been taken away. Only if the path of the directory leads nowhere once what is below
the entry has gone, an empty directory is left. -/
def Taken (dir : Path) (place : Location) (name : Raw) (files files' : Files) : Prop :=
  (files.clear (place ++ [name])).Leads dir place ∧
      (∀ location, files'.find? location = if place ++ [name] <+: location then none else files.find? location) ∨
    files' = files.clear (place ++ [name]) ∧ files.find? (place ++ [name]) = some .dir ∧ ¬files'.Leads dir place

theorem find?_remove_clear (location : Location) :
    ((files.clear (place ++ [name])).remove (place ++ [name])).find? location =
      if place ++ [name] <+: location then none else files.find? location := by
  have hfull : place ++ [name] ≠ [] := by simp
  by_cases hself : location = place ++ [name]
  · rw [hself, if_pos List.prefix_rfl, Files.find?_remove_self hfull]
  · rw [Files.find?_remove_of_ne hself]
    by_cases hbelow : Below (place ++ [name]) location
    · rw [if_pos (Files.prefix_iff.mpr (.inr hbelow)), Files.find?_clear_of_below hbelow]
    · rw [if_neg fun hway => hbelow ((Files.prefix_iff.mp hway).resolve_left hself),
        Files.find?_clear_of_not_below hbelow]

theorem Taken.of_clear (hstill : (files.clear (place ++ [name])).Leads dir place) :
    Taken dir place name files ((files.clear (place ++ [name])).remove (place ++ [name])) :=
  .inl ⟨hstill, find?_remove_clear⟩

/-- What is taken away as a directory. -/
theorem run_removeTree {result : Except Fault Unit} (hproper : files.Proper) (hname : Path.IsName name)
    (hsame : ∀ location, files.Leads dir location → location = place)
    (hdir : files.find? (place ++ [name]) = some .dir)
    (h : (removeTree (dir.join ⟨name⟩)).run files = (result, files')) :
    Thinned (place ++ [name] <+: ·) files files' ∧
      (result = .ok () → files.Leads dir place ∧ Taken dir place name files files') := by
  rw [removeTree_run] at h
  have hclear : Thinned (place ++ [name] <+: ·) files (files.clear (place ++ [name])) :=
    (Thinned.clear hproper _).mono fun _ hbelow => Files.prefix_iff.mpr (.inr hbelow)
  cases hremove : files.removeTree (dir.join ⟨name⟩) with
  | mk outcome left =>
    rw [hremove] at h
    have hleft : files' = left ∧ (result = .ok () → outcome = .ok ()) := by
      cases outcome with
      | ok done =>
        cases h
        exact ⟨rfl, fun _ => rfl⟩
      | error fault =>
        cases h
        exact ⟨rfl, nofun⟩
    obtain ⟨rfl, houtcome⟩ := hleft
    rcases Files.removeTree_cases hproper hname hsame hdir hremove with
      ⟨rfl, hfails⟩ | ⟨hleads, ⟨rfl, hstill⟩ | ⟨rfl, hlost⟩⟩
    · exact ⟨.refl hproper, fun hok => absurd (houtcome hok) hfails⟩
    · refine ⟨hclear.trans (.remove hclear.proper fun next => ?_), fun _ => ⟨hleads, .of_clear hstill⟩⟩
      exact Files.find?_clear_of_below Files.below_concat _
    · exact ⟨hclear, fun hok => ⟨hleads, .inr ⟨rfl, hdir, hlost (houtcome hok)⟩⟩⟩

/-- What is taken away by itself. -/
theorem run_unlink {result : Except Fault Unit} (hproper : files.Proper) (hname : Path.IsName name)
    (hsame : ∀ location, files.Leads dir location → location = place)
    (hfile : files.find? (place ++ [name]) ≠ some .dir)
    (h : (Work.change .removing (dir.join ⟨name⟩) (Files.unlink (dir.join ⟨name⟩))).run files = (result, files')) :
    Thinned (place ++ [name] <+: ·) files files' ∧
      (result = .ok () → files.Leads dir place ∧ Taken dir place name files files') := by
  rcases (Work.run_change h).symm with ⟨hfault, rfl⟩ | ⟨rfl, hunlink⟩
  · exact ⟨.refl hproper, fun hok => absurd hok (hfault ())⟩
  obtain ⟨location, hleads⟩ := Files.leads_of_unlink hname hunlink
  cases hsame _ hleads
  have hnone := hproper.none_of_not_dir hfile
  have hremoved : files' = files.remove (place ++ [name]) := by
    rcases hleads.unlink_cases hname with ⟨entry, -, -, hok⟩ | ⟨-, hfails⟩ | ⟨fault, hfails, -⟩
    · exact Except.ok.inj (hunlink.symm.trans hok)
    · cases hfails.symm.trans hunlink
    · cases hfails.symm.trans hunlink
  -- nothing is below it, so it may as well be cleared
  have hclear : files.clear (place ++ [name]) = files := by
    refine Files.clear_eq_self hproper fun location hbelow => ?_
    obtain ⟨next, rest, rfl⟩ := hbelow
    cases hfind : files.find? (place ++ [name] ++ next :: rest) with
    | none => rfl
    | some entry =>
      exact absurd (hproper.dir_of_append (List.cons_ne_nil _ _) hfind) hfile
  subst hremoved
  refine ⟨.remove hproper hnone, fun _ => ⟨hleads, ?_⟩⟩
  have htaken : Taken dir place name files ((files.clear (place ++ [name])).remove (place ++ [name])) :=
    .of_clear (by rwa [hclear])
  rwa [hclear] at htaken

/-- **One step takes one entry away.** Whatever becomes of it, nothing else is touched. -/
theorem run_removeEntry {result : Except Fault Unit} (hproper : files.Proper) (hname : Path.IsName name)
    (hsame : ∀ location, files.Leads dir location → location = place)
    (h : (removeEntry dir place name).run files = (result, files')) :
    Thinned (place ++ [name] <+: ·) files files' ∧
      (result = .ok () → files.Leads dir place ∧ Taken dir place name files files') := by
  rcases Work.run_bind_cases h with ⟨fault, hlook, rfl⟩ | ⟨entry, files₁, hlook, hrest⟩
  · obtain ⟨rfl, -⟩ := Work.run_look hlook
    exact ⟨.refl hproper, nofun⟩
  obtain ⟨rfl, hentry⟩ := Work.run_look hlook
  have hfind : files₁.find? (place ++ [name]) = some entry := by
    have hentry := hentry entry rfl
    unfold Files.entryIn at hentry
    split at hentry
    · next entry' hfind =>
      cases hentry
      exact hfind
    · cases hentry
  cases entry with
  | dir => exact run_removeTree hproper hname hsame hfind hrest
  | file content executable => exact run_unlink hproper hname hsame (by rw [hfind]; nofun) hrest
  | link target => exact run_unlink hproper hname hsame (by rw [hfind]; nofun) hrest

theorem Taken.none_below (h : Taken dir place name files files') (hbelow : Below (place ++ [name]) location) :
    files'.find? location = none := by
  rcases h with ⟨-, hfound⟩ | ⟨rfl, -, -⟩
  · rw [hfound, if_pos (Files.prefix_iff.mpr (.inr hbelow))]
  · exact Files.find?_clear_of_below hbelow _

theorem Taken.none_or_lost (h : Taken dir place name files files') :
    files'.find? (place ++ [name]) = none ∨
      files'.find? (place ++ [name]) = some .dir ∧ ¬files'.Leads dir place := by
  rcases h with ⟨-, hfound⟩ | ⟨rfl, hdir, hlost⟩
  · left
    rw [hfound, if_pos List.prefix_rfl]
  · refine .inr ⟨?_, hlost⟩
    rw [Files.find?_clear_of_not_below ?_, hdir]
    rintro ⟨next, rest, heq⟩
    simp at heq

/-! ## Entry by entry -/

/-- Where something is in a directory under a name, it is not under another one. -/
theorem not_prefix_of_ne {other : Raw} (hne : other ≠ name) : ¬place ++ [name] <+: place ++ [other] := by
  intro hway
  have heq := List.IsPrefix.eq_of_length hway (by simp)
  exact hne (by simpa using heq.symm)

/-- The entries under some names have been taken away from a directory. An empty directory may be left if the path
leads nowhere any more. -/
def Stripped (dir : Path) (place : Location) (name : Raw) (files : Files) : Prop :=
  (∀ location, Below (place ++ [name]) location → files.find? location = none) ∧
    (files.find? (place ++ [name]) = none ∨
      files.find? (place ++ [name]) = some .dir ∧ ¬files.Leads dir place)

theorem Stripped.of_taken (h : Taken dir place name files files') : Stripped dir place name files' :=
  ⟨fun _ hbelow => h.none_below hbelow, h.none_or_lost⟩

theorem Stripped.thinned {gone : Location → Prop} (h : Stripped dir place name files)
    (hthinned : Thinned gone files files') (hout : ¬gone (place ++ [name])) : Stripped dir place name files' := by
  refine ⟨fun location hbelow => hthinned.still_none (h.1 location hbelow), ?_⟩
  rw [hthinned.kept hout]
  exact h.2.imp id fun ⟨hdir, hlost⟩ => ⟨hdir, fun hleads => hlost (hthinned.leads hleads)⟩

/-- **The steps together take away what is in a directory,** in whatever order. Whatever becomes of them, what is
not below the directory stays as it is. -/
theorem run_removeEntries {result : Except Fault Unit} (hproper : files.Proper)
    (hsame : ∀ location, files.Leads dir location → location = place)
    (hnames : ∀ name ∈ names, Path.IsName name) (hnodup : names.Nodup)
    (h : (names.forM (removeEntry dir place)).run files = (result, files')) :
    Thinned (fun location => ∃ name ∈ names, place ++ [name] <+: location) files files' ∧
      (result = .ok () → ∀ name ∈ names, Stripped dir place name files') := by
  induction names generalizing files with
  | nil =>
    obtain ⟨-, rfl⟩ := Work.run_pure h
    exact ⟨.refl hproper, fun _ name hmem => absurd hmem List.not_mem_nil⟩
  | cons name names ih =>
    have h : (removeEntry dir place name >>= fun _ => names.forM (removeEntry dir place)).run files =
      (result, files') := h
    have hname := hnames name List.mem_cons_self
    obtain ⟨hfresh, hnodup⟩ := List.nodup_cons.mp hnodup
    rcases Work.run_bind_cases h with ⟨fault, hstep, rfl⟩ | ⟨done, files₁, hstep, hrest⟩
    · obtain ⟨hthinned, -⟩ := run_removeEntry hproper hname hsame hstep
      exact ⟨hthinned.mono fun _ hway => ⟨name, List.mem_cons_self, hway⟩, nofun⟩
    obtain ⟨hthinned, htaken⟩ := run_removeEntry hproper hname hsame hstep
    obtain ⟨hthinned', hstripped⟩ := ih hthinned.proper (fun location hleads => hsame _ (hthinned.leads hleads))
      (fun name' hmem => hnames name' (List.mem_cons_of_mem _ hmem)) hnodup hrest
    refine ⟨(hthinned.mono fun _ hway => ⟨name, List.mem_cons_self, hway⟩).trans
      (hthinned'.mono fun _ ⟨other, hmem, hway⟩ => ⟨other, List.mem_cons_of_mem _ hmem, hway⟩), fun hok => ?_⟩
    intro name' hmem
    rcases List.mem_cons.mp hmem with rfl | hmem
    · -- what comes after it has other names
      refine (Stripped.of_taken (htaken rfl).2).thinned hthinned' ?_
      rintro ⟨other, hother, hway⟩
      refine not_prefix_of_ne ?_ hway
      rintro rfl
      exact hfresh hother
    · exact hstripped hok name' hmem

/-! ## Emptying a directory that is there -/

theorem mem_arrange (hproper : files.Proper) (order : Files.Order) :
    name ∈ order.arrange (files.names place) ↔ ∃ entry, files.find? (place ++ [name]) = some entry := by
  rw [(order.perm _).mem_iff]
  unfold Files.names
  rw [List.mem_map]
  constructor
  · rintro ⟨⟨_, entry⟩, hmem, rfl⟩
    exact ⟨entry, hproper.mem_children.mp hmem⟩
  · rintro ⟨entry, hfind⟩
    exact ⟨(name, entry), hproper.mem_children.mpr hfind, rfl⟩

theorem nodup_arrange (hproper : files.Proper) (order : Files.Order) (place : Location) :
    (order.arrange (files.names place)).Nodup := by
  rw [(order.perm _).nodup_iff]
  refine List.Pairwise.map _ (fun _ _ h => h) ((hproper.children_sorted place).imp fun hlt heq => ?_)
  rw [heq] at hlt
  exact Std.lt_irrefl hlt

theorem isName_of_mem_arrange (hproper : files.Proper) (hmem : name ∈ order.arrange (files.names place)) :
    Path.IsName name := by
  obtain ⟨entry, hfind⟩ := (mem_arrange hproper order).mp hmem
  exact hproper.isName hfind name (by simp)

/-- A directory has been swept: nothing is left in it, unless its path leads nowhere any more. Then there may be
empty directories. -/
structure Swept (dir : Path) (place : Location) (files : Files) : Prop where
  hollow : ∀ location, Below place location → files.find? location = none ∨ files.find? location = some .dir
  empty : files.Leads dir place → ∀ location, Below place location → files.find? location = none

/-- **A directory is emptied and nothing else is touched,** in whatever order it gives its names. -/
theorem run_sweep {result : Except Fault Unit} (hproper : files.Proper) (hleads : files.Leads dir place)
    (h : ((order.arrange (files.names place)).forM (removeEntry dir place)).run files = (result, files')) :
    Thinned (Below place) files files' ∧ (result = .ok () → Swept dir place files') := by
  obtain ⟨hthinned, hstripped⟩ := run_removeEntries hproper (fun location h => h.unique hleads)
    (fun name hmem => isName_of_mem_arrange hproper hmem) (nodup_arrange hproper order place) h
  refine ⟨hthinned.mono fun _ ⟨name, _, hway⟩ => Files.below_of_prefix_concat hway, fun hok => ?_⟩
  -- what is left is under a name that was there, and has been taken away
  have hname {first : Raw} {rest : List Raw} {entry : Entry}
      (hfind : files'.find? (place ++ first :: rest) = some entry) : Stripped dir place first files' := by
    obtain ⟨entry', hchild⟩ := hthinned.proper.exists_child hfind
    exact hstripped hok first ((mem_arrange hproper order).mpr ⟨entry', hthinned.left hchild⟩)
  constructor
  · rintro location ⟨first, rest, rfl⟩
    cases hfind : files'.find? (place ++ first :: rest) with
    | none => exact .inl rfl
    | some entry =>
      obtain ⟨hbelow, hself⟩ := hname hfind
      cases rest with
      | nil =>
        rw [hfind] at hself
        rcases hself with hnone | ⟨hdir, -⟩
        · cases hnone
        · exact .inr hdir
      | cons next rest =>
        rw [hbelow _ ⟨next, rest, by simp⟩] at hfind
        cases hfind
  · rintro hstill location ⟨first, rest, rfl⟩
    cases hfind : files'.find? (place ++ first :: rest) with
    | none => rfl
    | some entry =>
      obtain ⟨hbelow, hself⟩ := hname hfind
      have hnone : files'.find? (place ++ [first]) = none :=
        hself.resolve_right fun ⟨_, hlost⟩ => hlost hstill
      cases rest with
      | nil =>
        rw [hnone] at hfind
        cases hfind
      | cons next rest =>
        rw [hbelow _ ⟨next, rest, by simp⟩] at hfind
        cases hfind

theorem emptyDir_run (dir : Path) (order : Files.Order) (files : Files) :
    (emptyDir dir order).run files =
      (if files.has dir then do
        let location ← Work.look .reading dir fun files => files.openDir dir
        (order.arrange (files.names location)).forM (removeEntry dir location)
      else makeDirs dir).run files :=
  Work.run_get (fun files => if files.has dir then do
    let location ← Work.look .reading dir fun files => files.openDir dir
    (order.arrange (files.names location)).forM (removeEntry dir location)
  else makeDirs dir) files

/-- A path that names something cannot be made into a directory. -/
theorem makeDirs_fails {entry : Entry} (hground : files.Ground root base) (hbelow : root.IsBelow area path)
    (hfind : files.find? (base ++ area) = some entry) (hno : files.isDirectory path = false) :
    ∃ fault, files.makeDirs path = (.error fault, files) := by
  obtain ⟨init, name, rfl⟩ := Path.eq_concat hbelow.full
  have haround : files.find? (base ++ init) = some .dir :=
    hground.proper.closed _ _ _ ((List.append_assoc _ _ _).symm ▸ hfind)
  have hplace : files.place path = files.walkFor false path (root.stops ++ (init ++ [name])) := by
    unfold Files.place
    rw [hbelow.bare]
  have hmake : ∃ fault, files.makeDir path = .error fault ∧ fault ≠ .notFound := by
    unfold Files.makeDir
    rw [hplace]
    rcases hground.walkFor_or_long hbelow haround with hwalk | hwalk | hwalk
    · rw [hwalk, Files.spotAt_eq hfind]
      exact ⟨_, rfl, nofun⟩
    · rw [hwalk]
      exact ⟨_, rfl, nofun⟩
    · rw [hwalk]
      exact ⟨_, rfl, nofun⟩
  obtain ⟨fault, hmake, hother⟩ := hmake
  have hensure : files.ensureDir path = (.error fault, files) := by
    unfold Files.ensureDir
    rw [hmake, hno]
    rfl
  exact ⟨fault, Files.makeDirsUpTo_succ hbelow.isEmpty hensure fun heq => hother (Except.error.inj heq)⟩


/-- A directory that is there is emptied, and one whose path leads nowhere is made. -/
theorem emptyDir_cases {result : Except Fault Unit} (h : (emptyDir dir order).run files = (result, files')) :
    (∃ place, files.spot true dir = .ok (.present place .dir) ∧
        ((order.arrange (files.names place)).forM (removeEntry dir place)).run files = (result, files')) ∨
      (files' = files ∧ result ≠ .ok ()) ∨
        (files.has dir = false ∧
          ∃ outcome, files.makeDirs dir = (outcome, files') ∧ (result = .ok () → outcome = .ok ())) := by
  rw [emptyDir_run] at h
  cases hhas : files.has dir with
  | true =>
    rw [hhas, if_pos rfl] at h
    rcases Work.run_bind_cases h with ⟨fault, hlook, rfl⟩ | ⟨place, files₁, hlook, hsteps⟩
    · obtain ⟨rfl, -⟩ := Work.run_look hlook
      exact .inr (.inl ⟨rfl, nofun⟩)
    · obtain ⟨rfl, hopen⟩ := Work.run_look hlook
      obtain ⟨spot, hspot, hopen⟩ := bind_eq_ok.mp (hopen place rfl)
      cases spot with
      | absent location => cases hopen
      | present location entry =>
        cases entry with
        | dir =>
          cases hopen
          exact .inl ⟨place, hspot, hsteps⟩
        | file content executable => cases hopen
        | link target => cases hopen
  | false =>
    rw [hhas, if_neg Bool.false_ne_true] at h
    exact .inr (.inr ⟨rfl, makeDirs_outcome h⟩)

end Entries

/-! ## The directory of a build -/

theorem not_below_self : ¬Below location location := by
  rintro ⟨name, rest, heq⟩
  simp at heq

theorem not_below_of_above (hway : location <+: place) : ¬Below place location := by
  rintro ⟨name, rest, rfl⟩
  exact absurd hway.length_le (by simp)

/-- The directory of a build is there, and nothing outside of it has changed. The root leads nowhere else than
before, and if it still leads anywhere, the directory is empty. -/
structure Emptied (root : Path) (base : Location) (area : List Raw) (files files' : Files) : Prop where
  proper : files'.Proper
  home : files'.home = files.home
  plain : Linkless files' base
  leads : ∀ location, files'.Leads root location → location = base
  found : ∀ location, ¬Below (base ++ area) location → files'.find? location =
    if location <+: base ++ area then some .dir else files.find? location
  empty : ∀ location, files'.Leads root location → ∀ place, Below (base ++ area) place → files'.find? place = none

theorem Emptied.dir (h : Emptied root base area files files') : files'.find? (base ++ area) = some .dir := by
  rw [h.found _ not_below_self, if_pos List.prefix_rfl]

namespace Emptied

theorem base_dir (h : Emptied root base area files files') : files'.find? base = some .dir := by
  have hway : base <+: base ++ area := List.prefix_append _ _
  rw [h.found _ (not_below_of_above hway), if_pos hway]

/-- The directory was there. -/
theorem of_swept (hground : files.Ground root base) (hdir : files.find? (base ++ area) = some .dir)
    (hnames : ∀ name ∈ area, Path.IsName name ∧ name.size ≤ Files.longestName)
    (hthinned : Thinned (Below (base ++ area)) files files')
    (hswept : Swept (root.below area) (base ++ area) files') : Emptied root base area files files' where
  proper := hthinned.proper
  home := hthinned.home
  plain := fun rest target hfind => hground.plain rest target (hthinned.left hfind)
  leads := fun location hleads => (hthinned.leads hleads).unique hground.leads
  found := by
    intro location hout
    rw [hthinned.kept hout]
    by_cases hway : location <+: base ++ area
    · rw [if_pos hway, hground.proper.dir_of_prefix hway hdir]
    · rw [if_neg hway]
  empty := by
    intro location hleads
    refine hswept.empty ?_
    cases (hthinned.leads hleads).unique hground.leads
    refine Files.Leads.below hleads hthinned.proper hnames ?_
    rw [hthinned.kept not_below_self, hdir]

/-- There was nothing in the place of the directory. -/
theorem of_paved (hground : files.Ground root base) (hpaved : Paved files files' root base area)
    (hnone : files.find? (base ++ area) = none) (hdir : files'.find? (base ++ area) = some .dir) :
    Emptied root base area files files' where
  proper := hpaved.ground.proper
  home := hpaved.home
  plain := hpaved.ground.plain
  leads := fun location hleads => hleads.unique hpaved.ground.leads
  found := by
    intro location _
    by_cases hway : location <+: base ++ area
    · rw [if_pos hway, hpaved.ground.proper.dir_of_prefix hway hdir]
    · rw [if_neg hway]
      rcases hpaved.on_way location with hsame | ⟨-, -, hway'⟩
      · exact hsame
      · exact absurd hway' hway
  empty := by
    intro _ _ location hbelow
    rcases hpaved.on_way location with hsame | ⟨-, -, hway⟩
    · rw [hsame, hground.proper.none_of_below hbelow hnone]
    · exact absurd hbelow (not_below_of_above hway)

end Emptied

/-- **Emptying a directory leads to one tree,** whatever was there. -/
theorem run_emptyDir {result : Except Fault Unit} (hground : files.Ground root base) (hfull : area ≠ [])
    (hnames : ∀ name ∈ area, Path.IsName name ∧ name.size ≤ Files.longestName)
    (h : (emptyDir (root.below area) order).run files = (result, files')) :
    Spared base area files files' ∧ (result = .ok () → Emptied root base area files files') := by
  have hbelow : root.IsBelow area (root.below area) :=
    ⟨hfull, fun name hmem => (hnames name hmem).1, .inl rfl⟩
  rcases emptyDir_cases h with ⟨place, hspot, hsteps⟩ | ⟨rfl, hfails⟩ | ⟨hhas, outcome, hmade, houtcome⟩
  · obtain ⟨rfl, hfind⟩ := Ground.find?_of_spotAt (hground.spot_eq hbelow hspot).1
    obtain ⟨hthinned, hswept⟩ := run_sweep hground.proper (Files.leads_of_spot hspot) hsteps
    refine ⟨⟨hthinned.proper, hthinned.home, fun rest target hfind => ?_, fun location hout => .inl ?_⟩,
      fun hok => .of_swept hground hfind hnames hthinned (hswept hok)⟩
    · exact hground.plain rest target (hthinned.left hfind)
    · exact hthinned.kept hout
  · exact ⟨.refl hground.proper hground.plain, fun hok => absurd hok hfails⟩
  · obtain ⟨hpaved, hdone⟩ := hground.makeDirs_eq hbelow hmade
    refine ⟨.of_paved hpaved, fun hok => .of_paved hground hpaved ?_ (hdone (houtcome hok))⟩
    -- what is there without leading anywhere would have kept the directory from being made
    cases hfind : files.find? (base ++ area) with
    | none => rfl
    | some entry =>
      have hno : files.isDirectory (root.below area) = false := by
        have htarget : files.target? (root.below area) = none :=
          Option.isNone_iff_eq_none.mp (Option.isSome_eq_false_iff.mp hhas)
        unfold Files.isDirectory
        rw [htarget]
        rfl
      obtain ⟨fault, hfails⟩ := makeDirs_fails hground hbelow hfind hno
      cases houtcome hok
      cases hfails.symm.trans hmade

end Bindery.Build
