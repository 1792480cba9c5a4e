import Bindery.Proofs.Build.View
import Bindery.Proofs.Files.Inside
import Bindery.Proofs.Text.Raw
import Mathlib.Data.List.Basic

/-!
# `Proofs.Build.Packing` — what an archive of a directory holds

The files for an archive are gathered entry by entry. One step adds what one entry stands for to what has been
gathered before (`gatherEntry_ok`): nothing, a file, or all that is in a directory. The steps together, by an
induction over how deep they go, have then added each file below the directory that belongs in the archive, in the
order of the names that lead there (`gather_ok`).

An archive is written in place twice, empty and then full, so that it is there already when the directory is gone
through; a comparison of paths leaves it out. Whether there was a file in its place before makes no difference, because
what is left out may as well not be there.

**Contents.**
* `Gathered`, `Adds` — what the entries of a directory add, with `gatherEntry_ok` and `gather_ok`;
* `Listed` and `Complete` — the files that come into an archive;
* `run_packAs` — an archive is made of the tree as it was before;
* `Archived` and `run_pack`.
-/

namespace Bindery.Build

open Files (Entry Content Ground Packed)

variable {files files' : Files} {root dir archive : Path} {base place : Location} {area names rest : List Raw}
  {name : Raw} {content type : Content} {packed gathered : List Packed}

/-! ## Gathering -/

/-- Files below a directory, each with the names that lead there. -/
abbrev Found := List (List Raw × Content)

/-- The entries for them. `names` lead to the directory from the one that is packed. -/
def Found.entries (names : List Raw) (found : Found) : List Packed :=
  found.map fun (rest, content) => packedAs (names ++ rest) content

/-- A file below a directory is gathered. -/
structure Gathered (files : Files) (archive dir : Path) (place : Location) (names rest : List Raw)
    (content : Content) : Prop where
  below : rest ≠ []
  file : ∃ executable, files.find? (place ++ rest) = some (.file content executable)
  packed : isPacked (names ++ rest) = true
  other : ¬(dir.below rest).Same archive

/-- What has been gathered before, and after that all files for which `belongs` holds, in order. -/
def Adds (names : List Raw) (belongs : List Raw → Content → Prop) (packed gathered : List Packed) : Prop :=
  ∃ found : Found, gathered = packed ++ found.entries names ∧
    (∀ rest content, (rest, content) ∈ found ↔ belongs rest content) ∧
    found.Pairwise fun left right => left.1 < right.1

namespace Adds

variable {belongs belongs' : List Raw → Content → Prop}

theorem congr (h : Adds names belongs packed gathered)
    (hsame : ∀ rest content, belongs rest content ↔ belongs' rest content) : Adds names belongs' packed gathered := by
  obtain ⟨found, hgathered, hmem, hsorted⟩ := h
  exact ⟨found, hgathered, fun rest content => (hmem rest content).trans (hsame rest content), hsorted⟩

theorem none (h : ∀ rest content, ¬belongs rest content) : Adds names belongs packed packed :=
  ⟨[], (List.append_nil _).symm, fun rest content => by simp [h rest content], .nil⟩

theorem one (h : ∀ rest' content', belongs rest' content' ↔ rest' = rest ∧ content' = content) :
    Adds names belongs packed (packed ++ [packedAs (names ++ rest) content]) :=
  ⟨[(rest, content)], rfl, fun rest' content' => by simp [h rest' content'], List.pairwise_singleton _ _⟩

/-- What is added first comes first. -/
theorem append {more : List Packed} (h : Adds names belongs packed gathered)
    (h' : Adds names belongs' gathered more)
    (hlt : ∀ rest content rest' content', belongs rest content → belongs' rest' content' → rest < rest') :
    Adds names (fun rest content => belongs rest content ∨ belongs' rest content) packed more := by
  obtain ⟨found, rfl, hmem, hsorted⟩ := h
  obtain ⟨found', rfl, hmem', hsorted'⟩ := h'
  refine ⟨found ++ found', ?_, fun rest content => ?_, List.pairwise_append.mpr ⟨hsorted, hsorted', ?_⟩⟩
  · rw [List.append_assoc]
    unfold Found.entries
    rw [List.map_append]
  · rw [List.mem_append, hmem, hmem']
  · rintro ⟨rest, content⟩ hleft ⟨rest', content'⟩ hright
    exact hlt _ _ _ _ ((hmem _ _).mp hleft) ((hmem' _ _).mp hright)

/-- What has been added in a directory has been added around it. -/
theorem cons (h : Adds (names ++ [name]) belongs packed gathered) :
    Adds names (fun rest content => ∃ inner, rest = name :: inner ∧ belongs inner content) packed gathered := by
  obtain ⟨found, rfl, hmem, hsorted⟩ := h
  refine ⟨found.map fun (rest, content) => (name :: rest, content), ?_, fun rest content => ?_, ?_⟩
  · unfold Found.entries
    rw [List.map_map]
    refine congrArg _ (List.map_congr_left fun ⟨rest, content⟩ _ => ?_)
    show packedAs (names ++ [name] ++ rest) content = packedAs (names ++ name :: rest) content
    rw [List.append_assoc]
    rfl
  · rw [List.mem_map]
    constructor
    · rintro ⟨⟨inner, content'⟩, hinner, heq⟩
      cases heq
      exact ⟨inner, rfl, (hmem _ _).mp hinner⟩
    · rintro ⟨inner, rfl, hbelongs⟩
      exact ⟨(inner, content), (hmem _ _).mpr hbelongs, rfl⟩
  · rw [List.pairwise_map]
    exact hsorted.imp fun hlt => List.cons_lt_cons_iff.mpr (.inr ⟨rfl, hlt⟩)

end Adds

theorem Gathered.name_eq {entry : Entry} {inner : List Raw} (hproper : files.Proper)
    (hentry : files.find? (place ++ [name]) = some entry)
    (h : Gathered files archive dir place names (name :: inner) content) :
    entry = .dir ∧ inner ≠ [] ∨ inner = [] ∧ ∃ executable, entry = .file content executable := by
  obtain ⟨executable, hfile⟩ := h.file
  by_cases hinner : inner = []
  · subst hinner
    rw [hentry] at hfile
    exact .inr ⟨rfl, executable, Option.some.inj hfile⟩
  · rw [List.append_cons] at hfile
    rw [hproper.dir_of_append hinner hfile] at hentry
    exact .inl ⟨(Option.some.inj hentry).symm, hinner⟩

/-- What is gathered by way of a directory is what is gathered in it. -/
theorem gathered_cons_iff {inner : List Raw} (hinner : inner ≠ []) :
    Gathered files archive dir place names (name :: inner) content ↔
      Gathered files archive (dir.join ⟨name⟩) (place ++ [name]) (names ++ [name]) inner content := by
  have hplace : place ++ name :: inner = place ++ [name] ++ inner := List.append_cons ..
  have hnames : names ++ name :: inner = names ++ [name] ++ inner := List.append_cons ..
  constructor
  · rintro ⟨-, hfile, hpacked, hother⟩
    exact ⟨hinner, hplace ▸ hfile, hnames ▸ hpacked, hother⟩
  · rintro ⟨-, hfile, hpacked, hother⟩
    exact ⟨List.cons_ne_nil _ _, hplace ▸ hfile, hnames ▸ hpacked, hother⟩

section Entries

variable {deeper : Path → List Raw → List Packed → Gathering} {entry : Entry}

/-- **One entry adds what it stands for.** -/
theorem gatherEntry_ok (hproper : files.Proper) (hleads : files.Leads dir place)
    (hentry : files.find? (place ++ [name]) = some entry)
    (hdeeper : ∀ packed gathered, files.find? (place ++ [name]) = some .dir →
      deeper (dir.join ⟨name⟩) (names ++ [name]) packed = .ok gathered →
      Adds (names ++ [name])
        (Gathered files archive (dir.join ⟨name⟩) (place ++ [name]) (names ++ [name])) packed gathered)
    (h : gatherEntry files archive deeper dir names packed (name, entry) = .ok gathered) :
    Adds names (fun rest content => rest.head? = some name ∧ Gathered files archive dir place names rest content)
      packed gathered := by
  have hname : Path.IsName name := hproper.isName hentry name (by simp)
  cases entry with
  | dir =>
    refine (hdeeper packed gathered hentry h).cons.congr fun rest content => ?_
    constructor
    · rintro ⟨inner, rfl, hinner⟩
      exact ⟨rfl, (gathered_cons_iff hinner.below).mpr hinner⟩
    · rintro ⟨hhead, hgathered⟩
      obtain ⟨inner, rfl⟩ := List.head?_eq_some_iff.mp hhead
      rcases hgathered.name_eq hproper hentry with ⟨-, hinner⟩ | ⟨-, _, hcontra⟩
      · exact ⟨inner, rfl, (gathered_cons_iff hinner).mp hgathered⟩
      · cases hcontra
  | link target =>
    cases h
    refine .none fun rest content => ?_
    rintro ⟨hhead, hgathered⟩
    obtain ⟨inner, rfl⟩ := List.head?_eq_some_iff.mp hhead
    rcases hgathered.name_eq hproper hentry with ⟨hcontra, -⟩ | ⟨-, _, hcontra⟩
    · cases hcontra
    · cases hcontra
  | file content executable =>
    have honly {rest : List Raw} {content' : Content} (hhead : rest.head? = some name)
        (hgathered : Gathered files archive dir place names rest content') :
        rest = [name] ∧ content' = content := by
      obtain ⟨inner, rfl⟩ := List.head?_eq_some_iff.mp hhead
      rcases hgathered.name_eq hproper hentry with ⟨hcontra, -⟩ | ⟨rfl, _, heq⟩
      · cases hcontra
      · cases heq
        exact ⟨rfl, rfl⟩
    unfold gatherEntry at h
    dsimp only at h
    split at h
    · next hskip =>
      cases h
      refine .none fun rest content' => ?_
      rintro ⟨hhead, hgathered⟩
      obtain ⟨rfl, rfl⟩ := honly hhead hgathered
      -- it is left out under its path, or by its names
      rw [Bool.or_eq_true, decide_eq_true_iff, Bool.not_eq_true'] at hskip
      rcases hskip with hsame | hnot
      · exact hgathered.other hsame
      · rw [hgathered.packed] at hnot
        cases hnot
    · next hkeep =>
      rw [Bool.or_eq_true, not_or, decide_eq_true_iff, Bool.not_eq_true', Bool.not_eq_false] at hkeep
      split at h
      · next content' hread =>
        cases h
        obtain ⟨spot, hspot, hcontent⟩ := bind_eq_ok.mp hread
        cases hleads.inside_eq hname (by simp [hentry]) hspot
        rw [Files.spotAt_eq hentry] at hcontent
        cases hcontent
        refine .one fun rest content' => ⟨fun ⟨hhead, hgathered⟩ => honly hhead hgathered, ?_⟩
        rintro ⟨rfl, rfl⟩
        exact ⟨rfl, List.cons_ne_nil _ _, ⟨executable, hentry⟩, hkeep.2, hkeep.1⟩
      · cases h

/-- The entries of a directory, which are in the order of their names, add what they stand for together. -/
theorem gatherEntries_ok {entries : List (Raw × Entry)} (hproper : files.Proper) (hleads : files.Leads dir place)
    (hentries : ∀ entry ∈ entries, files.find? (place ++ [entry.1]) = some entry.2)
    (hsorted : entries.Pairwise fun left right => left.1 < right.1)
    (hdeeper : ∀ name packed gathered, files.find? (place ++ [name]) = some .dir →
      deeper (dir.join ⟨name⟩) (names ++ [name]) packed = .ok gathered →
      Adds (names ++ [name])
        (Gathered files archive (dir.join ⟨name⟩) (place ++ [name]) (names ++ [name])) packed gathered)
    (h : entries.foldlM (gatherEntry files archive deeper dir names) packed = .ok gathered) :
    Adds names (fun rest content => (∃ entry ∈ entries, rest.head? = some entry.1) ∧
      Gathered files archive dir place names rest content) packed gathered := by
  induction entries generalizing packed with
  | nil =>
    cases h
    exact .none fun rest content => by simp
  | cons entry entries ih =>
    obtain ⟨name, entry⟩ := entry
    obtain ⟨hbefore, hsorted⟩ := List.pairwise_cons.mp hsorted
    rw [List.foldlM_cons] at h
    obtain ⟨packed₁, hfirst, hmore⟩ := bind_eq_ok.mp h
    have hfirst := gatherEntry_ok hproper hleads (hentries _ List.mem_cons_self) (hdeeper name) hfirst
    have hmore := ih (fun entry hmem => hentries entry (List.mem_cons_of_mem _ hmem)) hsorted hmore
    refine (hfirst.append hmore ?_).congr fun rest content => ?_
    · rintro rest content rest' content' ⟨hhead, -⟩ ⟨⟨later, hmem, hhead'⟩, -⟩
      obtain ⟨inner, rfl⟩ := List.head?_eq_some_iff.mp hhead
      obtain ⟨inner', rfl⟩ := List.head?_eq_some_iff.mp hhead'
      exact List.cons_lt_cons_iff.mpr (.inl (hbefore later hmem))
    · rw [← or_and_right, List.exists_mem_cons_iff]

end Entries

/-- **Gathering adds each file below the directory that is gathered, in order.** -/
theorem gather_ok {depth : Nat} (hproper : files.Proper)
    (hspot : ∀ spot, files.spot true dir = .ok spot → spot = .present place .dir)
    (h : gather files archive depth dir names packed = .ok gathered) :
    Adds names (Gathered files archive dir place names) packed gathered := by
  induction depth generalizing dir place names packed gathered with
  | zero => cases h
  | succ depth ih =>
    unfold gather at h
    split at h
    · cases h
    next entries hlist =>
      obtain ⟨spot, hfound, hentries⟩ := bind_eq_ok.mp hlist
      cases hspot spot hfound
      cases hentries
      have hleads := Files.leads_of_spot hfound
      refine (gatherEntries_ok hproper hleads (fun entry hmem => hproper.mem_children.mp hmem)
        (hproper.children_sorted place) ?_ h).congr fun rest content => ?_
      · intro name packed gathered hdir
        have hname : Path.IsName name := hproper.isName hdir name (by simp)
        refine ih fun spot hspot => ?_
        rw [hleads.inside_eq hname (by simp [hdir]) hspot, Files.spotAt_eq hdir]
      · refine ⟨And.right, fun hgathered => ⟨?_, hgathered⟩⟩
        -- each file is under the name of one of the entries
        obtain ⟨executable, hfile⟩ := hgathered.file
        obtain ⟨first, more, rfl⟩ := List.exists_cons_of_ne_nil hgathered.below
        obtain ⟨entry, hchild⟩ := hproper.exists_child hfile
        exact ⟨(first, entry), hproper.mem_children.mpr hchild, rfl⟩

/-! ## The files that come into an archive -/

/-- A file in a directory that belongs in its archive `name`: it is not the type, not the archive, and not one of
those that are ignored. -/
structure Listed (view : View) (name : Raw) (names : List Raw) (content : Content) : Prop where
  below : names ≠ []
  file : ∃ executable, view names = some (.file content executable)
  not_type : names ≠ [(mimetype : Raw)]
  not_archive : names ≠ [name]
  not_ignored : ∀ last, names.getLast? = some last → ¬ignoredEnding.toList <:+ last.text.toList

/-- Files, each with the names that lead to it, are just those that belong in the archive `name`. -/
structure Complete (view : View) (name : Raw) (listed : Found) : Prop where
  mem_iff : ∀ names content, (names, content) ∈ listed ↔ Listed view name names content
  /-- they are in the order of the bytes of the names, one name after the other -/
  sorted : listed.Pairwise fun left right => left.1.map Raw.bytes < right.1.map Raw.bytes
  /-- where the names are texts, an entry is called by just them -/
  named : ∀ file ∈ listed, (∀ name ∈ file.1, name.IsText) →
    Raw.ofText ("/".intercalate (file.1.map Raw.text)) = (Path.ofNames file.1).raw
  /-- and where all are, no two of the entries have the same name -/
  nodup : (∀ file ∈ listed, ∀ name ∈ file.1, name.IsText) →
    (mimetype :: listed.map fun (names, _) => "/".intercalate (names.map Raw.text)).Nodup

theorem isPacked_iff (hfull : names ≠ []) :
    isPacked names = true ↔
      names ≠ [(mimetype : Raw)] ∧ ∀ last, names.getLast? = some last → ¬ignoredEnding.toList <:+ last.text.toList := by
  unfold isPacked
  rw [List.getLast?_eq_some_getLast hfull]
  simp [← List.isSuffixOf_iff_suffix]

theorem Listed.congr {view view' : View} (hsame : ∀ names, names ≠ [name] → view' names = view names)
    (h : Listed view name names content) : Listed view' name names content where
  below := h.below
  file := by
    rw [hsame names h.not_archive]
    exact h.file
  not_type := h.not_type
  not_archive := h.not_archive
  not_ignored := h.not_ignored

/-- What is in the place of the archive makes no difference. -/
theorem Complete.congr {view view' : View} {listed : Found}
    (hsame : ∀ names, names ≠ [name] → view' names = view names) (h : Complete view name listed) :
    Complete view' name listed where
  mem_iff := fun names content => (h.mem_iff names content).trans
    ⟨.congr hsame, .congr fun names hother => (hsame names hother).symm⟩
  sorted := h.sorted
  named := h.named
  nodup := h.nodup

/-- A chain of names leads to the archive exactly when it is the name of the archive. -/
theorem same_below_iff (h : ∀ name ∈ names, Path.IsName name) (hname : Path.IsName name) :
    (dir.below names).Same (dir.join ⟨name⟩) ↔ names = [name] := by
  unfold Path.Same
  rw [Path.components_below h, Path.components_join_name hname, List.append_cancel_left_eq]
  constructor
  · intro hmap
    have hinj : ∀ a b, Component.name a = .name b → a = b := fun _ _ heq => Component.name.inj heq
    exact (List.map_inj_right hinj).mp (show names.map Component.name = [name].map Component.name from hmap)
  · rintro rfl
    rfl

theorem gathered_iff_listed (hproper : files.Proper) (hname : Path.IsName name) :
    Gathered files (dir.join ⟨name⟩) dir base [] names content ↔ Listed (files.view base) name names content := by
  constructor
  · rintro ⟨hfull, ⟨executable, hfile⟩, hpacked, hother⟩
    obtain ⟨htype, hignored⟩ := (isPacked_iff hfull).mp hpacked
    have hnames : ∀ name ∈ names, Path.IsName name := fun name' hmem =>
      hproper.isName hfile name' (List.mem_append_right _ hmem)
    exact ⟨hfull, ⟨executable, hfile⟩, htype, fun heq => hother ((same_below_iff hnames hname).mpr heq), hignored⟩
  · rintro ⟨hfull, ⟨executable, hfile⟩, htype, harchive, hignored⟩
    have hnames : ∀ name ∈ names, Path.IsName name := fun name' hmem =>
      hproper.isName hfile name' (List.mem_append_right _ hmem)
    exact ⟨hfull, ⟨executable, hfile⟩, (isPacked_iff hfull).mpr ⟨htype, hignored⟩,
      fun hsame => harchive ((same_below_iff hnames hname).mp hsame)⟩

/-- The entry for names that are texts is called like the path of these names. -/
theorem ofText_intercalate (h : ∀ name ∈ names, name.IsText) :
    Raw.ofText ("/".intercalate (names.map Raw.text)) = (Path.ofNames names).raw := by
  induction names with
  | nil => rfl
  | cons name names ih =>
    obtain ⟨hname, h⟩ := List.forall_mem_cons.mp h
    cases names with
    | nil =>
      rw [List.map_singleton, String.intercalate_singleton, hname.ofText_text]
      exact (Path.slashed_singleton _).symm
    | cons next names =>
      rw [List.map_cons, List.map_cons, String.intercalate_cons_cons, Raw.ofText_append, Raw.ofText_append,
        hname.ofText_text, ← List.map_cons, ih h]
      exact (Path.slashed_cons_cons ..).symm

theorem intercalate_inj {names names' : List Raw} (h : ∀ name ∈ names, Path.IsName name)
    (h' : ∀ name ∈ names', Path.IsName name) (htext : ∀ name ∈ names, name.IsText)
    (htext' : ∀ name ∈ names', name.IsText)
    (heq : "/".intercalate (names.map Raw.text) = "/".intercalate (names'.map Raw.text)) : names = names' := by
  have hraw : (Path.ofNames names).raw = (Path.ofNames names').raw := by
    rw [← ofText_intercalate htext, heq, ofText_intercalate htext']
  exact (Path.ofNames_same_iff h h').mp (congrArg (fun raw => Path.components ⟨raw⟩) hraw)

/-- The names of the entries tell the files apart, and none is that of the type, if they are texts. -/
theorem nodup_of_listed {listed : Found} (hproper : files.Proper)
    (hlisted : ∀ names content, (names, content) ∈ listed → Listed (files.view base) name names content)
    (hsorted : listed.Pairwise fun left right => left.1 < right.1)
    (htext : ∀ file ∈ listed, ∀ name ∈ file.1, name.IsText) :
    (mimetype :: listed.map fun (names, _) => "/".intercalate (names.map Raw.text)).Nodup := by
  have hnamed : ∀ file ∈ listed, ∀ name ∈ file.1, Path.IsName name := by
    rintro ⟨names, content⟩ hmem name' hname
    obtain ⟨executable, hfile⟩ := (hlisted _ _ hmem).file
    exact hproper.isName hfile name' (List.mem_append_right _ hname)
  rw [List.nodup_cons]
  constructor
  · intro hmem
    obtain ⟨file, hfile, hname⟩ := List.mem_map.mp hmem
    refine (hlisted _ _ hfile).not_type (intercalate_inj (hnamed file hfile) (by decide) (htext file hfile) ?_ ?_)
    · exact fun name hmem => List.mem_singleton.mp hmem ▸ Raw.isText_ofText mimetype
    · rw [List.map_singleton, Raw.text_ofText, String.intercalate_singleton]
      exact hname
  · refine List.Pairwise.map _ (fun _ _ h => h) ?_
    refine hsorted.imp_of_mem fun {left right} hleft hright hlt heq => ?_
    rw [intercalate_inj (hnamed left hleft) (hnamed right hright) (htext left hleft) (htext right hright) heq] at hlt
    exact List.lt_irrefl _ hlt

/-- **What is gathered for the archive of a directory is what belongs in it.** -/
theorem gather_complete {depth : Nat} (hproper : files.Proper) (hleads : files.Leads dir base)
    (hname : Path.IsName name)
    (h : gather files (dir.join ⟨name⟩) depth dir [] packed = .ok gathered) :
    ∃ listed, Complete (files.view base) name listed ∧
      gathered = packed ++ listed.map fun (names, content) => packedAs names content := by
  obtain ⟨listed, rfl, hmem, hsorted⟩ := gather_ok hproper (fun spot => hleads.spot_eq) h
  have hlisted (names : List Raw) (content : Content) :
      (names, content) ∈ listed ↔ Listed (files.view base) name names content :=
    (hmem names content).trans (gathered_iff_listed hproper hname)
  have hbytes : ∀ left right : Raw, left < right → left.bytes < right.bytes := fun _ _ hlt => hlt
  exact ⟨listed, ⟨hlisted, hsorted.imp (List.map_lt hbytes), fun _ _ => ofText_intercalate,
    nodup_of_listed hproper (fun names content => (hlisted names content).mp) hsorted⟩, rfl⟩

/-! ## Packing -/

/-- Packs a directory once the type of the container is known. -/
def packAs (dir archive : Path) (type : Content) : Work Unit := do
  Work.change .creating archive (Files.write archive Content.empty)
  match gather (← get) archive Files.longestPath dir [] [⟨mimetype, true, type.toBytes⟩] with
  | .ok entries => Work.change .writing archive (Files.write archive (.archive entries))
  | .error (entries, fault) => do
    Work.change .writing archive (Files.write archive (.archive entries))
    Work.fail fault

theorem pack_run (dir archive : Path) (files : Files) :
    (pack dir archive).run files =
      (match files.read (dir.join ⟨mimetype⟩) with
        | .ok type => packAs dir archive type
        | .error .notFound => Work.fail (.missingSource (dir.join ⟨mimetype⟩))
        | .error fault => Work.fail (.files .reading (dir.join ⟨mimetype⟩) fault)).run files := by
  unfold pack
  refine (Work.run_get _ files).trans ?_
  generalize files.read (dir.join ⟨mimetype⟩) = outcome
  cases outcome with
  | ok type => rfl
  | error fault => cases fault <;> rfl

/-- The archive is made, and then it is filled with what has been gathered. -/
theorem packAs_cases {result : Except Fault Unit} (h : (packAs dir archive type).run files = (result, files')) :
    (files' = files ∧ result ≠ .ok ()) ∨
      ∃ files₁, files.write archive Content.empty = .ok files₁ ∧
        ((files' = files₁ ∧ result ≠ .ok ()) ∨
          ∃ entries, files₁.write archive (.archive entries) = .ok files' ∧
            (result = .ok () →
              gather files₁ archive Files.longestPath dir [] [⟨mimetype, true, type.toBytes⟩] = .ok entries)) := by
  rcases Work.run_bind_cases h with ⟨fault, hcreate, rfl⟩ | ⟨created, files₁, hcreate, hrest⟩
  · rcases Work.run_change hcreate with ⟨hcontra, -⟩ | ⟨-, rfl⟩
    · cases hcontra
    · exact .inl ⟨rfl, nofun⟩
  rcases Work.run_change hcreate with ⟨-, hwrite⟩ | ⟨hfault, -⟩
  swap
  · exact absurd rfl (hfault created)
  refine .inr ⟨files₁, hwrite, ?_⟩
  rw [Work.run_get] at hrest
  cases hgather : gather files₁ archive Files.longestPath dir [] [⟨mimetype, true, type.toBytes⟩] with
  | ok entries =>
    rw [hgather] at hrest
    rcases Work.run_change hrest with ⟨-, hfill⟩ | ⟨hfault, rfl⟩
    · exact .inr ⟨entries, hfill, fun _ => rfl⟩
    · exact .inl ⟨rfl, hfault ()⟩
  | error failed =>
    obtain ⟨entries, fault⟩ := failed
    rw [hgather] at hrest
    rcases Work.run_bind_cases hrest with ⟨fault', hfill, rfl⟩ | ⟨filled, files₂, hfill, hfail⟩
    · rcases Work.run_change hfill with ⟨hcontra, -⟩ | ⟨-, rfl⟩
      · cases hcontra
      · exact .inl ⟨rfl, nofun⟩
    · obtain ⟨rfl, rfl⟩ := Work.run_fail hfail
      rcases Work.run_change hfill with ⟨-, hfill⟩ | ⟨hfault, -⟩
      · exact .inr ⟨entries, hfill, nofun⟩
      · exact absurd rfl (hfault filled)

/-- An archive of the directory at `base`, named `name`, has been made in it of the tree as it was before. -/
structure Archived (base : Location) (name : Raw) (type : Content) (files files' : Files) : Prop where
  archive : ∃ listed, Complete (files.view base) name listed ∧
    files'.find? (base ++ [name]) = some (.file (.archive (⟨mimetype, true, type.toBytes⟩ ::
      listed.map fun (names, content) => packedAs names content)) (files.executableAt (base ++ [name])))
  kept : ∀ location, location ≠ base ++ [name] → files'.find? location = files.find? location

/-- **An archive is made of the tree as it was before.** -/
theorem run_packAs (hproper : files.Proper) (hleads : files.Leads dir base)
    (hdir : files.find? base = some .dir) (hname : Path.IsName name)
    (hplain : ∀ target, files.find? (base ++ [name]) ≠ some (.link target))
    (h : (packAs dir (dir.join ⟨name⟩) type).run files = (.ok (), files')) : Archived base name type files files' := by
  have hplace : base ++ [name] ≠ [] := by simp
  rcases packAs_cases h with ⟨-, hcontra⟩ | ⟨files₁, hempty, hrest⟩
  · exact absurd rfl hcontra
  rcases hrest with ⟨-, hcontra⟩ | ⟨entries, hfill, hentries⟩
  · exact absurd rfl hcontra
  have hentries := hentries rfl
  -- the archive is made, with nothing in it
  obtain ⟨hfree, rfl⟩ := hleads.write_eq hname hplain hempty
  have hleads' := hleads.putFile hplain hfree Content.empty (files.executableAt (base ++ [name]))
  have hfile := Files.find?_put_self hplace (.file Content.empty (files.executableAt (base ++ [name]))) files
  have hproper' : (files.put (base ++ [name]) (.file Content.empty (files.executableAt (base ++ [name])))).Proper :=
    hproper.put hdir hname fun hother => absurd hother hfree
  -- it is in the tree that is gone through by now, and is left out under its path
  obtain ⟨listed, hcomplete, rfl⟩ := gather_complete hproper' hleads' hname hentries
  -- it is filled
  obtain ⟨-, rfl⟩ := hleads'.write_eq hname (by rw [hfile]; simp) hfill
  refine ⟨⟨listed, hcomplete.congr fun names hother => ?_, ?_⟩, fun location hother => ?_⟩
  · exact (Files.find?_put_of_ne (fun heq => hother (List.append_cancel_left heq)) _ _).symm
  · rw [Files.find?_put_self hplace, Files.executableAt_file hfile]
    rfl
  · rw [Files.find?_put_of_ne hother, Files.find?_put_of_ne hother]

/-- Whatever becomes of it, packing touches nothing but what is below the directory of the build. -/
theorem run_pack {result : Except Fault Unit} (hground : files.Ground root base)
    (hdir : files.find? (base ++ area) = some .dir) (hbelow : root.IsBelow area dir)
    (hname : Path.IsName name) (h : (pack dir (dir.join ⟨name⟩)).run files = (result, files')) :
    Within root base area files files' ∧ (result = .ok () → ∃ type executable,
      files.find? (base ++ (area ++ [(mimetype : Raw)])) = some (.file type executable) ∧
      Archived (base ++ area) name type files files') := by
  have hmimetype : root.IsBelow (area ++ [(mimetype : Raw)]) (dir.join ⟨mimetype⟩) := hbelow.join (by decide)
  have harchive : root.IsBelow (area ++ [name]) (dir.join ⟨name⟩) := hbelow.join hname
  have hfull : [name] ≠ [] := List.cons_ne_nil _ _
  rw [pack_run] at h
  split at h
  · next type hread =>
    obtain ⟨executable, htype⟩ := hground.read_eq hmimetype hread
    refine ⟨?_, fun hok => ⟨type, executable, htype, ?_⟩⟩
    · rcases packAs_cases h with ⟨rfl, -⟩ | ⟨files₁, hcreate, hrest⟩
      · exact .refl hground hdir
      obtain ⟨hwithin, -⟩ := within_write hground hdir harchive hfull hcreate
      rcases hrest with ⟨rfl, -⟩ | ⟨entries, hfill, -⟩
      · exact hwithin
      · exact hwithin.trans (within_write hwithin.ground hwithin.dir harchive hfull hfill).1
    · subst hok
      obtain ⟨spot, hspot, -⟩ := bind_eq_ok.mp hread
      obtain ⟨location, hleads⟩ := Files.leads_of_spot_below (Path.IsName.isBelow (by decide) dir) hspot
      cases hground.leads_eq hbelow hleads
      refine run_packAs hground.proper hleads hdir hname (fun target => ?_) h
      rw [List.append_assoc]
      exact hground.plain _ _
  · obtain ⟨rfl, rfl⟩ := Work.run_fail h
    exact ⟨.refl hground hdir, nofun⟩
  · obtain ⟨rfl, rfl⟩ := Work.run_fail h
    exact ⟨.refl hground hdir, nofun⟩

end Bindery.Build
