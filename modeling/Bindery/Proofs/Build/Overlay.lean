import Bindery.Proofs.Build.Work
import Bindery.Proofs.Files.Making
import Bindery.Proofs.Files.Seen

/-!
# `Proofs.Build.Overlay` — a tree is laid over another one

A copy of a directory lays what is seen in the source over what is at the target (`Overlaid`), and counts the files.
Links in the source are copied as the files that they lead to, as long as these are not in the target. The
induction is on the depth of the tree (`treeOverlaid`); at each level another one goes through the entries of a
directory, of which those copied so far have their names in a list (`OverlaidSome`). No copy changes the source,
which is out of the place that the copies go to.

**Contents.**
* `Overlaid`, `OverlaidSome` — a tree that has been laid over a place, and while that goes on;
* `OutOf`, `Copyable` — a tree that is not at the place that it is copied to;
* `overlay_copyChild`, `overlay_copyChildren`, `treeOverlaid` — one entry, the entries of a directory, a tree;
* `copyDir_eq_ok`, `copyDir_missing` — a copy of a directory is one of the tree at it.
-/

namespace Bindery.Build

open Files (Entry Content Ground Below LinksOut)

variable {files files' files₁ : Files} {root source target : Path} {base origin place location : Location}
  {area more names : List Raw} {name : Raw} {tree tree' : List Raw → Option Entry}

/-! ## Laying a tree over a place -/

/-- A tree has been laid over what is at a place. Directories on the way there have been made. -/
structure Overlaid (tree : List Raw → Option Entry) (files files' : Files) (place : Location) : Prop where
  copied : ∀ rest, files'.find? (place ++ rest) = (tree rest).or (files.find? (place ++ rest))
  kept : ∀ location, ¬place <+: location → files'.find? location = files.find? location ∨
    files.find? location = none ∧ files'.find? location = some .dir ∧ location <+: place

/-- Some entries of a tree have been laid over what is in the directory at a place. -/
structure OverlaidSome (tree : List Raw → Option Entry) (files files' : Files) (place : Location)
    (names : List Raw) : Prop where
  copied : ∀ name rest, files'.find? (place ++ name :: rest) =
    if name ∈ names then (tree (name :: rest)).or (files.find? (place ++ name :: rest))
    else files.find? (place ++ name :: rest)
  kept : ∀ location, ¬Below place location → files'.find? location = files.find? location

/-- A file takes the place of what is there, and there is nothing below it. -/
theorem Overlaid.of_put {content : Content} {executable : Bool} (hfull : place ≠ [])
    (hfile : tree [] = some (.file content executable)) (hnone : ∀ name rest, tree (name :: rest) = none) :
    Overlaid tree files (files.put place (.file content executable)) place where
  copied := by
    intro rest
    cases rest with
    | nil =>
      rw [List.append_nil, hfile, Files.find?_put_self hfull]
      rfl
    | cons name rest =>
      have hother : place ++ name :: rest ≠ place := by simp
      rw [hnone, Files.find?_put_of_ne hother]
      rfl
  kept := by
    intro location hout
    have hother : location ≠ place := by
      rintro rfl
      exact hout List.prefix_rfl
    exact .inl (Files.find?_put_of_ne hother _ _)

/-- What is not in a tree need not be known of it. -/
theorem OverlaidSome.congr (hsame : ∀ name ∈ names, ∀ rest, tree' (name :: rest) = tree (name :: rest))
    (h : OverlaidSome tree files files' place names) : OverlaidSome tree' files files' place names where
  copied := by
    intro name rest
    rw [h.copied]
    split
    · next hmem => rw [hsame name hmem]
    · rfl
  kept := h.kept

/-- One more entry. -/
theorem OverlaidSome.cons (hproper : files.Proper) (hplace : files.find? place = some .dir)
    (hfirst : Overlaid (fun rest => tree (name :: rest)) files files₁ (place ++ [name]))
    (hrest : OverlaidSome tree files₁ files' place names) : OverlaidSome tree files files' place (name :: names) where
  copied := by
    intro name' rest
    rw [hrest.copied]
    by_cases hsame : name' = name
    · -- if the name comes again, the same is laid over it once more
      subst hsame
      have hstep : files₁.find? (place ++ name' :: rest) =
          (tree (name' :: rest)).or (files.find? (place ++ name' :: rest)) := by
        have hcopied := hfirst.copied rest
        rwa [List.append_assoc, List.singleton_append] at hcopied
      rw [hstep, if_pos List.mem_cons_self]
      split
      · cases tree (name' :: rest) <;> rfl
      · rfl
    · have hstep : files₁.find? (place ++ name' :: rest) = files.find? (place ++ name' :: rest) := by
        have hout : ¬place ++ [name] <+: place ++ name' :: rest := by
          rw [List.prefix_append_right_inj, List.cons_prefix_cons]
          exact fun hway => hsame hway.1.symm
        rcases hfirst.kept _ hout with hkept | ⟨-, -, hway⟩
        · exact hkept
        · rw [List.prefix_append_right_inj, List.cons_prefix_cons] at hway
          exact absurd hway.1 hsame
      rw [hstep]
      simp only [List.mem_cons, hsame, false_or]
  kept := by
    intro location hout
    rw [hrest.kept location hout]
    have hout' : ¬place ++ [name] <+: location := by
      rintro ⟨rest, rfl⟩
      exact hout ⟨name, rest, by simp⟩
    rcases hfirst.kept location hout' with hkept | ⟨hnone, -, hway⟩
    · exact hkept
    · -- directories on the way to the entry were there already
      rcases List.prefix_concat_iff.mp hway with hself | hway
      · exact absurd (hself ▸ List.prefix_rfl) hout'
      · rw [hproper.dir_of_prefix hway hplace] at hnone
        cases hnone

/-- All entries of a tree together are the tree, once the directory at the place has been made. -/
theorem OverlaidSome.all (hroot : tree [] = some .dir) (hnone : ∀ name ∉ names, ∀ rest, tree (name :: rest) = none)
    (hmade : ∀ location, files₁.find? location = files.find? location ∨
      files.find? location = none ∧ files₁.find? location = some .dir ∧ location <+: place)
    (hplace : files₁.find? place = some .dir) (hsome : OverlaidSome tree files₁ files' place names) :
    Overlaid tree files files' place where
  copied := by
    intro rest
    cases rest with
    | nil =>
      have hself : ¬Below place place := by
        rintro ⟨name, rest, heq⟩
        simp at heq
      rw [List.append_nil, hsome.kept _ hself, hplace, hroot]
      rfl
    | cons name rest =>
      -- only the way to the place has been made new, and this location is beyond it
      have hbefore : files₁.find? (place ++ name :: rest) = files.find? (place ++ name :: rest) := by
        rcases hmade (place ++ name :: rest) with hsame | ⟨-, -, hway⟩
        · exact hsame
        · exact absurd hway.length_le (by simp)
      rw [hsome.copied, hbefore]
      split
      · rfl
      · next hmem => rw [hnone name hmem, Option.none_or]
  kept := by
    intro location hout
    have hout' : ¬Below place location := by
      rintro ⟨name, rest, rfl⟩
      exact hout (List.prefix_append _ _)
    rw [hsome.kept location hout']
    exact hmade location

/-! ## What is copied -/

/-- A tree that no change below a place reaches. -/
def OutOf (place source : Location) : Prop :=
  ∀ rest, ¬Below place (source ++ rest)

theorem OutOf.append {place source : Location} (h : OutOf place source) (rest : List Raw) :
    OutOf place (source ++ rest) := by
  intro more
  rw [List.append_assoc]
  exact h (rest ++ more)

/-- Places of which none is on the way to the other one. -/
theorem outOf_of_not_prefix {place source : Location} (habove : ¬source <+: place) (hbelow : ¬place <+: source) :
    OutOf place source := by
  rintro rest ⟨name, more, heq⟩
  have hsource : source <+: source ++ rest := List.prefix_append _ _
  have hplace : place <+: source ++ rest := ⟨name :: more, heq.symm⟩
  rcases List.prefix_or_prefix_of_prefix hsource hplace with hway | hway
  · exact habove hway
  · exact hbelow hway

theorem OutOf.not_at (h : OutOf place origin) : ¬place <+: origin := by
  rintro ⟨rest, rfl⟩
  obtain ⟨name, more, hmore⟩ := List.exists_cons_of_ne_nil (show rest ++ [("" : Raw)] ≠ [] by simp)
  exact h [""] ⟨name, more, by rw [List.append_assoc, hmore]⟩

/-- A tree that can be copied to a place. It is not there, and neither is what its links lead to. -/
structure Copyable (files : Files) (place : Location) (source : Path) (origin : Location) : Prop where
  finds : ∀ spot, files.spot true source = .ok spot → spot = files.spotAt origin
  out : OutOf place origin
  links : LinksOut files origin place

/-- What is listed at a source is in the directory that its path leads to. -/
theorem children_of_list {entries : List (Raw × Entry)}
    (hfinds : ∀ spot, files.spot true source = .ok spot → spot = files.spotAt origin)
    (hlist : files.list source = .ok entries) :
    files.Leads source origin ∧ files.find? origin = some .dir ∧ entries = files.children origin := by
  obtain ⟨spot, hspot, hlist⟩ := bind_eq_ok.mp hlist
  have hfound := hfinds spot hspot
  cases spot with
  | absent location => cases hlist
  | present location entry =>
    obtain ⟨rfl, hfind⟩ := Ground.find?_of_spotAt hfound
    cases entry with
    | file content executable => cases hlist
    | link target => cases hlist
    | dir =>
      cases hlist
      exact ⟨Files.leads_of_spot hspot, hfind, rfl⟩

/-- Nothing but what is below the directory of a build has changed, so that a tree out of it is as it was. -/
theorem Laid.source_eq (hlaid : Laid root base area files files') (hout : OutOf (base ++ area) origin)
    (rest : List Raw) : files'.find? (origin ++ rest) = files.find? (origin ++ rest) :=
  hlaid.same _ (hout rest)

theorem Laid.outside_eq (hlaid : Laid root base area files files') (hout : ¬base ++ area <+: location) :
    files'.find? location = files.find? location := by
  refine hlaid.same _ ?_
  rintro ⟨name, rest, rfl⟩
  exact hout (List.prefix_append _ _)

theorem Laid.linksOut (hlaid : Laid root base area files files') (hout : OutOf (base ++ area) origin)
    (hlinks : LinksOut files origin (base ++ area)) : LinksOut files' origin (base ++ area) :=
  hlinks.change hlaid.roads (hlaid.source_eq hout) fun _ hother _ => hlaid.outside_eq hother

theorem Laid.seen_eq (hlaid : Laid root base area files files') (hout : OutOf (base ++ area) origin)
    (hlinks : LinksOut files origin (base ++ area)) (rest : List Raw) :
    files'.seen (origin ++ rest) = files.seen (origin ++ rest) :=
  hlinks.seen_congr hlaid.roads (hlaid.source_eq hout) (fun _ hother _ => hlaid.outside_eq hother) rest

theorem Laid.entriesCount_eq {entries : List (Raw × Entry)} (hlaid : Laid root base area files files')
    (hproper : files.Proper) (hout : ∀ entry ∈ entries, OutOf (base ++ area) (origin ++ [entry.1])) :
    files'.entriesCount origin entries = files.entriesCount origin entries :=
  hproper.entriesCount_congr hlaid.ground.proper fun entry hmem => hlaid.source_eq (hout entry hmem)

/-! ## One entry -/

/-- Copies an entry of a directory. -/
def copyChild (depth : Nat) (source target : Path) (count : Nat) : Raw × Entry → Work Nat
  | (name, .dir) => do
    return count + (← copyTree depth (source.join ⟨name⟩) (target.join ⟨name⟩))
  | (name, _) => do
    copyEntry (source.join ⟨name⟩) (target.join ⟨name⟩)
    return count + 1

theorem copyTree_succ (depth : Nat) (source target : Path) :
    copyTree (depth + 1) source target = (do
      let entries ← Work.look .walking source fun files => files.list source
      makeDirs target
      entries.foldlM (copyChild depth source target) 0) := by
  rw [copyTree]
  congr 1
  funext entries
  congr 1
  funext made
  congr 1
  funext count ⟨name, entry⟩
  cases entry <;> rfl

/-- A file is copied, or the one that a link leads to. -/
theorem overlay_copyEntry {result : Except Fault Unit} (hground : files.Ground root base)
    (hdir : files.find? (base ++ area) = some .dir) (hleads : files.Leads source origin) (hname : Path.IsName name)
    (hout : OutOf (base ++ area) (origin ++ [name])) (hlinks : LinksOut files (origin ++ [name]) (base ++ area))
    (hbelow : root.IsBelow (area ++ more) target) (hfull : more ≠ [])
    (h : (copyEntry (source.join ⟨name⟩) target).run files = (result, files')) :
    Laid root base area files files' ∧ (result = .ok () → ∃ content executable,
      files.seen (origin ++ [name]) = some (.file content executable) ∧
        files' = files.put (base ++ (area ++ more)) (.file content executable)) := by
  rcases Work.run_change h with ⟨rfl, hcopy⟩ | ⟨hfault, rfl⟩
  · obtain ⟨location, content, executable, destination, mode, hspot, hwritable, rfl⟩ := Files.copy_eq_ok hcopy
    obtain ⟨hseen, hother⟩ := hleads.seen_eq hname hlinks hout.not_at hspot
    obtain ⟨hplace, rfl, -⟩ := hground.writable_eq hbelow hwritable
    have hne : base ++ (area ++ more) ≠ location := by
      rintro rfl
      exact hother ⟨more, List.append_assoc _ _ _⟩
    rw [if_neg hne]
    exact ⟨.putFile hground hdir hbelow hfull hplace _ _, fun _ => ⟨content, executable, hseen, rfl⟩⟩
  · exact ⟨.refl hground hdir, fun hok => absurd hok (hfault ())⟩

/-- Copies of trees of a depth are what they should be. -/
def TreeOverlaid (root : Path) (base : Location) (area : List Raw) (depth : Nat) : Prop :=
  ∀ ⦃more : List Raw⦄ ⦃source target : Path⦄ ⦃origin : Location⦄ ⦃files files' : Files⦄
    ⦃result : Except Fault Nat⦄, files.Ground root base → files.find? (base ++ area) = some .dir →
    Copyable files (base ++ area) source origin → root.IsBelow (area ++ more) target → more ≠ [] →
    (copyTree depth source target).run files = (result, files') →
    Laid root base area files files' ∧ ∀ count, result = .ok count →
      Overlaid (fun rest => files.seen (origin ++ rest)) files files' (base ++ (area ++ more)) ∧
        count = files.fileCount origin

section Trees

variable {depth count : Nat} {result : Except Fault Nat}

/-- A directory among the entries is copied as the tree that it is. -/
theorem overlay_copyChild_dir (htree : TreeOverlaid root base area depth)
    (hground : files.Ground root base) (hdir : files.find? (base ++ area) = some .dir)
    (hleads : files.Leads source origin) (hname : Path.IsName name)
    (hout : OutOf (base ++ area) (origin ++ [name])) (hlinks : LinksOut files (origin ++ [name]) (base ++ area))
    (hbelow : root.IsBelow (area ++ more) (target.join ⟨name⟩)) (hfull : more ≠ [])
    (hfind : files.find? (origin ++ [name]) = some .dir)
    (h : (copyChild depth source target count (name, .dir)).run files = (result, files')) :
    Laid root base area files files' ∧ ∀ total, result = .ok total →
      Overlaid (fun rest => files.seen (origin ++ [name] ++ rest)) files files' (base ++ (area ++ more)) ∧
        total = count + files.entryCount origin (name, .dir) := by
  have hplain : ∀ target, files.find? (origin ++ [name]) ≠ some (.link target) := by simp [hfind]
  have hcopyable : Copyable files (base ++ area) (source.join ⟨name⟩) (origin ++ [name]) :=
    ⟨fun spot => hleads.inside_eq hname hplain, hout, hlinks⟩
  rcases Work.run_bind_cases h with ⟨fault, hcopy, rfl⟩ | ⟨inner, files₁, hcopy, hreturn⟩
  · exact ⟨(htree hground hdir hcopyable hbelow hfull hcopy).1, nofun⟩
  · obtain ⟨hlaid, hdone⟩ := htree hground hdir hcopyable hbelow hfull hcopy
    obtain ⟨hcopied, hcount⟩ := hdone inner rfl
    obtain ⟨rfl, rfl⟩ := Work.run_pure hreturn
    refine ⟨hlaid, fun total hok => ⟨hcopied, ?_⟩⟩
    cases hok
    rw [hcount]
    rfl

/-- A file among the entries is copied, and a link as the file that it leads to: nothing is seen below either. -/
theorem overlay_copyChild_leaf {entry : Entry} (hground : files.Ground root base)
    (hdir : files.find? (base ++ area) = some .dir) (hleads : files.Leads source origin) (hname : Path.IsName name)
    (hout : OutOf (base ++ area) (origin ++ [name])) (hlinks : LinksOut files (origin ++ [name]) (base ++ area))
    (hbelow : root.IsBelow (area ++ more) (target.join ⟨name⟩)) (hfull : more ≠ []) (hentry : entry ≠ .dir)
    (hfind : files.find? (origin ++ [name]) = some entry)
    (h : (copyChild depth source target count (name, entry)).run files = (result, files')) :
    Laid root base area files files' ∧ ∀ total, result = .ok total →
      Overlaid (fun rest => files.seen (origin ++ [name] ++ rest)) files files' (base ++ (area ++ more)) ∧
        total = count + files.entryCount origin (name, entry) := by
  have hrun : (copyChild depth source target count (name, entry)).run files =
      (do copyEntry (source.join ⟨name⟩) (target.join ⟨name⟩); return count + 1 : Work Nat).run files := by
    cases entry with
    | dir => exact absurd rfl hentry
    | file content executable => rfl
    | link target => rfl
  rw [hrun] at h
  rcases Work.run_bind_cases h with ⟨fault, hcopy, rfl⟩ | ⟨done, files₁, hcopy, hreturn⟩
  · exact ⟨(overlay_copyEntry hground hdir hleads hname hout hlinks hbelow hfull hcopy).1, nofun⟩
  · obtain ⟨hlaid, hcopied⟩ := overlay_copyEntry hground hdir hleads hname hout hlinks hbelow hfull hcopy
    obtain ⟨content, executable, hseen, rfl⟩ := hcopied rfl
    obtain ⟨rfl, rfl⟩ := Work.run_pure hreturn
    have hnone (next : Raw) (rest : List Raw) : files.seen (origin ++ [name] ++ next :: rest) = none := by
      refine Files.seen_none ?_
      cases hbelow : files.find? (origin ++ [name] ++ next :: rest) with
      | none => rfl
      | some found =>
        have hother := hground.proper.dir_of_append (List.cons_ne_nil _ _) hbelow
        exact absurd (Option.some.inj (hfind.symm.trans hother)) hentry
    refine ⟨hlaid, fun total hok => ⟨.of_put (by simp [hfull]) (by rwa [List.append_nil]) hnone, ?_⟩⟩
    cases hok
    exact congrArg _ (if_neg hentry).symm

theorem overlay_copyChild {entry : Entry} (htree : TreeOverlaid root base area depth)
    (hground : files.Ground root base) (hdir : files.find? (base ++ area) = some .dir)
    (hleads : files.Leads source origin) (hat : root.IsAt (area ++ more) target)
    (hout : OutOf (base ++ area) (origin ++ [name])) (hlinks : LinksOut files (origin ++ [name]) (base ++ area))
    (hfind : files.find? (origin ++ [name]) = some entry)
    (h : (copyChild depth source target count (name, entry)).run files = (result, files')) :
    Laid root base area files files' ∧ ∀ total, result = .ok total →
      Overlaid (fun rest => files.seen (origin ++ name :: rest)) files files' (base ++ (area ++ (more ++ [name]))) ∧
        total = count + files.entryCount origin (name, entry) := by
  have hname : Path.IsName name := hground.proper.isName hfind name (by simp)
  have hfull : more ++ [name] ≠ [] := by simp
  have hbelow : root.IsBelow (area ++ (more ++ [name])) (target.join ⟨name⟩) := by
    rw [← List.append_assoc]
    exact hat.join hname
  have hsplit : (fun rest => files.seen (origin ++ name :: rest)) =
      fun rest => files.seen (origin ++ [name] ++ rest) := by
    funext rest
    rw [List.append_assoc]
    rfl
  rw [hsplit]
  by_cases hentry : entry = .dir
  · subst hentry
    exact overlay_copyChild_dir htree hground hdir hleads hname hout hlinks hbelow hfull hfind h
  · exact overlay_copyChild_leaf hground hdir hleads hname hout hlinks hbelow hfull hentry hfind h

theorem overlay_copyChildren {entries : List (Raw × Entry)} (htree : TreeOverlaid root base area depth)
    (hground : files.Ground root base) (hdir : files.find? (base ++ area) = some .dir)
    (hleads : files.Leads source origin) (hat : root.IsAt (area ++ more) target)
    (hplace : files.find? (base ++ (area ++ more)) = some .dir)
    (hout : ∀ entry ∈ entries, OutOf (base ++ area) (origin ++ [entry.1]))
    (hlinks : ∀ entry ∈ entries, LinksOut files (origin ++ [entry.1]) (base ++ area))
    (hentries : ∀ entry ∈ entries, files.find? (origin ++ [entry.1]) = some entry.2)
    (h : (entries.foldlM (copyChild depth source target) count).run files = (result, files')) :
    Laid root base area files files' ∧ ∀ total, result = .ok total →
      OverlaidSome (fun names => files.seen (origin ++ names)) files files' (base ++ (area ++ more))
          (entries.map Prod.fst) ∧
        total = count + files.entriesCount origin entries := by
  induction entries generalizing files count with
  | nil =>
    obtain ⟨rfl, rfl⟩ := Work.run_pure h
    refine ⟨.refl hground hdir, fun total hok => ⟨⟨fun _ _ => rfl, fun _ _ => rfl⟩, ?_⟩⟩
    cases hok
    rfl
  | cons entry entries ih =>
    obtain ⟨name, entry⟩ := entry
    obtain ⟨hfind, hentries⟩ := List.forall_mem_cons.mp hentries
    obtain ⟨hapart, hout⟩ := List.forall_mem_cons.mp hout
    obtain ⟨hlink, hlinks⟩ := List.forall_mem_cons.mp hlinks
    rw [List.foldlM_cons] at h
    rcases Work.run_bind_cases h with ⟨fault, hchild, rfl⟩ | ⟨count₁, files₁, hchild, hrest⟩
    · exact ⟨(overlay_copyChild htree hground hdir hleads hat hapart hlink hfind hchild).1, nofun⟩
    · obtain ⟨hlaid, hdone⟩ := overlay_copyChild htree hground hdir hleads hat hapart hlink hfind hchild
      obtain ⟨hcopied, rfl⟩ := hdone count₁ rfl
      have hfirst : base ++ (area ++ (more ++ [name])) = base ++ (area ++ more) ++ [name] := by simp
      rw [hfirst] at hcopied
      -- the entries that come later are as they were
      have hentries' : ∀ entry ∈ entries, files₁.find? (origin ++ [entry.1]) = some entry.2 := by
        intro entry hmem
        have hsame := hlaid.source_eq (hout entry hmem) []
        rw [List.append_nil] at hsame
        rw [hsame, hentries entry hmem]
      obtain ⟨hlaid', hdone'⟩ := ih hlaid.ground hlaid.dir (hleads.mono hlaid.home hlaid.roads)
        (hlaid.roads _ _ hplace nofun) hout (fun entry hmem => hlaid.linksOut (hout entry hmem) (hlinks entry hmem))
        hentries' hrest
      refine ⟨hlaid.trans hlaid', fun total hok => ?_⟩
      obtain ⟨hsome, rfl⟩ := hdone' total hok
      refine ⟨.cons hground.proper hplace hcopied (hsome.congr fun name' hmem rest => ?_), ?_⟩
      · obtain ⟨entry', hentry, rfl⟩ := List.mem_map.mp hmem
        have hseen := hlaid.seen_eq (hout entry' hentry) (hlinks entry' hentry) rest
        rw [List.append_assoc] at hseen
        exact hseen.symm
      · rw [hlaid.entriesCount_eq hground.proper hout, Nat.add_assoc]
        rfl

/-- All entries of a directory together are what is seen in it. -/
theorem OverlaidSome.directory {files₁ : Files} (hproper : files.Proper) (horigin : files.find? origin = some .dir)
    (hseen : ∀ entry ∈ files.children origin, ∀ rest,
      files₁.seen (origin ++ entry.1 :: rest) = files.seen (origin ++ entry.1 :: rest))
    (hmade : ∀ location, files₁.find? location = files.find? location ∨
      files.find? location = none ∧ files₁.find? location = some .dir ∧ location <+: place)
    (hplace : files₁.find? place = some .dir)
    (hsome : OverlaidSome (fun names => files₁.seen (origin ++ names)) files₁ files' place
      ((files.children origin).map Prod.fst)) :
    Overlaid (fun names => files.seen (origin ++ names)) files files' place := by
  have hsome' : OverlaidSome (fun names => files.seen (origin ++ names)) files₁ files' place
      ((files.children origin).map Prod.fst) := by
    refine hsome.congr fun name hmem rest => ?_
    obtain ⟨entry, hentry, rfl⟩ := List.mem_map.mp hmem
    exact (hseen entry hentry rest).symm
  refine hsome'.all ?_ (fun name hmem rest => Files.seen_none ?_) hmade hplace
  · rw [List.append_nil, Files.seen_eq (by simp [horigin]), horigin]
  · -- what is not in the directory has nothing below it
    cases hfind : files.find? (origin ++ name :: rest) with
    | none => rfl
    | some entry =>
      exfalso
      obtain ⟨entry', hchild⟩ := hproper.exists_child hfind
      exact hmem (List.mem_map_of_mem (f := Prod.fst) (hproper.mem_children.mpr hchild))

/-- **A copy of a tree lays what is seen in it over the target.** -/
theorem treeOverlaid (root : Path) (base : Location) (area : List Raw) : ∀ depth, TreeOverlaid root base area depth
  | 0 => by
    intro more source target origin files files' result hground hdir _ _ _ h
    obtain ⟨rfl, rfl⟩ := Work.run_fail h
    exact ⟨.refl hground hdir, nofun⟩
  | depth + 1 => by
    intro more source target origin files files' result hground hdir hcopyable hbelow hfull h
    rw [copyTree_succ] at h
    rcases Work.run_bind_cases h with ⟨fault, hlist, rfl⟩ | ⟨entries, files₀, hlist, h⟩
    · obtain ⟨rfl, -⟩ := Work.run_look hlist
      exact ⟨.refl hground hdir, nofun⟩
    obtain ⟨rfl, hlist⟩ := Work.run_look hlist
    obtain ⟨hleads, horigin, rfl⟩ := children_of_list hcopyable.finds (hlist entries rfl)
    rcases Work.run_bind_cases h with ⟨fault, hmake, rfl⟩ | ⟨made, files₁, hmake, h⟩
    · exact ⟨.paved hground hdir (run_makeDirs hground hdir hbelow hmake).2.1, nofun⟩
    obtain ⟨-, hpaved, hmade⟩ := run_makeDirs hground hdir hbelow hmake
    have hlaid := Laid.paved hground hdir hpaved
    have hplace := hmade rfl
    have hout : ∀ entry ∈ files₀.children origin, OutOf (base ++ area) (origin ++ [entry.1]) :=
      fun entry _ => hcopyable.out.append [entry.1]
    have hlinks : ∀ entry ∈ files₀.children origin, LinksOut files₀ (origin ++ [entry.1]) (base ++ area) :=
      fun entry _ => hcopyable.links.append [entry.1]
    -- the source lies apart from the area, so the directory that was made for the copy does not change it
    have hentries : ∀ entry ∈ files₀.children origin, files₁.find? (origin ++ [entry.1]) = some entry.2 := by
      intro entry hmem
      rw [hlaid.source_eq hcopyable.out]
      exact hground.proper.mem_children.mp hmem
    obtain ⟨hlaid', hdone⟩ := overlay_copyChildren (treeOverlaid root base area depth) hlaid.ground hlaid.dir
      (hleads.mono hlaid.home hlaid.roads) (.inr hbelow) hplace hout
      (fun entry hmem => hlaid.linksOut (hout entry hmem) (hlinks entry hmem)) hentries h
    refine ⟨hlaid.trans hlaid', fun count hok => ?_⟩
    obtain ⟨hsome, rfl⟩ := hdone count hok
    constructor
    · refine hsome.directory hground.proper horigin (fun entry _ rest => ?_) hpaved.on_way hplace
      exact hlaid.seen_eq hcopyable.out hcopyable.links (entry.1 :: rest)
    · rw [hground.proper.fileCount_eq_entriesCount, Nat.zero_add, hlaid.entriesCount_eq hground.proper hout]

end Trees

/-! ## Directories -/

/-- A directory is copied if it is there. -/
theorem copyDir_run (source target : Path) (files : Files) :
    (copyDir source target).run files =
      (if files.isDirectory source then
        match files.spot false source with
        | .ok (.present _ (.link _)) => do
          copyEntry source (target.join ⟨""⟩)
          return 1
        | _ => copyTree Files.longestPath source (target.join ⟨""⟩)
      else Work.fail (.missingSource source) : Work Nat).run files := by
  refine (Work.run_get (fun files => do
      if !files.isDirectory source then Work.fail (.missingSource source)
      match files.spot false source with
      | .ok (.present _ (.link _)) => do
        copyEntry source (target.join ⟨""⟩)
        return 1
      | _ => copyTree Files.longestPath source (target.join ⟨""⟩) : Files → Work Nat) files).trans ?_
  dsimp only
  generalize files.isDirectory source = there
  cases there <;> rfl

/-- A directory is not copied like a file. -/
theorem not_copied_dir {location : Location} (hleads : files.Leads source location) :
    files.copy source target ≠ .ok files' := by
  intro h
  obtain ⟨place, content, executable, destination, mode, hspot, -, -⟩ := Files.copy_eq_ok h
  cases hleads.spot_eq hspot

/-- A copy of a directory that ends well is one of the tree at it. -/
theorem copyDir_eq_ok {count : Nat} (h : (copyDir source target).run files = (.ok count, files')) :
    ∃ origin, files.spot true source = .ok (.present origin .dir) ∧
      (copyTree Files.longestPath source (target.join ⟨""⟩)).run files = (.ok count, files') := by
  rw [copyDir_run] at h
  split at h
  · next hthere =>
    obtain ⟨origin, hspot⟩ := Files.spot_of_isDirectory hthere
    refine ⟨origin, hspot, ?_⟩
    split at h
    · -- a link to the directory would be copied like a file
      obtain ⟨done, files₁, hcopy, -⟩ := Work.run_bind_ok h
      rcases Work.run_change hcopy with ⟨-, hcopy⟩ | ⟨hfault, -⟩
      · exact absurd hcopy (not_copied_dir (Files.leads_of_spot hspot))
      · exact absurd rfl (hfault done)
    · exact h
  · obtain ⟨hok, -⟩ := Work.run_fail h
    cases hok

theorem copyDir_missing (h : files.isDirectory source = false) :
    (copyDir source target).run files = (.error (.missingSource source), files) := by
  rw [copyDir_run, h, if_neg Bool.false_ne_true]
  rfl

end Bindery.Build
