import Bindery.Proofs.Files.Nested

/-!
# `Proofs.Files.Making` — directories that are made on the way to a path

A path of any form is made into a directory by way of its parents. What is made is where there was nothing
(`Grown`), be the path as it may. If the path goes up only from directories that are there (`Solid`), what is
made is on the way to the directory that it leads to in the end, and below that there is nothing
(`founded_of_makeDirs`).

A parent walks along a first part of the same steps (`stops_of_parent?`). When the parent has been made, there is
nothing in it, so that a walk that goes on from there without going up ends there or right inside
(`Walked.in_hollow`).

**Contents.**
* `Path.stops_bare`, `Path.stops_of_parent?` — the steps of a path without slashes at its end, and of its parent;
* `Walked.ends`, `Walked.reached`, `Walked.absent_cases`, `Walked.in_hollow` — where a walk ends;
* `Grown`, `Solid`, `Founded` — what is made, and for which paths it is on the way;
* `isDirectory_of_makeDirs`, `grown_of_makeDirs`, `founded_of_makeDirs`.
-/

namespace Bindery

namespace Path

/-! ## Steps of parents -/

/-- A name without a slash, which is not empty. -/
def IsSegment (name : Raw) : Prop :=
  name ≠ "" ∧ slash ∉ name.bytes

theorem isSegment_of_mem_stops {path : Path} {name : Raw} (h : name ∈ path.stops) : IsSegment name := by
  obtain ⟨segment, hmem, rfl⟩ := List.mem_map.mp h
  obtain ⟨hmem, hfull⟩ := List.mem_filter.mp hmem
  refine ⟨fun hempty => ?_, not_mem_of_mem_segments hmem⟩
  have hnil : segment = [] := congrArg Raw.bytes hempty
  simp [hnil] at hfull

theorem isSegment_of_mem_steps {path : Path} {name : Raw} (h : name ∈ path.steps) : IsSegment name := by
  rw [steps_eq] at h
  rcases List.mem_append.mp h with h | h
  · exact isSegment_of_mem_stops h
  · split at h
    · rw [List.mem_singleton.mp h]
      exact ⟨by decide, by decide⟩
    · exact absurd h List.not_mem_nil

theorem filter_segments_slashes {bytes : List UInt8} (h : ∀ c ∈ bytes, c = slash) :
    (segments bytes).filter (· ≠ []) = [] := by
  induction bytes with
  | nil => rfl
  | cons c bytes ih =>
    obtain ⟨hc, h⟩ := List.forall_mem_cons.mp h
    rw [segments, if_pos hc, List.filter_cons_of_neg (by simp)]
    exact ih h

/-- Slashes at the end of a path make no difference to its steps, but for one at its end. -/
theorem stops_bare (path : Path) : path.bare.stops = path.stops := by
  have htext := congrArg List.reverse
    (List.takeWhile_append_dropWhile (p := (· == slash)) (l := path.raw.bytes.reverse))
  have hslashes : ∀ c ∈ (path.raw.bytes.reverse.takeWhile (· == slash)).reverse, c = slash := by
    intro c hmem
    exact eq_of_beq (List.all_eq_true.mp List.all_takeWhile c (List.mem_reverse.mp hmem))
  rw [List.reverse_append, List.reverse_reverse] at htext
  unfold bare
  cases hfront : path.raw.bytes.reverse.dropWhile (· == slash) with
  | nil => rfl
  | cons last front =>
    rw [hfront] at htext
    unfold stops
    show (List.filter _ (segments (last :: front).reverse)).map _ = _
    rw [← htext]
    cases hends : (path.raw.bytes.reverse.takeWhile (· == slash)).reverse with
    | nil => rw [List.append_nil]
    | cons c bytes =>
      rw [hends] at hslashes
      obtain ⟨hc, hrest⟩ := List.forall_mem_cons.mp hslashes
      rw [hc, segments_append_slash, List.filter_append, filter_segments_slashes hrest, List.append_nil]

theorem isPrefix_dropIdle (parts : List (List UInt8)) : dropIdle parts <+: parts := by
  unfold dropIdle
  rw [← List.reverse_suffix, List.reverse_reverse]
  exact List.dropWhile_suffix _

/-- What is left of some segments without the last name. -/
theorem isPrefix_dropLast (parts : List (List UInt8)) : dropIdle (dropIdle parts).dropLast <+: parts := by
  have hlast : (dropIdle parts).dropLast <+: dropIdle parts := List.dropLast_prefix _
  exact (isPrefix_dropIdle _).trans (hlast.trans (isPrefix_dropIdle _))

theorem segments_intercalate {parts : List (List UInt8)} (hfull : parts ≠ []) (h : ∀ part ∈ parts, slash ∉ part) :
    segments (List.intercalate [slash] parts) = parts := by
  induction parts with
  | nil => exact absurd rfl hfull
  | cons part parts ih =>
    obtain ⟨hpart, h⟩ := List.forall_mem_cons.mp h
    cases parts with
    | nil => rw [List.intercalate_singleton, segments_of_not_mem hpart]
    | cons next parts =>
      rw [List.intercalate_cons_cons, List.append_assoc, List.singleton_append, segments_append_slash,
        segments_of_not_mem hpart, ih (List.cons_ne_nil _ _) h]
      rfl

/-- Segments with slashes between them are the segments of a path, but that one without segments has one. -/
theorem filter_segments_slashed {parts : List (List UInt8)} (h : ∀ part ∈ parts, slash ∉ part) :
    (segments (slashed parts).bytes).filter (· ≠ []) = parts.filter (· ≠ []) := by
  by_cases hfull : parts = []
  · rw [hfull]
    rfl
  · exact congrArg _ (segments_intercalate hfull h)

/-- Segments of which the first one has a text are not those of an absolute path. -/
theorem isAbsolute_slashed {parts : List (List UInt8)} (h : ∀ part ∈ parts, slash ∉ part)
    (hhead : parts.head? ≠ some []) : Path.isAbsolute ⟨slashed parts⟩ = false := by
  unfold isAbsolute slashed
  cases parts with
  | nil => rfl
  | cons part parts =>
    cases part with
    | nil => exact absurd rfl hhead
    | cons c bytes =>
      have hc : c ≠ slash := fun hc => h (c :: bytes) List.mem_cons_self (hc ▸ List.mem_cons_self)
      have hfirst : (List.intercalate [slash] ((c :: bytes) :: parts)).head? = some c := by
        cases parts with
        | nil => rw [List.intercalate_singleton]; rfl
        | cons next parts => rw [List.intercalate_cons_cons]; rfl
      rw [hfirst]
      simpa using hc

/-- Of a path that is not absolute the first segment has a text, unless nothing is left without the last name. -/
theorem head?_dropIdle {path : Path} (habsolute : path.isAbsolute = false) :
    (dropIdle (dropIdle (segments path.raw.bytes)).dropLast).head? ≠ some [] := by
  unfold isAbsolute at habsolute
  cases htext : path.raw.bytes with
  | nil => decide
  | cons c bytes =>
    rw [htext] at habsolute
    have hc : ¬c = slash := by simpa using habsolute
    obtain ⟨rest, parts, hparts⟩ : ∃ rest parts, segments (c :: bytes) = (c :: rest) :: parts := by
      rw [segments, if_neg hc]
      split
      · exact ⟨[], [], rfl⟩
      · exact ⟨_, _, rfl⟩
    rw [hparts]
    intro hhead
    have hway := isPrefix_dropLast ((c :: rest) :: parts)
    obtain ⟨more, hmore⟩ := List.head?_eq_some_iff.mp hhead
    rw [hmore, List.cons_prefix_cons] at hway
    cases hway.1

/-- When the steps of a parent come from a first part of the segments, they are a first part of the steps. -/
theorem stops_eq_append {path parent : Path} {parts : List (List UInt8)}
    (hparent : parent.stops = (parts.filter (· ≠ [])).map Raw.mk)
    (hway : parts <+: segments path.raw.bytes) : ∃ more, path.stops = parent.stops ++ more := by
  obtain ⟨more, hmore⟩ := (hway.filter (· ≠ [])).map Raw.mk
  rw [hparent]
  exact ⟨more, hmore.symm⟩

/-- A parent that keeps the first segment, whatever it is, in front of what is left of the others. -/
theorem stops_slash {path parent : Path} {first : List UInt8} {parts : List (List UInt8)}
    (hparts : segments path.raw.bytes = first :: parts)
    (htext : parent.raw.bytes = first ++ slash :: (slashed (dropIdle (dropIdle parts).dropLast)).bytes) :
    ∃ more, path.stops = parent.stops ++ more := by
  have hslash : ∀ part ∈ first :: parts, slash ∉ part := hparts ▸ fun _ => not_mem_of_mem_segments
  obtain ⟨hfirst, hrest⟩ := List.forall_mem_cons.mp hslash
  have hway := isPrefix_dropLast parts
  have hkept : first :: dropIdle (dropIdle parts).dropLast <+: segments path.raw.bytes := by
    rw [hparts]
    exact List.cons_prefix_cons.mpr ⟨rfl, hway⟩
  refine stops_eq_append ?_ hkept
  unfold stops
  rw [htext, segments_append_slash, segments_of_not_mem hfirst, List.filter_append,
    filter_segments_slashed fun part hmem => hrest part (hway.subset hmem), ← List.filter_append]
  rfl

/-- The steps of a parent are a first part of the steps. -/
theorem stops_of_parent? {path parent : Path} (h : path.parent? = some parent) :
    parent.isAbsolute = path.isAbsolute ∧ ∃ more, path.stops = parent.stops ++ more := by
  by_cases habsolute : path.isAbsolute = true
  · -- the first segment is empty, and stays in front
    obtain ⟨parts, hparts⟩ := segments_eq_cons habsolute
    rw [parent?_of_isAbsolute habsolute hparts] at h
    split at h
    · cases h
    · cases h
      exact ⟨habsolute.symm, stops_slash hparts rfl⟩
  have habsolute : path.isAbsolute = false := Bool.eq_false_iff.mpr habsolute
  by_cases hdot : (segments path.raw.bytes).head? = some [dot]
  · -- a dot in front is a step of its own, which the parent keeps
    obtain ⟨parts, hparts⟩ := List.head?_eq_some_iff.mp hdot
    rw [parent?_of_dot habsolute hparts] at h
    split at h
    · cases h
      exact ⟨habsolute.symm, _, (List.nil_append _).symm⟩
    split at h
    · cases h
      have hway : [[dot]] <+: segments path.raw.bytes := hparts ▸ ⟨parts, rfl⟩
      exact ⟨habsolute.symm, stops_eq_append rfl hway⟩
    · cases h
      exact ⟨habsolute.symm, stops_slash hparts rfl⟩
  · rw [parent?_of_head? habsolute hdot] at h
    split at h
    · cases h
    · cases h
      have hway := isPrefix_dropLast (segments path.raw.bytes)
      have hslash : ∀ part ∈ dropIdle (dropIdle (segments path.raw.bytes)).dropLast, slash ∉ part :=
        fun part hmem => not_mem_of_mem_segments (hway.subset hmem)
      refine ⟨?_, stops_eq_append ?_ hway⟩
      · rw [habsolute]
        exact isAbsolute_slashed hslash (head?_dropIdle habsolute)
      · unfold stops
        rw [filter_segments_slashed hslash]

end Path

namespace Files

variable {files files' : Files} {follow : Bool} {links : Nat} {path parent : Path} {here location place : Location}
  {names : List Raw} {spot : Spot}

/-! ## Where a walk ends -/

theorem Proper.dir_dropLast (h : files.Proper) (hdir : files.find? location = some .dir) :
    files.find? location.dropLast = some .dir := by
  by_cases hfull : location = []
  · rw [hfull]
    exact find?_nil files
  · obtain ⟨init, name, rfl⟩ := Path.eq_concat hfull
    rw [List.dropLast_concat]
    exact h.closed _ _ _ hdir

theorem dir_linkStart (target : Path) (hdir : files.find? here = some .dir) :
    files.find? (linkStart target here) = some .dir := by
  unfold linkStart
  split
  · exact find?_nil files
  · exact hdir

/-- Where a walk ends but in a directory is what look-up finds there. -/
theorem Walked.ends (h : Walked files follow links here names spot) :
    (∃ location, spot = .present location .dir) ∨ ∃ location, spot = files.spotAt location := by
  induction h with
  | done => exact .inl ⟨_, rfl⟩
  | dot _ ih => exact ih
  | up _ ih => exact ih
  | dir _ _ _ ih => exact ih
  | absent _ hfind => exact .inr ⟨_, (spotAt_eq_absent hfind).symm⟩
  | file _ hfind => exact .inr ⟨_, (spotAt_eq hfind).symm⟩
  | stay _ hfind _ => exact .inr ⟨_, (spotAt_eq hfind).symm⟩
  | jump _ _ _ _ ih => exact ih

/-- A walk that starts in a directory ends at what look-up finds there. -/
theorem Walked.reached (hproper : files.Proper) (hdir : files.find? here = some .dir)
    (h : Walked files follow links here names spot) : ∃ location, spot = files.spotAt location := by
  induction h with
  | done => exact ⟨_, (spotAt_eq hdir).symm⟩
  | dot _ ih => exact ih hdir
  | up _ ih => exact ih (hproper.dir_dropLast hdir)
  | dir _ hfind _ ih => exact ih hfind
  | absent _ hfind => exact ⟨_, (spotAt_eq_absent hfind).symm⟩
  | file _ hfind => exact ⟨_, (spotAt_eq hfind).symm⟩
  | stay _ hfind _ => exact ⟨_, (spotAt_eq hfind).symm⟩
  | jump _ _ _ _ ih => exact ih (dir_linkStart _ hdir)

/-- A walk that ends at nothing ends right inside a directory. -/
theorem Walked.absent_cases (hproper : files.Proper) (hdir : files.find? here = some .dir)
    (hnames : ∀ name ∈ names, Path.IsSegment name) (h : Walked files follow links here names (.absent location)) :
    ∃ around name, location = around ++ [name] ∧ files.find? around = some .dir ∧ Path.IsName name ∧
      files.find? location = none := by
  generalize hspot : Spot.absent location = spot at h
  induction h with
  | done => cases hspot
  | dot _ ih => exact ih hdir (fun name hmem => hnames name (List.mem_cons_of_mem _ hmem)) hspot
  | up _ ih => exact ih (hproper.dir_dropLast hdir) (fun name hmem => hnames name (List.mem_cons_of_mem _ hmem)) hspot
  | dir _ hfind _ ih => exact ih hfind (fun name hmem => hnames name (List.mem_cons_of_mem _ hmem)) hspot
  | @absent links here name hstep hfind =>
    cases hspot
    obtain ⟨hfull, hslash⟩ := hnames name List.mem_cons_self
    exact ⟨here, name, rfl, hdir, ⟨hfull, hslash, hstep.1, hstep.2.1⟩, hfind⟩
  | file => cases hspot
  | stay => cases hspot
  | jump _ _ _ _ ih =>
    refine ih (dir_linkStart _ hdir) (fun name hmem => ?_) hspot
    rcases List.mem_append.mp hmem with hmem | hmem
    · exact Path.isSegment_of_mem_steps hmem
    · exact hnames name (List.mem_cons_of_mem _ hmem)

theorem Walked.absent_none (h : Walked files follow links here names (.absent location)) :
    files.find? location = none := by
  rcases h.ends with ⟨place, hcontra⟩ | ⟨place, hplace⟩
  · cases hcontra
  · obtain ⟨rfl, hfind⟩ := Ground.find?_of_spotAt_absent hplace
    exact hfind

/-- A walk that ends at nothing ends there as well if it follows a link at its end, for there is none. -/
theorem Walked.absent_follow (h : Walked files follow links here names (.absent location)) :
    Walked files true links here names (.absent location) := by
  generalize hspot : Spot.absent location = spot at h ⊢
  induction h with
  | done => cases hspot
  | dot _ ih => exact .dot (ih hspot)
  | up _ ih => exact .up (ih hspot)
  | dir hstep hfind _ ih => exact .dir hstep hfind (ih hspot)
  | absent hstep hfind => exact .absent hstep hfind
  | file => cases hspot
  | stay => cases hspot
  | jump hstep hfind _ _ ih => exact .jump hstep hfind (by simp) (ih hspot)

/-- A walk that ends at nothing leads to the directory that is made there. -/
theorem Walked.put_dir (h : Walked files true links here names (.absent location)) :
    Walked (files.put location .dir) true links here names (.present location .dir) := by
  have hnone := h.absent_none
  have hfull : location ≠ [] := by
    rintro rfl
    rw [find?_nil] at hnone
    cases hnone
  -- nothing was where the directory comes, so all that the walk passes is still there
  have hkept {place : Location} {entry : Entry} (hfind : files.find? place = some entry) :
      (files.put location .dir).find? place = some entry := by
    have hother : place ≠ location := by
      rintro rfl
      rw [hnone] at hfind
      cases hfind
    rw [find?_put_of_ne hother, hfind]
  generalize hspot : Spot.absent location = spot at h
  induction h with
  | done => cases hspot
  | dot _ ih => exact .dot (ih hspot)
  | up _ ih => exact .up (ih hspot)
  | dir hstep hfind _ ih => exact .dir hstep (hkept hfind) (ih hspot)
  | absent hstep hfind =>
    cases hspot
    exact .dir hstep (find?_put_self hfull _ _) .done
  | file => cases hspot
  | stay _ _ hfollow => cases hfollow
  | jump hstep hfind hgo _ ih => exact .jump hstep (hkept hfind) hgo (ih hspot)

/-- A walk in a directory with nothing in it ends there or right inside, if it does not go up. -/
theorem Walked.in_hollow (hhollow : ∀ name, files.find? (here ++ [name]) = none) (hdown : (".." : Raw) ∉ names)
    (h : Walked files follow links here names spot) :
    spot = .present here .dir ∨ ∃ name, spot = .absent (here ++ [name]) := by
  induction h with
  | done => exact .inl rfl
  | dot _ ih => exact ih hhollow (List.not_mem_of_not_mem_cons hdown)
  | up => exact absurd List.mem_cons_self hdown
  | dir _ hfind => rw [hhollow] at hfind; cases hfind
  | absent => exact .inr ⟨_, rfl⟩
  | file _ hfind => rw [hhollow] at hfind; cases hfind
  | stay _ hfind => rw [hhollow] at hfind; cases hfind
  | jump _ hfind => rw [hhollow] at hfind; cases hfind

/-! ## One directory -/

theorem spot_of_leads (hleads : files.Leads path location) (husable : Usable path) :
    files.spot true path = .ok (.present location .dir) := by
  unfold Files.spot
  rw [walkFor_eq husable, Path.steps_eq]
  split
  · obtain ⟨left, hleft⟩ := (walk_eq_ok.mp hleads).through
    rw [hleft true _ (List.cons_ne_nil _ _), walk_cons, if_pos rfl, walk_nil]
  · rw [List.append_nil]
    exact hleads

theorem isDirectory_of_spot (h : files.spot true path = .ok (.present location .dir)) :
    files.isDirectory path = true := by
  unfold isDirectory target?
  rw [h]
  rfl

theorem spot_of_isDirectory (h : files.isDirectory path = true) :
    ∃ location, files.spot true path = .ok (.present location .dir) := by
  have htarget : files.target? path = some .dir := eq_of_beq h
  unfold target? at htarget
  split at htarget
  · next location entry hspot =>
    cases htarget
    exact ⟨location, hspot⟩
  · cases htarget

theorem dir_start (hhome : files.find? files.home = some .dir) (path : Path) :
    files.find? (files.start path) = some .dir := by
  unfold start
  split
  · exact find?_nil files
  · exact hhome

theorem start_congr (habsolute : parent.isAbsolute = path.isAbsolute) (files : Files) :
    files.start parent = files.start path := by
  unfold start
  rw [habsolute]

theorem leads_of_isEmpty (h : path.isEmpty = true) (files : Files) : files.Leads path (files.start path) := by
  unfold Leads Path.stops
  rw [List.isEmpty_iff.mp h]
  exact walk_nil

theorem Leads.dir (hproper : files.Proper) (hhome : files.find? files.home = some .dir)
    (hleads : files.Leads path location) : files.find? location = some .dir := by
  obtain ⟨place, hplace⟩ := (walk_eq_ok.mp hleads).reached hproper (dir_start hhome path)
  obtain ⟨rfl, hfind⟩ := Ground.find?_of_spotAt hplace
  exact hfind

/-- A directory is made where the walk along the steps of its path ends at nothing. -/
theorem makeDir_eq_ok (h : files.makeDir path = .ok files') : ∃ location, Usable path ∧
    Walked files true mostLinks (files.start path) path.stops (.absent location) ∧
      files' = files.put location .dir := by
  obtain ⟨spot, hplace, h⟩ := bind_eq_ok.mp h
  cases spot with
  | present location entry => cases h
  | absent location =>
    cases h
    have husable := usable_of_walkFor hplace
    unfold place at hplace
    rw [walkFor_eq husable, Path.steps_eq, Path.stops_bare] at hplace
    refine ⟨location, husable, ?_, rfl⟩
    have hwalked := walk_eq_ok.mp hplace
    split at hwalked
    · obtain ⟨here, left, -, hdot⟩ := hwalked.split (List.cons_ne_nil _ _)
      cases hdot.dot_eq
    · rw [List.append_nil] at hwalked
      exact hwalked.absent_follow

/-- Nothing has changed but that directories have been made where there was nothing. -/
structure Grown (files files' : Files) : Prop where
  home : files'.home = files.home
  found : ∀ location, files'.find? location = files.find? location ∨
    files.find? location = none ∧ files'.find? location = some .dir

namespace Grown

theorem refl (files : Files) : Grown files files :=
  ⟨rfl, fun _ => .inl rfl⟩

theorem trans {files'' : Files} (h : Grown files files') (h' : Grown files' files'') : Grown files files'' where
  home := h'.home.trans h.home
  found := by
    intro location
    rcases h'.found location with hsame | ⟨hnone, hdir⟩
    · rw [hsame]
      exact h.found location
    · rcases h.found location with hsame | ⟨-, hcontra⟩
      · exact .inr ⟨hsame ▸ hnone, hdir⟩
      · rw [hnone] at hcontra
        cases hcontra

theorem put (hnone : files.find? location = none) : Grown files (files.put location .dir) where
  home := rfl
  found := by
    intro place
    by_cases hsame : place = location
    · subst hsame
      refine .inr ⟨hnone, find?_put_self ?_ _ _⟩
      rintro rfl
      rw [find?_nil] at hnone
      cases hnone
    · exact .inl (find?_put_of_ne hsame _ _)

theorem roads (h : Grown files files') : Roads files files' := by
  intro location entry hfind _
  rcases h.found location with hsame | ⟨hnone, -⟩
  · rw [hsame, hfind]
  · rw [hfind] at hnone
    cases hnone

end Grown

theorem ensureDir_cases {result : Except Fault Unit} (h : files.ensureDir path = (result, files')) :
    result = .ok () ∧ files.makeDir path = .ok files' ∨
      files' = files ∧ (result = .ok () → files.isDirectory path = true) := by
  unfold ensureDir at h
  split at h
  · next made hmade =>
    cases h
    exact .inl ⟨rfl, hmade⟩
  · cases h
    refine .inr ⟨rfl, fun hok => ?_⟩
    split at hok
    · assumption
    · cases hok

theorem grown_of_ensureDir {result : Except Fault Unit} (h : files.ensureDir path = (result, files')) :
    Grown files files' := by
  rcases ensureDir_cases h with ⟨-, hmade⟩ | ⟨rfl, -⟩
  · obtain ⟨location, -, hwalked, rfl⟩ := makeDir_eq_ok hmade
    exact .put hwalked.absent_none
  · exact .refl files'

theorem isDirectory_of_ensureDir (h : files.ensureDir path = (.ok (), files')) : files'.isDirectory path = true := by
  rcases ensureDir_cases h with ⟨-, hmade⟩ | ⟨rfl, hdir⟩
  · obtain ⟨location, husable, hwalked, rfl⟩ := makeDir_eq_ok hmade
    exact isDirectory_of_spot (spot_of_leads hwalked.put_dir.walk_eq husable)
  · exact hdir rfl

/-! ## A directory and those around it -/

/-- A directory is made as it is, or once more after its parent has been made. -/
theorem makeDirsUpTo_cases {levels : Nat} {result : Except Fault Unit} (hempty : path.isEmpty = false)
    (h : makeDirsUpTo (levels + 1) path files = (result, files')) :
    files.ensureDir path = (result, files') ∨
      files.ensureDir path = (.error .notFound, files) ∧
        (files' = files ∧ (∀ done, result ≠ .ok done) ∨
        ∃ parent outcome files₁, path.parent? = some parent ∧
          makeDirsUpTo levels parent files = (outcome, files₁) ∧
          ((∀ done, outcome ≠ .ok done) ∧ result = outcome ∧ files' = files₁ ∨
            outcome = .ok () ∧ files₁.ensureDir path = (result, files'))) := by
  unfold makeDirsUpTo at h
  rw [hempty, if_neg Bool.false_ne_true] at h
  split at h
  · next same hmissing =>
    have hsame : same = files := by
      rcases ensureDir_cases hmissing with ⟨hcontra, -⟩ | ⟨hsame, -⟩
      · cases hcontra
      · exact hsame
    -- a directory that cannot be made leaves the files alone, so the parent is made in them
    rw [hsame] at h hmissing
    right
    refine ⟨hmissing, ?_⟩
    split at h
    · cases h
      exact .inl ⟨rfl, fun done hok => by cases hok⟩
    · next parent hparent =>
      right
      split at h
      · next files₁ hup => exact ⟨parent, .ok (), files₁, hparent, hup, .inr ⟨rfl, h⟩⟩
      · next hfailed =>
        refine ⟨parent, result, files', hparent, h, .inl ⟨fun done hok => ?_, rfl, rfl⟩⟩
        exact hfailed files' (hok ▸ h)
  · exact .inl h

theorem grown_of_makeDirsUpTo {levels : Nat} {result : Except Fault Unit}
    (h : makeDirsUpTo levels path files = (result, files')) : Grown files files' := by
  induction levels generalizing path result files' with
  | zero =>
    cases h
    exact .refl files
  | succ levels ih =>
    by_cases hempty : path.isEmpty = true
    · unfold makeDirsUpTo at h
      rw [if_pos hempty] at h
      cases h
      exact .refl files
    · rcases makeDirsUpTo_cases (Bool.eq_false_iff.mpr hempty) h with hensure | ⟨-, ⟨rfl, -⟩ | hparent⟩
      · exact grown_of_ensureDir hensure
      · exact .refl files'
      · obtain ⟨parent, outcome, files₁, -, hup, ⟨-, -, rfl⟩ | ⟨-, hensure⟩⟩ := hparent
        · exact ih hup
        · exact (ih hup).trans (grown_of_ensureDir hensure)

theorem grown_of_makeDirs {result : Except Fault Unit} (h : files.makeDirs path = (result, files')) :
    Grown files files' :=
  grown_of_makeDirsUpTo h

theorem isDirectory_of_makeDirs (hempty : path.isEmpty = false) (h : files.makeDirs path = (.ok (), files')) :
    files'.isDirectory path = true := by
  rcases makeDirsUpTo_cases hempty h with hensure | ⟨-, ⟨-, hfails⟩ | hparent⟩
  · exact isDirectory_of_ensureDir hensure
  · exact absurd rfl (hfails ())
  · obtain ⟨parent, outcome, files₁, -, -, ⟨hfails, hok, -⟩ | ⟨-, hensure⟩⟩ := hparent
    · exact absurd hok.symm (hfails ())
    · exact isDirectory_of_ensureDir hensure

/-- A path that goes up only from directories that are there. -/
def Solid (files : Files) (path : Path) : Prop :=
  ∀ front back : List Raw, path.stops = front ++ (".." : Raw) :: back →
    ∃ here, walk files true mostLinks (files.start path) front = .ok (.present here .dir)

/-- A path leads to a directory that was not there before. What has been made is on the way to it. -/
structure Founded (path : Path) (place : Location) (files files' : Files) : Prop where
  leads : files'.Leads path place
  opened : Opened place files files'
  free : files.find? place = none

theorem Opened.extend {more : List Raw} (h : Opened place files files') :
    Opened (place ++ more) files files' where
  proper := h.proper
  home := h.home
  found := fun location => (h.found location).imp id fun ⟨hnone, hdir, hway⟩ =>
    ⟨hnone, hdir, hway.trans (List.prefix_append _ _)⟩

/-- What is below a directory that was not there before is nothing. -/
theorem Opened.hollow (h : Opened place files files') (hproper : files.Proper) (hnone : files.find? place = none)
    (hbelow : Below place location) : files'.find? location = none := by
  rcases h.found location with hsame | ⟨-, -, hway⟩
  · rw [hsame]
    exact hproper.none_of_below hbelow hnone
  · obtain ⟨name, rest, rfl⟩ := hbelow
    exact absurd hway.length_le (by simp)

theorem Opened.home_dir (h : Opened place files files') (hhome : files.find? files.home = some .dir) :
    files'.find? files'.home = some .dir := by
  rw [h.home]
  exact h.roads _ _ hhome nofun

namespace Founded

/-- A directory that is made where there is nothing, in one that is there. -/
theorem of_makeDir (hproper : files.Proper) (hhome : files.find? files.home = some .dir)
    (h : files.makeDir path = .ok files') :
    ∃ place, Walked files true mostLinks (files.start path) path.stops (.absent place) ∧
      Founded path place files files' := by
  obtain ⟨location, -, hwalked, rfl⟩ := makeDir_eq_ok h
  obtain ⟨around, name, rfl, hdir, hname, hnone⟩ := hwalked.absent_cases hproper (dir_start hhome path)
    fun name hmem => Path.isSegment_of_mem_stops hmem
  exact ⟨_, hwalked, hwalked.put_dir.walk_eq, .put hproper hdir hname hnone List.prefix_rfl, hnone⟩

section Parent

variable {more : List Raw} (hproper : files.Proper) (hhome : files.find? files.home = some .dir)
  (hsolid : files.Solid path) (habsolute : parent.isAbsolute = path.isAbsolute)
  (hstops : path.stops = parent.stops ++ more) (h : Founded parent place files files')

include hproper hhome hsolid habsolute hstops h

/-- The path does not go up from a parent that was not there. -/
theorem not_up : (".." : Raw) ∉ more := by
  intro hup
  -- what the path goes up from was there before, and so was the parent on the way to it
  obtain ⟨front, back, hmore⟩ := List.append_of_mem hup
  obtain ⟨here, hfront⟩ := hsolid (parent.stops ++ front) back (by rw [hstops, hmore, List.append_assoc])
  rw [← start_congr habsolute] at hfront
  have hparent : ∃ location, files.Leads parent location := by
    by_cases hend : front = []
    · exact ⟨here, by rwa [hend, List.append_nil] at hfront⟩
    · obtain ⟨location, left, hfirst, -⟩ := (walk_eq_ok.mp hfront).split hend
      exact ⟨location, hfirst.walk_eq⟩
  obtain ⟨location, hleads⟩ := hparent
  have hplace := (hleads.mono h.opened.home h.opened.roads).unique h.leads
  have hdir := hleads.dir hproper hhome
  rw [hplace, h.free] at hdir
  cases hdir

/-- After the parent, the path leads to it, or to what is right inside. -/
theorem walked_eq (hwalked : Walked files' true mostLinks (files'.start path) path.stops spot) :
    spot = .present place .dir ∨ ∃ name, spot = .absent (place ++ [name]) := by
  rw [← start_congr habsolute, hstops] at hwalked
  -- the walk comes to the parent first, and goes on in a directory with nothing in it
  by_cases hend : more = []
  · rw [hend, List.append_nil] at hwalked
    exact .inl (Except.ok.inj (hwalked.walk_eq.symm.trans h.leads))
  · obtain ⟨left, hleft⟩ := (walk_eq_ok.mp h.leads).through
    have hmore := walk_eq_ok.mp ((hleft true more hend).symm.trans hwalked.walk_eq)
    refine hmore.in_hollow (fun name => ?_) (h.not_up hproper hhome hsolid habsolute hstops)
    exact h.opened.hollow hproper h.free ⟨name, [], rfl⟩

/-- After the parent, the directory is made right inside, if the path does not lead to the parent itself. -/
theorem step {files'' : Files} (hensure : files'.ensureDir path = (.ok (), files'')) :
    ∃ place, Founded path place files files'' := by
  rcases ensureDir_cases hensure with ⟨-, hmade⟩ | ⟨rfl, hdir⟩
  · obtain ⟨inner, hwalked, hinner⟩ := of_makeDir h.opened.proper (h.opened.home_dir hhome) hmade
    rcases h.walked_eq hproper hhome hsolid habsolute hstops hwalked with hcontra | ⟨name, hplace⟩
    · cases hcontra
    · cases hplace
      exact ⟨_, hinner.leads, h.opened.extend.trans hinner.opened, hproper.none_of_below ⟨name, [], rfl⟩ h.free⟩
  · obtain ⟨location, hspot⟩ := spot_of_isDirectory (hdir rfl)
    have hleads := leads_of_spot hspot
    rcases h.walked_eq hproper hhome hsolid habsolute hstops (walk_eq_ok.mp hleads) with hplace | ⟨name, hcontra⟩
    · cases hplace
      exact ⟨place, hleads, h.opened, h.free⟩
    · cases hcontra

end Parent

end Founded

theorem Solid.of_parent {more : List Raw} (hsolid : files.Solid path)
    (habsolute : parent.isAbsolute = path.isAbsolute) (hstops : path.stops = parent.stops ++ more) :
    files.Solid parent := by
  intro front back hup
  obtain ⟨here, hfront⟩ := hsolid front (back ++ more) (by rw [hstops, hup, List.append_assoc, List.cons_append])
  exact ⟨here, start_congr habsolute files ▸ hfront⟩

/-- A path that leads to a directory is solid. -/
theorem Leads.solid (hleads : files.Leads path location) : files.Solid path := by
  intro front back hup
  unfold Leads at hleads
  rw [hup] at hleads
  obtain ⟨here, left, hfront, -⟩ := (walk_eq_ok.mp hleads).split (List.cons_ne_nil _ _)
  exact ⟨here, hfront.walk_eq⟩

theorem founded_of_makeDirsUpTo {levels : Nat} (hproper : files.Proper)
    (hhome : files.find? files.home = some .dir) (hsolid : files.Solid path)
    (h : makeDirsUpTo levels path files = (.ok (), files')) :
    files' = files ∨ ∃ place, Founded path place files files' := by
  induction levels generalizing path files' with
  | zero =>
    cases h
    exact .inl rfl
  | succ levels ih =>
    by_cases hempty : path.isEmpty = true
    · unfold makeDirsUpTo at h
      rw [if_pos hempty] at h
      cases h
      exact .inl rfl
    · rcases makeDirsUpTo_cases (Bool.eq_false_iff.mpr hempty) h with hensure | ⟨hmissing, ⟨-, hfails⟩ | hparent⟩
      · rcases ensureDir_cases hensure with ⟨-, hmade⟩ | ⟨hsame, -⟩
        · obtain ⟨place, -, hfounded⟩ := Founded.of_makeDir hproper hhome hmade
          exact .inr ⟨place, hfounded⟩
        · exact .inl hsame
      · exact absurd rfl (hfails ())
      · obtain ⟨parent, outcome, files₁, hparent, hup, ⟨hfails, hok, -⟩ | ⟨rfl, hensure⟩⟩ := hparent
        · exact absurd hok.symm (hfails ())
        · obtain ⟨habsolute, more, hstops⟩ := Path.stops_of_parent? hparent
          rcases ih (hsolid.of_parent habsolute hstops) hup with rfl | ⟨place, hfounded⟩
          · -- with the same tree as before, the directory would be missing again
            cases hmissing.symm.trans hensure
          · exact .inr (hfounded.step hproper hhome hsolid habsolute hstops hensure)

/-- **A directory that is made is there in the end, and nothing has changed but on the way to it.** Either it was
there already, or there was nothing in its place. -/
theorem founded_of_makeDirs (hproper : files.Proper) (hhome : files.find? files.home = some .dir)
    (hsolid : files.Solid path) (h : files.makeDirs path = (.ok (), files')) :
    ∃ place, files'.Leads path place ∧ Opened place files files' ∧
      (files' = files ∨ files.find? place = none) := by
  rcases founded_of_makeDirsUpTo hproper hhome hsolid h with rfl | ⟨place, hfounded⟩
  · have hleads : ∃ place, files'.Leads path place := by
      by_cases hempty : path.isEmpty = true
      · exact ⟨_, leads_of_isEmpty hempty files'⟩
      · obtain ⟨place, hspot⟩ := spot_of_isDirectory (isDirectory_of_makeDirs (Bool.eq_false_iff.mpr hempty) h)
        exact ⟨place, leads_of_spot hspot⟩
    obtain ⟨place, hleads⟩ := hleads
    exact ⟨place, hleads, .refl hproper, .inl rfl⟩
  · exact ⟨place, hfounded.leads, hfounded.opened, .inr hfounded.free⟩

end Files

end Bindery
