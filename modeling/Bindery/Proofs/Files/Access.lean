import Bindery.Files.Access
import Bindery.Proofs.Files.Ground

/-!
# `Proofs.Files.Access` — operations on ground without links

What an operation on a path below a directory without links has done when it ends well, in terms of what
look-up finds where the names of the path say.

**Contents.**
* `Ground.read_eq`, `Ground.isDirectory_eq`, `Ground.isFile_below` — looking;
* `copy_eq_ok`, `Writable`, `Ground.write_eq`, `Ground.copy_eq` — files;
* `Ground.makeDir_eq`, `Ground.ensureDir_eq`, `Paved`, `Ground.makeDirs_eq` — directories;
* `Ground.unlink_eq`, `Ground.unlink_notFound` — taking a file away.
-/

namespace Bindery.Files

variable {files files' : Files} {root path : Path} {base : Location} {names : List Raw}

/-- A file can be written at a location: it is in a directory, and there is no directory in its place. -/
structure Writable (files : Files) (base : Location) (names : List Raw) : Prop where
  around : files.find? (base ++ names.dropLast) = some .dir
  free : files.find? (base ++ names) ≠ some .dir

/-- Whether there is an executable file at a location. -/
def executableAt (files : Files) (location : Location) : Bool :=
  match files.find? location with
  | some (.file _ executable) => executable
  | _ => false

theorem executableAt_file {location : Location} {content : Content} {executable : Bool}
    (h : files.find? location = some (.file content executable)) : files.executableAt location = executable := by
  unfold executableAt
  rw [h]

theorem executableAt_none {location : Location} (h : files.find? location = none) :
    files.executableAt location = false := by
  unfold executableAt
  rw [h]

/-- What is in a place after two changes, if each of them only makes a directory where there is nothing. -/
theorem made_trans {old between new : Option Entry} {allowed : Prop}
    (h : between = old ∨ old = none ∧ between = some .dir ∧ allowed)
    (h' : new = between ∨ between = none ∧ new = some .dir ∧ allowed) :
    new = old ∨ old = none ∧ new = some .dir ∧ allowed := by
  rcases h' with rfl | ⟨rfl, rfl, hallowed⟩
  · exact h
  · rcases h with rfl | ⟨-, hdir, -⟩
    · exact .inr ⟨rfl, rfl, hallowed⟩
    · cases hdir

/-- What is in a place is still there if nothing has been done to it but to make a directory where there is nothing. -/
theorem kept_of_made {old new : Option Entry} {entry : Entry} {allowed : Prop}
    (h : new = old ∨ old = none ∧ new = some .dir ∧ allowed) (hold : old = some entry) : new = some entry := by
  rcases h with hsame | ⟨hnone, -, -⟩
  · rw [hsame, hold]
  · rw [hold] at hnone
    cases hnone

/-- A tree in which directories on the way to a location have been made. -/
structure Paved (files files' : Files) (root : Path) (base : Location) (names : List Raw) : Prop where
  ground : files'.Ground root base
  home : files'.home = files.home
  found : ∀ location, files'.find? location = files.find? location ∨
    files.find? location = none ∧ files'.find? location = some .dir ∧
      ∃ pre, pre ≠ [] ∧ pre <+: names ∧ location = base ++ pre

namespace Paved

theorem refl (hground : files.Ground root base) : Paved files files root base names :=
  ⟨hground, rfl, fun _ => .inl rfl⟩

theorem trans {files'' : Files} (h : Paved files files' root base names)
    (h' : Paved files' files'' root base names) : Paved files files'' root base names where
  ground := h'.ground
  home := h'.home.trans h.home
  found := fun location => made_trans (h.found location) (h'.found location)

theorem extend {more : List Raw} (h : Paved files files' root base names) :
    Paved files files' root base (names ++ more) where
  ground := h.ground
  home := h.home
  found := fun location => (h.found location).imp id fun ⟨hnone, hdir, pre, hfull, hpre, hlocation⟩ =>
    ⟨hnone, hdir, pre, hfull, hpre.trans (List.prefix_append _ _), hlocation⟩

theorem of_put (hground : files.Ground root base) (hbelow : root.IsBelow names path)
    (hnone : files.find? (base ++ names) = none)
    (haround : files.find? (base ++ names.dropLast) = some .dir) :
    Paved files (files.put (base ++ names) .dir) root base names where
  ground := hground.put hbelow.full hbelow.named haround (by simp) fun _ => rfl
  home := rfl
  found := by
    intro location
    by_cases hsame : location = base ++ names
    · subst hsame
      refine .inr ⟨hnone, find?_put_self (by simp [hbelow.full]) _ _, names, hbelow.full, ?_, rfl⟩
      exact List.prefix_rfl
    · exact .inl (find?_put_of_ne hsame _ _)

end Paved

/-- Directories that have been made have not taken the place of anything. -/
theorem Paved.kept {location : Location} {entry : Entry} (h : Paved files files' root base names)
    (hfind : files.find? location = some entry) : files'.find? location = some entry :=
  kept_of_made (h.found location) hfind

/-- What has been made is on the way to the location. -/
theorem Paved.on_way (h : Paved files files' root base names) (location : Location) :
    files'.find? location = files.find? location ∨
      files.find? location = none ∧ files'.find? location = some .dir ∧ location <+: base ++ names :=
  (h.found location).imp id fun ⟨hnone, hdir, _, _, hpre, hlocation⟩ =>
    ⟨hnone, hdir, hlocation ▸ (List.prefix_append_right_inj base).mpr hpre⟩

theorem Paved.roads (h : Paved files files' root base names) : Roads files files' :=
  fun _ _ hfind _ => h.kept hfind

/-- Unless something is missing on the way, a directory is made as it is, without those around it. -/
theorem makeDirsUpTo_succ {levels : Nat} {result : Except Fault Unit} (hempty : path.isEmpty = false)
    (hensure : files.ensureDir path = (result, files')) (hother : result ≠ .error .notFound) :
    makeDirsUpTo (levels + 1) path files = (result, files') := by
  unfold makeDirsUpTo
  rw [hempty, if_neg Bool.false_ne_true, hensure]
  split
  · next heq =>
    cases heq
    exact absurd rfl hother
  · rfl

/-- A copy that ends well has put the file that the source leads to where the other path can be written. -/
theorem copy_eq_ok {source : Path} (h : files.copy source path = .ok files') :
    ∃ location content executable place mode,
      files.spot true source = .ok (.present location (.file content executable)) ∧
      files.writable path = .ok (place, mode) ∧
      files' = files.put place (.file (if place = location then Content.empty else content) executable) := by
  obtain ⟨spot, hspot, h⟩ := bind_eq_ok.mp h
  cases spot with
  | absent location => cases h
  | present location entry =>
    cases entry with
    | dir => cases h
    | link target => cases h
    | file content executable =>
      obtain ⟨⟨place, mode⟩, hwritable, h⟩ := bind_eq_ok.mp h
      cases h
      exact ⟨location, content, executable, place, mode, hspot, hwritable, rfl⟩

namespace Ground

/-! ## Looking -/

theorem target?_eq {entry : Entry} (hground : files.Ground root base) (hbelow : root.IsBelow names path)
    (h : files.target? path = some entry) : files.find? (base ++ names) = some entry := by
  unfold target? at h
  split at h
  · next location entry' hspot =>
    cases h
    exact (find?_of_spotAt (hground.spot_eq hbelow hspot).1).2
  · cases h

theorem isDirectory_eq (hground : files.Ground root base) (hbelow : root.IsBelow names path)
    (h : files.isDirectory path = true) : files.find? (base ++ names) = some .dir :=
  hground.target?_eq hbelow (eq_of_beq h)

/-- A file that is there is found, unless something about its path is too long. -/
theorem isFile_below {content : Content} {executable : Bool} {name : Raw}
    (hground : files.Ground root base) (hnames : ∀ name' ∈ names ++ [name], Path.IsName name')
    (husable : Usable (root.below (names ++ [name])))
    (hshort : ∀ name' ∈ names ++ [name], name'.size ≤ longestName)
    (hfind : files.find? (base ++ (names ++ [name])) = some (.file content executable)) :
    files.isFile (root.below (names ++ [name])) = true := by
  have hbelow : root.IsBelow (names ++ [name]) (root.below (names ++ [name])) :=
    ⟨by simp, hnames, .inl rfl⟩
  have hdir : files.find? (base ++ names) = some .dir :=
    hground.proper.closed _ _ _ ((List.append_assoc _ _ _).symm ▸ hfind)
  have hleads := hground.leads
  unfold Leads start at hleads
  rw [← hbelow.isAbsolute] at hleads
  obtain ⟨left, hleft⟩ := (walk_eq_ok.mp hleads).through
  have hspot : files.spot true (root.below (names ++ [name])) =
      .ok (.present (base ++ (names ++ [name])) (.file content executable)) := by
    unfold Files.spot
    rw [Path.IsBelow.steps_below hbelow.full hnames, Files.walkFor_eq husable]
    unfold start
    rw [hleft true _ hbelow.full]
    rcases walk_names hground.proper hnames hground.plain hdir with hwalk | ⟨-, name', hmem, hlong⟩
    · rw [hwalk, spotAt_eq hfind]
    · exact absurd (hshort name' hmem) (Nat.not_le.mpr hlong)
  unfold Files.isFile Files.target?
  rw [hspot]

theorem read_eq {content : Content} (hground : files.Ground root base) (hbelow : root.IsBelow names path)
    (h : files.read path = .ok content) :
    ∃ executable, files.find? (base ++ names) = some (.file content executable) := by
  obtain ⟨spot, hspot, h⟩ := bind_eq_ok.mp h
  cases spot with
  | absent location => cases h
  | present location entry =>
    have hfind := (find?_of_spotAt (hground.spot_eq hbelow hspot).1).2
    cases entry with
    | dir => cases h
    | link target => cases h
    | file content' executable => cases h; exact ⟨executable, hfind⟩

/-! ## Files -/

theorem writable_eq {location : Location} {executable : Bool} (hground : files.Ground root base)
    (hbelow : root.IsBelow names path) (h : files.writable path = .ok (location, executable)) :
    Writable files base names ∧ location = base ++ names ∧
      executable = files.executableAt (base ++ names) := by
  unfold executableAt
  unfold writable at h
  split at h
  · obtain ⟨spot, -, h⟩ := bind_eq_ok.mp h
    cases h
  · obtain ⟨spot, hspot, h⟩ := bind_eq_ok.mp h
    obtain ⟨hspotAt, haround⟩ := hground.spot_eq hbelow hspot
    cases spot with
    | absent place =>
      cases h
      obtain ⟨rfl, hfind⟩ := find?_of_spotAt_absent hspotAt
      exact ⟨⟨haround, by rw [hfind]; simp⟩, rfl, by rw [hfind]⟩
    | present place entry =>
      obtain ⟨rfl, hfind⟩ := find?_of_spotAt hspotAt
      cases entry with
      | dir => cases h
      | link target => cases h
      | file content executable' =>
        cases h
        exact ⟨⟨haround, by rw [hfind]; simp⟩, rfl, by rw [hfind]⟩

theorem putFile (hground : files.Ground root base) (hbelow : root.IsBelow names path)
    (hwritable : Writable files base names) (content : Content) (executable : Bool) :
    (files.put (base ++ names) (.file content executable)).Ground root base :=
  hground.put hbelow.full hbelow.named hwritable.around (by simp)
    fun hdir => absurd hdir hwritable.free

theorem write_eq {content : Content} (hground : files.Ground root base)
    (hbelow : root.IsBelow names path) (h : files.write path content = .ok files') :
    Writable files base names ∧
      files' = files.put (base ++ names) (.file content (files.executableAt (base ++ names))) := by
  obtain ⟨⟨location, executable⟩, hwritable, h⟩ := bind_eq_ok.mp h
  obtain ⟨hplace, rfl, rfl⟩ := hground.writable_eq hbelow hwritable
  cases h
  exact ⟨hplace, rfl⟩

theorem usable_of_write {content : Content} (h : files.write path content = .ok files') : Usable path := by
  obtain ⟨⟨location, executable⟩, hwritable, -⟩ := bind_eq_ok.mp h
  unfold writable at hwritable
  split at hwritable
  · obtain ⟨spot, -, hslash⟩ := bind_eq_ok.mp hwritable
    cases hslash
  · obtain ⟨spot, hspot, -⟩ := bind_eq_ok.mp hwritable
    exact usable_of_walkFor hspot

/-- A file is copied from one ground to another, or to another place on the same one. -/
theorem copy_eq {origin source : Path} {start : Location} {names' : List Raw} (hground : files.Ground root base)
    (horigin : files.Ground origin start) (hsource : origin.IsBelow names' source)
    (hbelow : root.IsBelow names path) (hother : base ++ names ≠ start ++ names')
    (h : files.copy source path = .ok files') :
    Writable files base names ∧ ∃ content executable,
      files.find? (start ++ names') = some (.file content executable) ∧
      files' = files.put (base ++ names) (.file content executable) := by
  obtain ⟨location, content, executable, place, mode, hspot, hwritable, rfl⟩ := copy_eq_ok h
  obtain ⟨rfl, hfind⟩ := find?_of_spotAt (horigin.spot_eq hsource hspot).1
  obtain ⟨hplace, rfl, -⟩ := hground.writable_eq hbelow hwritable
  rw [if_neg hother]
  exact ⟨hplace, content, executable, hfind, rfl⟩

/-- A file in the place of another one, or of nothing, is in nobody's way. -/
theorem roads_putFile (hground : files.Ground root base) (hwritable : Writable files base names)
    (content : Content) (executable : Bool) : Roads files (files.put (base ++ names) (.file content executable)) :=
  .putFile (hground.plain names) hwritable.free content executable

/-! ## Directories -/

theorem makeDir_eq (hground : files.Ground root base) (hbelow : root.IsBelow names path)
    (h : files.makeDir path = .ok files') :
    files.find? (base ++ names) = none ∧ files.find? (base ++ names.dropLast) = some .dir ∧
      files' = files.put (base ++ names) .dir := by
  obtain ⟨spot, hspot, h⟩ := bind_eq_ok.mp h
  obtain ⟨hspotAt, haround⟩ := hground.place_eq hbelow hspot
  cases spot with
  | present location entry => cases h
  | absent location =>
    cases h
    obtain ⟨rfl, hfind⟩ := find?_of_spotAt_absent hspotAt
    exact ⟨hfind, haround, rfl⟩

theorem ensureDir_eq {result : Except Fault Unit} (hground : files.Ground root base)
    (hbelow : root.IsBelow names path) (h : files.ensureDir path = (result, files')) :
    (files' = files ∧ (result = .ok () → files.find? (base ++ names) = some .dir)) ∨
      (result = .ok () ∧ files.find? (base ++ names) = none ∧
        files.find? (base ++ names.dropLast) = some .dir ∧ files' = files.put (base ++ names) .dir) := by
  unfold ensureDir at h
  split at h
  · next made hmade =>
    cases h
    obtain ⟨hnone, haround, rfl⟩ := hground.makeDir_eq hbelow hmade
    exact .inr ⟨rfl, hnone, haround, rfl⟩
  · next fault _ =>
    cases h
    refine .inl ⟨rfl, fun hok => ?_⟩
    split at hok
    · next hdir => exact hground.isDirectory_eq hbelow hdir
    · cases hok

/-- Right below the ground a directory can be made, unless something is there or the path is too long. -/
theorem dropLast_ne_nil_of_notFound (hground : files.Ground root base) (hbelow : root.IsBelow names path)
    (h : files.ensureDir path = (.error .notFound, files')) : names.dropLast ≠ [] := by
  intro hnil
  obtain ⟨init, name, rfl⟩ := Path.eq_concat hbelow.full
  rw [List.dropLast_concat] at hnil
  subst hnil
  have hmake : files.makeDir path = .error .notFound := by
    unfold ensureDir at h
    split at h
    · cases h
    · next fault hmake =>
      split at h
      · cases h
      · cases h
        exact hmake
  -- nothing but the look-up of the place can say that something is not found
  have hplace : files.place path = .error .notFound := by
    unfold makeDir at hmake
    cases hplace : files.place path with
    | error fault => rw [hplace] at hmake; cases hmake; rfl
    | ok spot => rw [hplace] at hmake; cases spot <;> cases hmake
  unfold Files.place at hplace
  rw [hbelow.bare] at hplace
  have hdir : files.find? (base ++ []) = some .dir := by
    rw [List.append_nil]
    exact hground.dir
  rcases hground.walkFor_or_long hbelow hdir with hwalk | hwalk | hwalk <;>
    (rw [hwalk] at hplace; cases hplace)

theorem paved_ensureDir {result : Except Fault Unit} (hground : files.Ground root base)
    (hbelow : root.IsBelow names path) (h : files.ensureDir path = (result, files')) :
    Paved files files' root base names ∧ (result = .ok () → files'.find? (base ++ names) = some .dir) := by
  rcases hground.ensureDir_eq hbelow h with ⟨rfl, hdir⟩ | ⟨-, hnone, haround, rfl⟩
  · exact ⟨.refl hground, hdir⟩
  · exact ⟨.of_put hground hbelow hnone haround, fun _ => find?_put_self (by simp [hbelow.full]) _ _⟩

/-- Going up to the first directory that can be made, and down again, makes directories on the way only. -/
theorem paved_makeDirsUpTo {levels : Nat} {result : Except Fault Unit} (hground : files.Ground root base)
    (hbelow : root.IsBelow names path) (h : makeDirsUpTo levels path files = (result, files')) :
    Paved files files' root base names ∧
      (levels ≠ 0 → result = .ok () → files'.find? (base ++ names) = some .dir) := by
  induction levels generalizing path names result files' with
  | zero =>
    cases h
    exact ⟨.refl hground, fun hzero => absurd rfl hzero⟩
  | succ levels ih =>
    unfold makeDirsUpTo at h
    rw [hbelow.isEmpty, if_neg Bool.false_ne_true] at h
    split at h
    -- the directory around it is missing, and is made first
    · next same hmissing =>
      obtain ⟨init, name, rfl⟩ := Path.eq_concat hbelow.full
      have hinit : init ≠ [] := by
        have hdrop := hground.dropLast_ne_nil_of_notFound hbelow hmissing
        rwa [List.dropLast_concat] at hdrop
      have hsame : same = files := by
        rcases hground.ensureDir_eq hbelow hmissing with ⟨hsame, -⟩ | ⟨hok, -⟩
        · exact hsame
        · cases hok
      obtain ⟨parent, hparent, hbelow'⟩ := hbelow.parent? hinit
      rw [hparent, hsame] at h
      dsimp only at h
      split at h
      · next files₁ hup =>
        have hpaved := (ih hbelow' hup).1
        obtain ⟨hpaved', hdir⟩ := hpaved.ground.paved_ensureDir hbelow h
        exact ⟨hpaved.extend.trans hpaved', fun _ => hdir⟩
      · next hfailed =>
        refine ⟨(ih hbelow' h).1.extend, fun _ hok => ?_⟩
        subst hok
        exact absurd h (hfailed files')
    · obtain ⟨hpaved, hdir⟩ := hground.paved_ensureDir hbelow h
      exact ⟨hpaved, fun _ => hdir⟩

theorem makeDirs_eq {result : Except Fault Unit} (hground : files.Ground root base)
    (hbelow : root.IsBelow names path) (h : files.makeDirs path = (result, files')) :
    Paved files files' root base names ∧ (result = .ok () → files'.find? (base ++ names) = some .dir) := by
  obtain ⟨hpaved, hdir⟩ := hground.paved_makeDirsUpTo hbelow h
  exact ⟨hpaved, hdir (Nat.succ_ne_zero _)⟩

/-! ## Taking away -/

theorem unlink_eq (hground : files.Ground root base) (hbelow : root.IsBelow names path)
    (h : files.unlink path = .ok files') :
    (∃ content executable, files.find? (base ++ names) = some (.file content executable)) ∧
      files' = files.remove (base ++ names) := by
  obtain ⟨spot, hspot, h⟩ := bind_eq_ok.mp h
  cases spot with
  | absent location => cases h
  | present location entry =>
    obtain ⟨rfl, hfind⟩ := find?_of_spotAt (hground.place_eq hbelow hspot).1
    cases entry with
    | dir => cases h
    | link target => exact absurd hfind (hground.plain _ _)
    | file content executable =>
      dsimp only at h
      split at h
      · cases h
      · cases h
        exact ⟨⟨content, executable, hfind⟩, rfl⟩

/-- What is not found cannot be there. -/
theorem unlink_notFound (hground : files.Ground root base) (hbelow : root.IsBelow names path)
    (h : files.unlink path = .error .notFound) : files.find? (base ++ names) = none := by
  obtain ⟨init, name, rfl⟩ := Path.eq_concat hbelow.full
  cases hfind : files.find? (base ++ (init ++ [name])) with
  | none => rfl
  | some entry =>
    have haround : files.find? (base ++ init) = some .dir :=
      hground.proper.closed _ _ _ ((List.append_assoc _ _ _).symm ▸ hfind)
    have hplace : files.place path = files.walkFor false path (root.stops ++ (init ++ [name])) := by
      unfold Files.place
      rw [hbelow.bare]
    unfold unlink at h
    rw [hplace] at h
    -- the walk finds the entry, or fails with another fault than the one told
    rcases hground.walkFor_or_long hbelow haround with hwalk | hwalk | hwalk
    · rw [hwalk, spotAt_eq hfind] at h
      cases entry with
      | dir => cases h
      | link target => exact absurd hfind (hground.plain _ _)
      | file content executable =>
        have h : (if path.endsInSlash then Except.error Fault.notDirectory
          else Except.ok (files.remove (base ++ (init ++ [name])))) = .error .notFound := h
        split at h <;> cases h
    · rw [hwalk] at h
      cases h
    · rw [hwalk] at h
      cases h

end Ground

end Bindery.Files
