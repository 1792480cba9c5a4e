import Bindery.Proofs.Build.Cleaning
import Bindery.Proofs.Files.Making
import Mathlib.Data.List.Basic

/-!
# `Proofs.Build.Emptying` — a directory is emptied, and nothing else

Emptying a directory that is there takes away what is below the place that its path leads to, entry by entry, and does
not follow a link in it. A directory that is missing is made. Whatever the path is like, nothing that is not below
that place is lost or replaced (`emptyDir_spares`).

Apart from the empty path, there are two kinds of paths for which a run that ends well does not leave an empty
directory behind (`emptyDir_misses`). One goes up from a part that is missing: it is made into directories that lead
to one with something in it. The other one goes through what is in the directory itself, so that the path leads
nowhere afterwards, and a second run makes the way anew. For all other paths the directory is there and empty, and a
second run changes nothing; among those that go up only from directories that are there, this is so for no others
(`emptyDir_empties`). In which order directories give their names makes no difference to any of this.

**Contents.**
* `emptyDir_empty` — a directory with nothing in it;
* `emptyDir_spares` — what no run that ends well takes away;
* `Direct`, `Cleared`, `emptyDir_empties` — an empty directory, and a second run;
* `emptyDir_misses` — the other paths.
-/

namespace Bindery.Build

open Files (Below Opened Thinned)

variable {files files' : Files} {dir : Path} {location place : Location} {order : Files.Order}

/-! ## One run -/

/-- There is nothing to be taken away from an empty directory. -/
theorem emptyDir_empty (hproper : files.Proper) (h : files.spot true dir = .ok (.present place .dir))
    (hempty : ∀ location, Below place location → files.find? location = none) (order : Files.Order) :
    (emptyDir dir order).run files = (.ok (), files) := by
  have hhas : files.has dir = true := by
    unfold Files.has Files.target?
    rw [h]
    rfl
  have hopen : files.openDir dir = .ok place := by
    unfold Files.openDir
    rw [h]
    rfl
  have hnames : order.arrange (files.names place) = [] := by
    refine List.eq_nil_iff_forall_not_mem.mpr fun name hmem => ?_
    obtain ⟨entry, hfind⟩ := (mem_arrange hproper order).mp hmem
    rw [hempty _ Files.below_concat] at hfind
    cases hfind
  have hlook : (Work.look .reading dir fun files => files.openDir dir).run files = (.ok place, files) := by
    rw [Work.look, Work.run_get, hopen]
    rfl
  rw [emptyDir_run, if_pos hhas, run_bind, hlook]
  show ((order.arrange (files.names place)).forM (removeEntry dir place)).run files = _
  rw [hnames]
  rfl

/-- A run that ends well has swept a directory, or has made one where the path led nowhere. -/
theorem emptyDir_eq_ok (hproper : files.Proper) (h : (emptyDir dir order).run files = (.ok (), files')) :
    (∃ place, files.spot true dir = .ok (.present place .dir) ∧ Thinned (Below place) files files' ∧
        Swept dir place files') ∨
      files.has dir = false ∧ files.makeDirs dir = (.ok (), files') := by
  rcases emptyDir_cases h with ⟨place, hspot, hsteps⟩ | ⟨-, hfails⟩ | ⟨hhas, outcome, hmade, houtcome⟩
  · obtain ⟨hthinned, hswept⟩ := run_sweep hproper (Files.leads_of_spot hspot) hsteps
    exact .inl ⟨place, hspot, hthinned, hswept rfl⟩
  · exact absurd rfl hfails
  · cases houtcome rfl
    exact .inr ⟨hhas, hmade⟩

/-- **Nothing is lost but what is below the place that the path leads to.** -/
theorem emptyDir_spares (hproper : files.Proper) (h : (emptyDir dir order).run files = (.ok (), files'))
    (hout : ∀ place, files.Leads dir place → ¬Below place location) :
    files'.find? location = files.find? location ∨
      files.find? location = none ∧ files'.find? location = some .dir := by
  rcases emptyDir_eq_ok hproper h with ⟨place, hspot, hthinned, -⟩ | ⟨-, hmade⟩
  · exact .inl (hthinned.kept (hout place (Files.leads_of_spot hspot)))
  · exact (Files.grown_of_makeDirs hmade).found location

/-! ## An empty directory -/

/-- The way to a directory does not go through what is in it. -/
def Direct (files : Files) (dir : Path) : Prop :=
  ∀ place, files.Leads dir place → (files.clear place).Leads dir place

/-- A path leads to a directory in which there is nothing. Nothing else has changed, but that directories on the way
to it have been made. -/
structure Cleared (dir : Path) (place : Location) (files files' : Files) : Prop where
  there : files'.spot true dir = .ok (.present place .dir)
  empty : ∀ location, Below place location → files'.find? location = none
  kept : ∀ location, ¬Below place location → files'.find? location = files.find? location ∨
    files.find? location = none ∧ files'.find? location = some .dir ∧ location <+: place

theorem Cleared.of_swept (hspot : files.spot true dir = .ok (.present place .dir)) (hdirect : Direct files dir)
    (hthinned : Thinned (Below place) files files') (hswept : Swept dir place files') :
    Cleared dir place files files' := by
  -- what the way goes through is not in the directory, and so it is still there
  have hleads : files'.Leads dir place := by
    refine (hdirect place (Files.leads_of_spot hspot)).mono hthinned.home fun location entry hfind _ => ?_
    by_cases hbelow : Below place location
    · rw [Files.find?_clear_of_below hbelow] at hfind
      cases hfind
    · rwa [Files.find?_clear_of_not_below hbelow, ← hthinned.kept hbelow] at hfind
  exact ⟨Files.spot_of_leads hleads (Files.usable_of_walkFor hspot), hswept.empty hleads,
    fun location hout => .inl (hthinned.kept hout)⟩

theorem Cleared.of_opened (hproper : files.Proper) (hspot : files'.spot true dir = .ok (.present place .dir))
    (hopened : Opened place files files') (hnone : files.find? place = none) : Cleared dir place files files' where
  there := hspot
  empty := fun _ hbelow => hopened.hollow hproper hnone hbelow
  kept := fun location _ => hopened.found location

/-- What has been emptied was led to on a way outside of it, by a path that is not empty. -/
theorem Cleared.direct (hproper : files.Proper) (hcleared : Cleared dir place files files')
    (hsame : ∀ location, files.Leads dir location → location = place)
    (h : (emptyDir dir order).run files = (.ok (), files')) : dir.isEmpty = false ∧ Direct files dir := by
  have husable := Files.usable_of_walkFor hcleared.there
  refine ⟨husable.2.1, fun location hleads => ?_⟩
  cases hsame location hleads
  have hspot := Files.spot_of_leads hleads husable
  rcases emptyDir_eq_ok hproper h with ⟨place', hspot', hthinned, -⟩ | ⟨hhas, -⟩
  · cases hspot.symm.trans hspot'
    refine (Files.leads_of_spot hcleared.there).mono hthinned.home.symm fun location entry hfind _ => ?_
    by_cases hbelow : Below place location
    · rw [hcleared.empty _ hbelow] at hfind
      cases hfind
    · rw [Files.find?_clear_of_not_below hbelow]
      exact hthinned.left hfind
  · unfold Files.has Files.target? at hhas
    rw [hspot] at hhas
    cases hhas

/-- A directory is there and empty after a run that ends well, and a second run changes nothing. -/
theorem cleared_of_emptyDir (hproper : files.Proper) (hhome : files.find? files.home = some .dir)
    (hfull : dir.isEmpty = false) (hsolid : files.Solid dir) (hdirect : Direct files dir)
    (h : (emptyDir dir order).run files = (.ok (), files')) :
    ∃ place, (∀ location, files.Leads dir location → location = place) ∧ Cleared dir place files files' ∧
      ∀ again, (emptyDir dir again).run files' = (.ok (), files') := by
  rcases emptyDir_eq_ok hproper h with ⟨place, hspot, hthinned, hswept⟩ | ⟨hhas, hmade⟩
  · have hcleared := Cleared.of_swept hspot hdirect hthinned hswept
    refine ⟨place, fun location hleads => hleads.unique (Files.leads_of_spot hspot), hcleared, ?_⟩
    exact emptyDir_empty hthinned.proper hcleared.there hcleared.empty
  · obtain ⟨place, hspot⟩ := Files.spot_of_isDirectory (Files.isDirectory_of_makeDirs hfull hmade)
    obtain ⟨place', hleads, hopened, hbefore⟩ := Files.founded_of_makeDirs hproper hhome hsolid hmade
    cases hleads.unique (Files.leads_of_spot hspot)
    -- a directory that the path led to would have been swept instead
    have hnowhere (location : Location) : ¬files.Leads dir location := by
      intro hbefore
      have hthere := Files.spot_of_leads hbefore (Files.usable_of_walkFor hspot)
      unfold Files.has Files.target? at hhas
      rw [hthere] at hhas
      cases hhas
    have hnone : files.find? place = none := by
      rcases hbefore with rfl | hnone
      · exact absurd hleads (hnowhere place)
      · exact hnone
    have hcleared := Cleared.of_opened hproper hspot hopened hnone
    exact ⟨place, fun location hleads => absurd hleads (hnowhere location), hcleared,
      emptyDir_empty hopened.proper hcleared.there hcleared.empty⟩

/-- **A run that ends well empties one directory, and a second one changes nothing.** Nothing is lost but what is
below the place that the path leads to. If the path goes up only from directories that are there, the directory is
there and empty afterwards exactly if the path is not empty and does not go through what is in the directory
itself. The order in which the directory gives its names may be any, and another one for the second run. -/
theorem emptyDir_empties (hproper : files.Proper) (hhome : files.find? files.home = some .dir)
    (h : (emptyDir dir order).run files = (.ok (), files')) :
    (∀ location, (∀ place, files.Leads dir place → ¬Below place location) →
      files'.find? location = files.find? location ∨
        files.find? location = none ∧ files'.find? location = some .dir) ∧
    (files.Solid dir → (dir.isEmpty = false ∧ Direct files dir ↔
      ∃ place, (∀ location, files.Leads dir location → location = place) ∧ Cleared dir place files files' ∧
        ∀ again, (emptyDir dir again).run files' = (.ok (), files'))) := by
  refine ⟨fun location hout => emptyDir_spares hproper h hout, fun hsolid => ⟨?_, ?_⟩⟩
  · rintro ⟨hfull, hdirect⟩
    exact cleared_of_emptyDir hproper hhome hfull hsolid hdirect h
  · rintro ⟨place, hsame, hcleared, -⟩
    exact hcleared.direct hproper hsame h

/-- A directory with a directory, a link out of it and a link to nothing, and something below another one. -/
def attic : Files where
  home := []
  entries :=
    [(["b"], .dir), (["b", "d"], .dir), (["b", "d", "gone"], .link ⟨"nowhere"⟩), (["b", "d", "n"], .dir),
     (["b", "d", "n", "f"], .file (.ofText "f") false), (["b", "d", "out"], .link ⟨"../../keep"⟩),
     (["keep"], .dir), (["keep", "g"], .file (.ofText "g") false)]

theorem attic_proper : attic.Proper :=
  .of_entries (by unfold Dict.Sorted; decide +kernel) (by decide +kernel) (by decide +kernel)

/-- The links are taken away and not what they lead to. A directory that is missing is made with the one around it,
also if its path goes up on the way. -/
theorem emptyDir_empties_attic :
    (∃ files', (emptyDir ⟨"b/d"⟩).run attic = (.ok (), files') ∧
      files'.find? ["keep", "g"] = some (.file (.ofText "g") false) ∧
      files'.find? ["b", "d", "out"] = none ∧ (emptyDir ⟨"b/d"⟩).run files' = (.ok (), files')) ∧
    ∃ files', (emptyDir ⟨"b/../e/f"⟩).run attic = (.ok (), files') ∧
      (∃ place, Cleared ⟨"b/../e/f"⟩ place attic files') ∧
      (emptyDir ⟨"b/../e/f"⟩).run files' = (.ok (), files') := by
  constructor
  · have hleads : attic.Leads ⟨"b/d"⟩ ["b", "d"] := rfl
    have hdirect : Direct attic ⟨"b/d"⟩ := by
      intro place hplace
      cases hplace.unique hleads
      rfl
    have hrun : (emptyDir ⟨"b/d"⟩).run attic = (.ok (), attic.clear ["b", "d"]) := rfl
    obtain ⟨hspares, hempties⟩ := emptyDir_empties attic_proper (by decide +kernel) hrun
    obtain ⟨place, hsame, hcleared, hagain⟩ := (hempties hleads.solid).mp ⟨by decide, hdirect⟩
    cases hsame _ hleads
    refine ⟨_, hrun, ?_, hcleared.empty _ ⟨"out", [], rfl⟩, hagain _⟩
    have hout : ∀ place, attic.Leads ⟨"b/d"⟩ place → ¬Below place ["keep", "g"] := by
      intro place hplace
      cases hplace.unique hleads
      decide
    rcases hspares _ hout with hkept | ⟨hnone, -⟩
    · exact hkept
    · cases hnone
  · have hsolid : attic.Solid ⟨"b/../e/f"⟩ := by
      intro front back hstops
      have hsplit : (["b", "..", "e", "f"] : List Raw) = front ++ (".." : Raw) :: back := hstops
      rcases List.cons_eq_append_iff.mp hsplit with ⟨-, hfirst⟩ | ⟨front, rfl, hrest⟩
      · exact absurd (List.cons.inj hfirst).1 (by decide)
      rcases List.cons_eq_append_iff.mp hrest with ⟨rfl, -⟩ | ⟨front, rfl, hlater⟩
      · exact ⟨["b"], rfl⟩
      · have hup : (".." : Raw) ∈ (["e", "f"] : List Raw) := hlater ▸ List.mem_append_right front List.mem_cons_self
        exact absurd hup (by decide)
    have hdirect : Direct attic ⟨"b/../e/f"⟩ := by
      intro place hleads
      have hmissing : attic.walk true Files.mostLinks [] ["b", "..", "e", "f"] = .error .notFound := rfl
      cases hmissing.symm.trans hleads
    have hok : ((emptyDir ⟨"b/../e/f"⟩).run attic).1.isOk = true := by decide +kernel
    cases hrun : (emptyDir ⟨"b/../e/f"⟩).run attic with
    | mk result files' =>
      rw [hrun] at hok
      cases result with
      | error fault => cases hok
      | ok done =>
        obtain ⟨-, hempties⟩ := emptyDir_empties attic_proper (by decide +kernel) hrun
        obtain ⟨place, -, hcleared, hagain⟩ := (hempties hsolid).mp ⟨by decide, hdirect⟩
        exact ⟨files', rfl, ⟨place, hcleared⟩, hagain _⟩

/-- A directory with a file in it, and one that has only a directory in it. -/
def landing : Files where
  home := []
  entries :=
    [(["a"], .dir), (["a", "c"], .dir), (["a", "c", "f"], .file (.ofText "f") false), (["d"], .dir),
     (["d", "x"], .dir)]

/-- A path that goes up from a part that is missing leads to a directory that has not been emptied. One that goes
through what is in the directory leads nowhere when that has been taken away, and the next run makes the way anew.
Nothing is made for the empty path, which leads nowhere before and after. -/
theorem emptyDir_misses :
    (landing.has ⟨"a/b/../c"⟩ = false ∧ ∃ files', (emptyDir ⟨"a/b/../c"⟩).run landing = (.ok (), files') ∧
      files'.spot true ⟨"a/b/../c"⟩ = .ok (.present ["a", "c"] .dir) ∧
      files'.find? ["a", "c", "f"] = some (.file (.ofText "f") false)) ∧
    (landing.spot true ⟨"d/x/.."⟩ = .ok (.present ["d"] .dir) ∧
      ∃ files' files'', (emptyDir ⟨"d/x/.."⟩).run landing = (.ok (), files') ∧
        files'.has ⟨"d/x/.."⟩ = false ∧ (emptyDir ⟨"d/x/.."⟩).run files' = (.ok (), files'') ∧
        files'.find? ["d", "x"] = none ∧ files''.find? ["d", "x"] = some .dir) ∧
    landing.has ⟨""⟩ = false ∧ (emptyDir ⟨""⟩).run landing = (.ok (), landing) := by
  refine ⟨?_, ?_, ?_⟩
  · refine ⟨rfl, landing.put ["a", "b"] .dir, ?_, rfl, rfl⟩
    exact Prod.ext (by decide +kernel) (by decide +kernel)
  · refine ⟨rfl, landing.clear ["d"], landing, ?_, rfl, ?_, rfl, rfl⟩
    · exact Prod.ext (by decide +kernel) (by decide +kernel)
    · exact Prod.ext (by decide +kernel) (by decide +kernel)
  · refine ⟨rfl, ?_⟩
    exact Prod.ext (by decide +kernel) (by decide +kernel)

/-- The names, the last one first. -/
def lastFirst : Files.Order :=
  ⟨List.reverse, List.reverse_perm⟩

/-- Where the path goes through one entry of several, it depends on the order which of them are taken away. -/
example :
    let files := landing.put ["d", "f"] (.file (.ofText "f") false)
    ((emptyDir ⟨"d/x/.."⟩ lastFirst).run files).1 =
        .error (.files .removing ⟨"d/x/../f"⟩ .notFound) ∧
      ((emptyDir ⟨"d/x/.."⟩ lastFirst).run files).2.find? ["d", "f"] = some (.file (.ofText "f") false) ∧
      ((emptyDir ⟨"d/x/.."⟩).run files).1 = .ok () := by
  decide +kernel

end Bindery.Build
