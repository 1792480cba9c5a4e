import Bindery.Proofs.Files.Inside

/-!
# `Proofs.Files.Nested` — a directory in a directory

A name in a directory, and another name in what is under the first one (`Nest`). There may be links all
around, but neither name is one of a link. The path of the second name then leads to what look-up finds
there (`Nest.spot_eq`), and making the directory makes at most the two directories (`Nest.makeDirs_eq`):
what is above them is there already, so that going up ends with the first one.

**Contents.**
* `Opened` — a tree in which directories on the way to a location have been made;
* `Nest` with `Nest.spot_eq`, `Nest.change` and `Nest.makeDirs_eq`.
-/

namespace Bindery.Files

variable {files files' : Files} {follow : Bool} {path : Path} {base location place : Location}
  {around name : Raw} {spot : Spot}

/-- Directories on the way to a location have been made, and nothing else has changed. -/
structure Opened (place : Location) (files files' : Files) : Prop where
  proper : files'.Proper
  home : files'.home = files.home
  found : ∀ location, files'.find? location = files.find? location ∨
    files.find? location = none ∧ files'.find? location = some .dir ∧ location <+: place

namespace Opened

theorem refl (hproper : files.Proper) : Opened place files files :=
  ⟨hproper, rfl, fun _ => .inl rfl⟩

theorem trans {files'' : Files} (h : Opened place files files') (h' : Opened place files' files'') :
    Opened place files files'' where
  proper := h'.proper
  home := h'.home.trans h.home
  found := fun location => made_trans (h.found location) (h'.found location)

theorem put (hproper : files.Proper) (hdir : files.find? base = some .dir) (hname : Path.IsName name)
    (hnone : files.find? (base ++ [name]) = none) (hway : base ++ [name] <+: place) :
    Opened place files (files.put (base ++ [name]) .dir) where
  proper := hproper.put hdir hname fun _ => rfl
  home := rfl
  found := by
    intro location
    by_cases hsame : location = base ++ [name]
    · subst hsame
      exact .inr ⟨hnone, find?_put_self (by simp) _ _, hway⟩
    · exact .inl (find?_put_of_ne hsame _ _)

theorem roads (h : Opened place files files') : Roads files files' :=
  fun location _ hfind _ => kept_of_made (h.found location) hfind

/-- No link has been made. -/
theorem link (h : Opened place files files') {target : Path} (hfind : files'.find? location = some (.link target)) :
    files.find? location = some (.link target) := by
  rcases h.found location with hsame | ⟨-, hdir, -⟩
  · rw [← hsame, hfind]
  · rw [hdir] at hfind
    cases hfind

end Opened

/-- A directory that a path leads to. There is no link under a name in it, nor under another name in what is
there. -/
structure Nest (files : Files) (path : Path) (base : Location) (around name : Raw) : Prop where
  proper : files.Proper
  leads : files.Leads path base
  dir : files.find? base = some .dir
  outer : ∀ target, files.find? (base ++ [around]) ≠ some (.link target)
  inner : ∀ target, files.find? (base ++ [around, name]) ≠ some (.link target)

namespace Nest

theorem inner_eq (base : Location) (around name : Raw) :
    base ++ [around, name] = base ++ [around] ++ [name] := by simp

theorem change (h : files.Nest path base around name) (hopened : Opened place files files') :
    files'.Nest path base around name where
  proper := hopened.proper
  leads := h.leads.mono hopened.home hopened.roads
  dir := hopened.roads _ _ h.dir (by simp)
  outer := fun target hfind => h.outer target (hopened.link hfind)
  inner := fun target hfind => h.inner target (hopened.link hfind)

/-- Making the first directory makes nothing above it. -/
theorem makeDirsUpTo_outer {levels : Nat} {result : Except Fault Unit} (h : files.Nest path base around name)
    (haround : Path.IsName around)
    (hmade : makeDirsUpTo levels (path.join ⟨around⟩) files = (result, files')) :
    Opened (base ++ [around, name]) files files' := by
  cases levels with
  | zero =>
    cases hmade
    exact .refl h.proper
  | succ levels =>
    cases hensure : files.ensureDir (path.join ⟨around⟩) with
    | mk outcome made =>
      obtain ⟨hother, hstep⟩ := h.leads.ensureDir_eq haround hensure
      cases (makeDirsUpTo_succ (Path.isEmpty_join_name haround) hensure hother).symm.trans hmade
      rcases hstep with ⟨rfl, -⟩ | ⟨hnone, rfl⟩
      · exact .refl h.proper
      · exact .put h.proper h.dir haround hnone ⟨[name], by simp⟩

section Names

variable (haround : Path.IsName around) (hname : Path.IsName name)

include haround hname

/-- **The two names lead to what look-up finds there,** by way of a directory. -/
theorem spot_eq (h : files.Nest path base around name)
    (hspot : files.spot follow ((path.join ⟨around⟩).join ⟨name⟩) = .ok spot) :
    files.find? (base ++ [around]) = some .dir ∧ spot = files.spotAt (base ++ [around, name]) := by
  have hbelow : path.IsBelow [around, name] ((path.join ⟨around⟩).join ⟨name⟩) :=
    (haround.isBelow path).join hname
  unfold Files.spot at hspot
  have hsteps : ((path.join ⟨around⟩).join ⟨name⟩).steps = path.stops ++ [around, name] ++ [] := by
    rw [Path.steps_join_name hname, Path.stops_join_name haround]
    simp
  rw [hsteps] at hspot
  obtain ⟨location, left, hleads, hwalked⟩ := leads_of_walkFor hbelow hspot
  cases hleads.unique h.leads
  have hwalked : Walked files follow left base ([around] ++ [name]) spot := hwalked
  obtain ⟨location', left', hfirst, hsecond⟩ := hwalked.split (List.cons_ne_nil _ _)
  obtain ⟨rfl, houter⟩ := Ground.find?_of_spotAt (hfirst.name_eq haround h.outer)
  have hinner := h.inner
  rw [inner_eq] at hinner ⊢
  exact ⟨houter, hsecond.name_eq hname hinner⟩

theorem find?_of_isDirectory (h : files.Nest path base around name)
    (hdir : files.isDirectory ((path.join ⟨around⟩).join ⟨name⟩) = true) :
    files.find? (base ++ [around]) = some .dir ∧ files.find? (base ++ [around, name]) = some .dir := by
  have htarget : files.target? ((path.join ⟨around⟩).join ⟨name⟩) = some .dir := eq_of_beq hdir
  unfold target? at htarget
  split at htarget
  · next location entry hspot =>
    cases htarget
    obtain ⟨houter, hspot⟩ := h.spot_eq haround hname hspot
    exact ⟨houter, (Ground.find?_of_spotAt hspot).2⟩
  · cases htarget

/-- Without the first directory the second one is not made. -/
theorem ensureDir_missing (h : files.Nest path base around name)
    (hmissing : files.find? (base ++ [around]) ≠ some .dir) :
    ∃ fault, files.ensureDir ((path.join ⟨around⟩).join ⟨name⟩) = (.error fault, files) := by
  have hmake : ∃ fault, files.makeDir ((path.join ⟨around⟩).join ⟨name⟩) = .error fault := by
    cases hspot : files.spot false ((path.join ⟨around⟩).join ⟨name⟩) with
    | ok spot => exact absurd (h.spot_eq haround hname hspot).1 hmissing
    | error fault =>
      refine ⟨fault, ?_⟩
      unfold makeDir Files.place
      unfold Files.spot at hspot
      rw [Path.bare_join_name hname, hspot]
      rfl
  obtain ⟨fault, hmake⟩ := hmake
  have hno : files.isDirectory ((path.join ⟨around⟩).join ⟨name⟩) = false :=
    Bool.eq_false_iff.mpr fun hdir => hmissing (h.find?_of_isDirectory haround hname hdir).1
  refine ⟨fault, ?_⟩
  unfold ensureDir
  rw [hmake, hno]
  rfl

variable (hshort : around.size ≤ longestName)

include hshort

/-- With the first directory there, the second one is made in it, or not at all. -/
theorem ensureDir_eq {result : Except Fault Unit} (h : files.Nest path base around name)
    (houter : files.find? (base ++ [around]) = some .dir)
    (hensure : files.ensureDir ((path.join ⟨around⟩).join ⟨name⟩) = (result, files')) :
    result ≠ .error .notFound ∧ Opened (base ++ [around, name]) files files' ∧ (result = .ok () →
      files'.find? (base ++ [around, name]) = some .dir ∧
        (files.isDirectory ((path.join ⟨around⟩).join ⟨name⟩) = true ∨
          files.find? (base ++ [around, name]) = none)) := by
  have hleads := h.leads.join haround hshort houter
  obtain ⟨hother, hstep⟩ := hleads.ensureDir_eq hname hensure
  refine ⟨hother, ?_⟩
  rcases hstep with ⟨rfl, hdir⟩ | ⟨hnone, rfl⟩
  · exact ⟨.refl h.proper, fun hok =>
      ⟨(h.find?_of_isDirectory haround hname (hdir hok)).2, .inl (hdir hok)⟩⟩
  · rw [inner_eq]
    exact ⟨.put h.proper houter hname hnone List.prefix_rfl, fun _ =>
      ⟨find?_put_self (by simp) _ _, .inr hnone⟩⟩

/-- **Making the second directory makes at most the two,** also when it fails. -/
theorem makeDirs_eq {result : Except Fault Unit} (h : files.Nest path base around name)
    (hmade : files.makeDirs ((path.join ⟨around⟩).join ⟨name⟩) = (result, files')) :
    Opened (base ++ [around, name]) files files' ∧ (result = .ok () →
      files'.find? (base ++ [around, name]) = some .dir ∧
        (files.isDirectory ((path.join ⟨around⟩).join ⟨name⟩) = true ∨
          files.find? (base ++ [around, name]) = none)) := by
  by_cases houter : files.find? (base ++ [around]) = some .dir
  · cases hensure : files.ensureDir ((path.join ⟨around⟩).join ⟨name⟩) with
    | mk outcome made =>
      obtain ⟨hother, hopened, hdone⟩ := h.ensureDir_eq haround hname hshort houter hensure
      cases (makeDirsUpTo_succ (Path.isEmpty_join_name hname) hensure hother).symm.trans hmade
      exact ⟨hopened, hdone⟩
  · obtain ⟨fault, hensure⟩ := h.ensureDir_missing haround hname houter
    unfold makeDirs makeDirsUpTo at hmade
    rw [Path.isEmpty_join_name hname, if_neg Bool.false_ne_true, hensure] at hmade
    split at hmade
    · -- the first directory is made, and then the second one once more
      next heq =>
      cases heq
      rw [Path.parent?_join_join haround hname] at hmade
      dsimp only at hmade
      split at hmade
      · next made hup =>
        have hopened := h.makeDirsUpTo_outer haround hup
        have hnest := h.change hopened
        by_cases houter' : made.find? (base ++ [around]) = some .dir
        · obtain ⟨-, hopened', hdone⟩ := hnest.ensureDir_eq haround hname hshort houter' hmade
          refine ⟨hopened.trans hopened', fun hok => ⟨(hdone hok).1, .inr ?_⟩⟩
          cases hfind : files.find? (base ++ [around, name]) with
          | none => rfl
          | some entry =>
            rw [inner_eq] at hfind
            exact absurd (h.proper.closed _ _ _ hfind) houter
        · obtain ⟨fault', hfails⟩ := hnest.ensureDir_missing haround hname houter'
          cases hfails.symm.trans hmade
          refine ⟨hopened, fun hok => ?_⟩
          cases hok
      · next hfailed =>
        refine ⟨h.makeDirsUpTo_outer haround hmade, fun hok => ?_⟩
        subst hok
        exact absurd hmade (hfailed files')
    · cases hmade
      refine ⟨.refl h.proper, fun hok => ?_⟩
      cases hok

end Names

end Nest

end Bindery.Files
