import Bindery.Files.Walk
import Bindery.Proofs.Files.Proper
import Bindery.Proofs.Outcome

/-!
# `Proofs.Files.Walk` — where walks lead

A walk that ends well is a derivation with one rule for each way to take a name (`Walked`). Everything
about walks is an induction over it.

A walk along names goes through a directory after a first part of them, or it does not end well
(`Walked.through`, `Walked.split`). The first part may follow links; in a place without links the second
part leads where its names say, so that what a walk finds there is what look-up finds (`Walked.spot_eq`).
Two trees in which the same directories and links are where they were lead a walk to the same directories
(`Walked.mono`).

**Contents.**
* `IsStep`, `Walked`, `walk_eq_ok` — the derivations, and that they are the walks that end well;
* `Walked.through`, `Walked.split` — walks in two parts;
* `Roads`, `Walked.mono` — trees that agree on directories and links;
* `Files.spotAt`, `Walked.spot_eq`, `walk_names`, `walk_congr` — walks in a place without links.
-/

namespace Bindery.Files

/-- A name that is looked up, and is not too long for that. -/
def IsStep (name : Raw) : Prop :=
  name ≠ "." ∧ name ≠ ".." ∧ name.size ≤ longestName

/-- Where a walk goes on when it follows a link. -/
def linkStart (target : Path) (here : Location) : Location :=
  if target.isAbsolute then [] else here

/-- The walks that end well, with at most `links` links followed. -/
inductive Walked (files : Files) (follow : Bool) : (links : Nat) → Location → List Raw → Spot → Prop where
  | done {links here} : Walked files follow links here [] (.present here .dir)
  | dot {links here rest spot} (walked : Walked files follow links here rest spot) :
      Walked files follow links here ("." :: rest) spot
  | up {links here rest spot} (walked : Walked files follow links here.dropLast rest spot) :
      Walked files follow links here (".." :: rest) spot
  | dir {links here name rest spot} (hstep : IsStep name)
      (hfind : files.find? (here ++ [name]) = some .dir)
      (walked : Walked files follow links (here ++ [name]) rest spot) :
      Walked files follow links here (name :: rest) spot
  | absent {links here name} (hstep : IsStep name) (hfind : files.find? (here ++ [name]) = none) :
      Walked files follow links here [name] (.absent (here ++ [name]))
  | file {links here name content executable} (hstep : IsStep name)
      (hfind : files.find? (here ++ [name]) = some (.file content executable)) :
      Walked files follow links here [name] (.present (here ++ [name]) (.file content executable))
  | stay {links here name target} (hstep : IsStep name)
      (hfind : files.find? (here ++ [name]) = some (.link target)) (hfollow : follow = false) :
      Walked files follow links here [name] (.present (here ++ [name]) (.link target))
  | jump {links here name rest spot target} (hstep : IsStep name)
      (hfind : files.find? (here ++ [name]) = some (.link target)) (hgo : ¬(rest = [] ∧ follow = false))
      (walked : Walked files follow links (linkStart target here) (target.steps ++ rest) spot) :
      Walked files follow (links + 1) here (name :: rest) spot

/-! ## Derivations are the walks that end well -/

variable {files files' : Files} {follow : Bool} {links : Nat} {here location : Location}
  {names more : List Raw} {spot : Spot}

/-- How a walk goes on after a link has been replaced by the path it holds. -/
def jump (files : Files) (follow : Bool) : (links : Nat) → Location → List Raw → Except Fault Spot
  | 0 => fun _ _ => .error .tooManyLinks
  | links + 1 => walk files follow links

theorem walk_eq (files : Files) (follow : Bool) (links : Nat) :
    walk files follow links = walkNames files follow (jump files follow links) := by
  cases links <;> rfl

theorem walk_nil : walk files follow links here [] = .ok (.present here .dir) := by
  rw [walk_eq]
  rfl

/-- A walk goes name by name. -/
theorem walk_cons (files : Files) (follow : Bool) (links : Nat) (here : Location) (name : Raw)
    (rest : List Raw) :
    walk files follow links here (name :: rest) =
      if name = "." then walk files follow links here rest
      else if name = ".." then walk files follow links here.dropLast rest
      else if longestName < name.size then .error .nameTooLong
      else match files.find? (here ++ [name]) with
        | none => if rest = [] then .ok (.absent (here ++ [name])) else .error .notFound
        | some .dir => walk files follow links (here ++ [name]) rest
        | some (.file content executable) =>
          if rest = [] then .ok (.present (here ++ [name]) (.file content executable))
          else .error .notDirectory
        | some (.link target) =>
          if rest = [] ∧ follow = false then .ok (.present (here ++ [name]) (.link target))
          else jump files follow links (linkStart target here) (target.steps ++ rest) := by
  rw [walk_eq]
  rfl

theorem walk_step {name : Raw} (hstep : IsStep name) (rest : List Raw) :
    walk files follow links here (name :: rest) =
      match files.find? (here ++ [name]) with
        | none => if rest = [] then .ok (.absent (here ++ [name])) else .error .notFound
        | some .dir => walk files follow links (here ++ [name]) rest
        | some (.file content executable) =>
          if rest = [] then .ok (.present (here ++ [name]) (.file content executable))
          else .error .notDirectory
        | some (.link target) =>
          if rest = [] ∧ follow = false then .ok (.present (here ++ [name]) (.link target))
          else jump files follow links (linkStart target here) (target.steps ++ rest) := by
  rw [walk_cons, if_neg hstep.1, if_neg hstep.2.1, if_neg (Nat.not_lt.mpr hstep.2.2)]

theorem Walked.walk_eq (h : Walked files follow links here names spot) :
    walk files follow links here names = .ok spot := by
  induction h with
  | done => exact walk_nil
  | dot _ ih => rw [walk_cons, if_pos rfl, ih]
  | up _ ih => rw [walk_cons, if_neg (by decide), if_pos rfl, ih]
  | dir hstep hfind _ ih => rw [walk_step hstep, hfind]; exact ih
  | absent hstep hfind => rw [walk_step hstep, hfind]; rfl
  | file hstep hfind => rw [walk_step hstep, hfind]; rfl
  | stay hstep hfind hfollow => rw [walk_step hstep, hfind]; exact if_pos ⟨rfl, hfollow⟩
  | jump hstep hfind hgo _ ih => rw [walk_step hstep, hfind]; exact (if_neg hgo).trans ih

theorem walked_of_walk : ∀ (links : Nat) (here : Location) (names : List Raw),
    walk files follow links here names = .ok spot → Walked files follow links here names spot
  | links, here, [], h => by
    rw [walk_nil] at h
    cases h
    exact .done
  | links, here, name :: rest, h => by
    rw [walk_cons] at h
    by_cases hdot : name = "."
    · rw [if_pos hdot] at h
      subst hdot
      exact .dot (walked_of_walk links here rest h)
    rw [if_neg hdot] at h
    by_cases hdots : name = ".."
    · rw [if_pos hdots] at h
      subst hdots
      exact .up (walked_of_walk links here.dropLast rest h)
    rw [if_neg hdots] at h
    by_cases hlong : longestName < name.size
    · rw [if_pos hlong] at h
      cases h
    rw [if_neg hlong] at h
    have hstep : IsStep name := ⟨hdot, hdots, Nat.not_lt.mp hlong⟩
    cases hfind : files.find? (here ++ [name]) with
    | none =>
      rw [hfind] at h
      by_cases hrest : rest = []
      · cases (if_pos hrest).symm.trans h
        subst hrest
        exact .absent hstep hfind
      · cases (if_neg hrest).symm.trans h
    | some entry =>
      rw [hfind] at h
      cases entry with
      | dir => exact .dir hstep hfind (walked_of_walk links _ rest h)
      | file content executable =>
        by_cases hrest : rest = []
        · cases (if_pos hrest).symm.trans h
          subst hrest
          exact .file hstep hfind
        · cases (if_neg hrest).symm.trans h
      | link target =>
        by_cases hend : rest = [] ∧ follow = false
        · cases (if_pos hend).symm.trans h
          obtain ⟨rfl, hfollow⟩ := hend
          exact .stay hstep hfind hfollow
        · have h := (if_neg hend).symm.trans h
          cases links with
          | zero => cases h
          | succ links => exact .jump hstep hfind hend (walked_of_walk links _ (target.steps ++ rest) h)
termination_by links _ names => (links, names.length)

theorem walk_eq_ok :
    walk files follow links here names = .ok spot ↔ Walked files follow links here names spot :=
  ⟨walked_of_walk links here names, Walked.walk_eq⟩

theorem Walked.dot_eq (h : Walked files follow links here ["."] spot) : spot = .present here .dir := by
  have hwalk := h.walk_eq
  rw [walk_cons, if_pos rfl, walk_nil] at hwalk
  exact (Except.ok.inj hwalk).symm

/-! ## Walks in two parts -/

/-- **A walk that reaches a directory goes on from there.** How many links are left to follow depends on
the first part only. -/
theorem Walked.through (h : Walked files true links here names (.present location .dir)) :
    ∃ left, ∀ follow more, more ≠ [] →
      walk files follow links here (names ++ more) = walk files follow left location more := by
  generalize hspot : Spot.present location .dir = spot at h
  induction h with
  | @done links here =>
    cases hspot
    exact ⟨links, fun _ _ _ => rfl⟩
  | dot _ ih =>
    obtain ⟨left, hleft⟩ := ih hspot
    refine ⟨left, fun follow more hfull => ?_⟩
    rw [List.cons_append, walk_cons, if_pos rfl, hleft follow more hfull]
  | up _ ih =>
    obtain ⟨left, hleft⟩ := ih hspot
    refine ⟨left, fun follow more hfull => ?_⟩
    rw [List.cons_append, walk_cons, if_neg (by decide), if_pos rfl, hleft follow more hfull]
  | dir hstep hfind _ ih =>
    obtain ⟨left, hleft⟩ := ih hspot
    refine ⟨left, fun follow more hfull => ?_⟩
    rw [List.cons_append, walk_step hstep, hfind]
    exact hleft follow more hfull
  | absent => cases hspot
  | file => cases hspot
  | stay => cases hspot
  | jump hstep hfind _ _ ih =>
    obtain ⟨left, hleft⟩ := ih hspot
    refine ⟨left, fun follow more hfull => ?_⟩
    have hgo := hleft follow more hfull
    rw [List.append_assoc] at hgo
    rw [List.cons_append, walk_step hstep, hfind]
    exact (if_neg (by simp [hfull])).trans hgo

theorem eq_nil_of_append_eq_singleton {name : Raw} (hfull : more ≠ []) (h : names ++ more = [name]) :
    names = [] ∧ more = [name] := by
  rcases List.append_eq_singleton_iff.mp h with hboth | ⟨-, hnil⟩
  · exact hboth
  · exact absurd hnil hfull

/-- A walk along two parts reaches a directory after the first one. -/
theorem Walked.split (hfull : more ≠ []) (h : Walked files follow links here (names ++ more) spot) :
    ∃ location left, Walked files true links here names (.present location .dir) ∧
      Walked files follow left location more spot := by
  generalize hall : names ++ more = all at h
  -- in each case the first part is either empty, and the second one is the walk itself, or it has the step
  induction h generalizing names with
  | done => exact absurd (List.append_eq_nil_iff.mp hall).2 hfull
  | @dot links here rest spot walked ih =>
    rcases List.append_eq_cons_iff.mp hall with ⟨rfl, rfl⟩ | ⟨names, rfl, rfl⟩
    · exact ⟨here, links, .done, .dot walked⟩
    · obtain ⟨location, left, hfirst, hmore⟩ := ih rfl
      exact ⟨location, left, .dot hfirst, hmore⟩
  | @up links here rest spot walked ih =>
    rcases List.append_eq_cons_iff.mp hall with ⟨rfl, rfl⟩ | ⟨names, rfl, rfl⟩
    · exact ⟨here, links, .done, .up walked⟩
    · obtain ⟨location, left, hfirst, hmore⟩ := ih rfl
      exact ⟨location, left, .up hfirst, hmore⟩
  | @dir links here name rest spot hstep hfind walked ih =>
    rcases List.append_eq_cons_iff.mp hall with ⟨rfl, rfl⟩ | ⟨names, rfl, rfl⟩
    · exact ⟨here, links, .done, .dir hstep hfind walked⟩
    · obtain ⟨location, left, hfirst, hmore⟩ := ih rfl
      exact ⟨location, left, .dir hstep hfind hfirst, hmore⟩
  | @absent links here name hstep hfind =>
    obtain ⟨rfl, rfl⟩ := eq_nil_of_append_eq_singleton hfull hall
    exact ⟨here, links, .done, .absent hstep hfind⟩
  | @file links here name content executable hstep hfind =>
    obtain ⟨rfl, rfl⟩ := eq_nil_of_append_eq_singleton hfull hall
    exact ⟨here, links, .done, .file hstep hfind⟩
  | @stay links here name target hstep hfind hfollow =>
    obtain ⟨rfl, rfl⟩ := eq_nil_of_append_eq_singleton hfull hall
    exact ⟨here, links, .done, .stay hstep hfind hfollow⟩
  | @jump links here name rest spot target hstep hfind hgo walked ih =>
    rcases List.append_eq_cons_iff.mp hall with ⟨rfl, rfl⟩ | ⟨names, rfl, rfl⟩
    · exact ⟨here, links + 1, .done, .jump hstep hfind hgo walked⟩
    · -- the steps of the link come in front of what is left of the first part
      obtain ⟨location, left, hfirst, hmore⟩ := ih (List.append_assoc _ _ _)
      exact ⟨location, left, .jump hstep hfind (by simp) hfirst, hmore⟩

/-! ## Trees with the same roads -/

/-- Each directory and each link of the first tree is where it is in the second one as well. -/
def Roads (files files' : Files) : Prop :=
  ∀ location entry, files.find? location = some entry →
    (∀ content executable, entry ≠ .file content executable) → files'.find? location = some entry

/-- A file in the place of another one, or of nothing, is in nobody's way. -/
theorem Roads.putFile (hplain : ∀ target, files.find? location ≠ some (.link target))
    (hfree : files.find? location ≠ some .dir) (content : Content) (executable : Bool) :
    Roads files (files.put location (.file content executable)) := by
  intro place entry hfind hentry
  by_cases hsame : place = location
  · subst hsame
    cases entry with
    | dir => exact absurd hfind hfree
    | link target => exact absurd hfind (hplain target)
    | file content' executable' => exact absurd rfl (hentry content' executable')
  · rw [find?_put_of_ne hsame, hfind]

/-- **What leads to a directory still leads there** when no directory or link has gone. -/
theorem Walked.mono (hroads : Roads files files')
    (h : Walked files true links here names (.present location .dir)) :
    Walked files' true links here names (.present location .dir) := by
  generalize hspot : Spot.present location .dir = spot at h ⊢
  induction h with
  | done => exact .done
  | dot _ ih => exact .dot (ih hspot)
  | up _ ih => exact .up (ih hspot)
  | dir hstep hfind _ ih => exact .dir hstep (hroads _ _ hfind (by simp)) (ih hspot)
  | absent => cases hspot
  | file => cases hspot
  | stay => cases hspot
  | jump hstep hfind hgo _ ih => exact .jump hstep (hroads _ _ hfind (by simp)) hgo (ih hspot)

/-! ## Walks in a place without links -/

/-- What look-up finds, as the end of a walk. -/
def spotAt (files : Files) (location : Location) : Spot :=
  match files.find? location with
  | some entry => .present location entry
  | none => .absent location

/-- There is no link at or below a location. -/
def Linkless (files : Files) (base : Location) : Prop :=
  ∀ rest target, files.find? (base ++ rest) ≠ some (.link target)

theorem Linkless.of_entries (h : ∀ entry ∈ files.entries, ∀ target, entry.2 ≠ .link target) (base : Location) :
    Linkless files base := by
  intro rest target hfind
  unfold find? at hfind
  split at hfind
  · cases hfind
  · exact h _ (Dict.mem_of_find? hfind) target rfl

theorem Linkless.append {base : Location} (h : Linkless files base) (rest : List Raw) :
    Linkless files (base ++ rest) := by
  intro more target
  rw [List.append_assoc]
  exact h (rest ++ more) target

theorem spotAt_eq {entry : Entry} (h : files.find? location = some entry) :
    files.spotAt location = .present location entry := by
  unfold spotAt
  rw [h]

theorem spotAt_eq_absent (h : files.find? location = none) :
    files.spotAt location = .absent location := by
  unfold spotAt
  rw [h]

/-- **In a place without links, a walk finds what look-up finds.** -/
theorem Walked.spot_eq (h : Walked files follow links here names spot)
    (hnames : ∀ name ∈ names, Path.IsName name) (hplain : Linkless files here)
    (hdir : files.find? here = some .dir) : spot = files.spotAt (here ++ names) := by
  induction h with
  | done => rw [List.append_nil, spotAt_eq hdir]
  | dot => exact absurd rfl (hnames "." List.mem_cons_self).2.2.1
  | up => exact absurd rfl (hnames ".." List.mem_cons_self).2.2.2
  | @dir links here name rest spot _ hfind _ ih =>
    have hrest := ih (fun name hname => hnames name (List.mem_cons_of_mem _ hname))
      (hplain.append [name]) hfind
    rw [hrest, List.append_assoc, List.singleton_append]
  | absent _ hfind => rw [spotAt_eq_absent hfind]
  | file _ hfind => rw [spotAt_eq hfind]
  | stay _ hfind => exact absurd hfind (hplain _ _)
  | jump _ hfind => exact absurd hfind (hplain _ _)

/-- In a place without links, a walk from a directory into a directory that is there ends well, unless a
name is too long. -/
theorem walk_names (hproper : files.Proper) {name : Raw}
    (hnames : ∀ name' ∈ names ++ [name], Path.IsName name')
    (hplain : Linkless files here) (hdir : files.find? (here ++ names) = some .dir) :
    walk files follow links here (names ++ [name]) = .ok (files.spotAt (here ++ (names ++ [name]))) ∨
      (walk files follow links here (names ++ [name]) = .error .nameTooLong ∧
        ∃ name' ∈ names ++ [name], longestName < name'.size) := by
  induction names generalizing here with
  | nil =>
    have hname := hnames name (by simp)
    by_cases hlong : longestName < name.size
    · refine .inr ⟨?_, name, by simp, hlong⟩
      rw [List.nil_append, walk_cons, if_neg hname.2.2.1, if_neg hname.2.2.2, if_pos hlong]
    · left
      have hstep : IsStep name := ⟨hname.2.2.1, hname.2.2.2, Nat.not_lt.mp hlong⟩
      rw [List.nil_append, walk_step hstep]
      cases hfind : files.find? (here ++ [name]) with
      | none => rw [spotAt_eq_absent hfind]; rfl
      | some entry =>
        rw [spotAt_eq hfind]
        cases entry with
        | dir => exact walk_nil
        | file content executable => rfl
        | link target => exact absurd hfind (hplain _ _)
  | cons first names ih =>
    have hfirst := hnames first List.mem_cons_self
    by_cases hlong : longestName < first.size
    · refine .inr ⟨?_, first, List.mem_cons_self, hlong⟩
      rw [List.cons_append, walk_cons, if_neg hfirst.2.2.1, if_neg hfirst.2.2.2, if_pos hlong]
    · have hstep : IsStep first := ⟨hfirst.2.2.1, hfirst.2.2.2, Nat.not_lt.mp hlong⟩
      have hsplit (rest : List Raw) : here ++ first :: rest = here ++ [first] ++ rest := by simp
      rw [hsplit] at hdir
      -- the first name leads to a directory, since one is there or further below
      have hthere : files.find? (here ++ [first]) = some .dir := by
        by_cases hend : names = []
        · rw [hend, List.append_nil] at hdir
          exact hdir
        · exact hproper.dir_of_append hend hdir
      have hrest := ih (fun name' hname' => hnames name' (List.mem_cons_of_mem _ hname'))
        (hplain.append _) hdir
      rw [List.cons_append, walk_step hstep, hthere, hsplit (names ++ [name])]
      rcases hrest with hrest | ⟨hrest, name', hname', htoo⟩
      · exact .inl hrest
      · exact .inr ⟨hrest, name', List.mem_cons_of_mem _ hname', htoo⟩

/-- What is where a walk ends. -/
def Spot.entry? : Spot → Option Entry
  | .present _ entry => some entry
  | .absent _ => none

/-- Trees that agree on what is on the way agree on what is at the end of a walk without links, wherever in
the two trees it starts. -/
theorem walk_congr {left left' : Nat} {here' : Location} (hplain : Linkless files here)
    (hnames : ∀ name ∈ names, Path.IsName name)
    (hsame : ∀ rest, rest ≠ [] → rest <+: names → files'.find? (here' ++ rest) = files.find? (here ++ rest)) :
    (walk files' follow left' here' names).map Spot.entry? = (walk files follow left here names).map Spot.entry? := by
  induction names generalizing here here' with
  | nil =>
    rw [walk_nil, walk_nil]
    rfl
  | cons name names ih =>
    have hname := hnames name List.mem_cons_self
    have hnext : files'.find? (here' ++ [name]) = files.find? (here ++ [name]) :=
      hsame [name] (List.cons_ne_nil _ _) ⟨names, rfl⟩
    by_cases hlong : longestName < name.size
    · rw [walk_cons, walk_cons, if_neg hname.2.2.1, if_neg hname.2.2.1, if_neg hname.2.2.2,
        if_neg hname.2.2.2, if_pos hlong, if_pos hlong]
    · have hstep : IsStep name := ⟨hname.2.2.1, hname.2.2.2, Nat.not_lt.mp hlong⟩
      rw [walk_step hstep, walk_step hstep, hnext]
      cases hfind : files.find? (here ++ [name]) with
      | none => by_cases hend : names = [] <;> simp [hend, Except.map, Spot.entry?]
      | some entry =>
        cases entry with
        | file content executable => by_cases hend : names = [] <;> simp [hend, Except.map, Spot.entry?]
        | link target => exact absurd hfind (hplain _ _)
        | dir =>
          refine ih (hplain.append _) (fun name' hmem => hnames name' (List.mem_cons_of_mem _ hmem)) ?_
          intro rest hfull hway
          rw [List.append_assoc, List.append_assoc]
          exact hsame (name :: rest) (List.cons_ne_nil _ _) (List.cons_prefix_cons.mpr ⟨rfl, hway⟩)

end Bindery.Files
