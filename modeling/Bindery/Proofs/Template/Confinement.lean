import Bindery.Proofs.Template.Source

/-!
# `Proofs.Template.Confinement` — templates stay inside the source directory

Whatever path a template computes, it is brought into its normal form before anything is read, and a path
that could lead out of the source directory has none (`normalize_refuses`). So every template that is read
is named by a chain of names below the source directory (`named_of_mem_readsFrom`).
Two file trees that agree below that directory are read alike at all of them, and a resolution needs no more
of a tree than what it reads there: what else is in the trees makes no difference.

**Contents.**
* `Path.StaysInside` and `normalize_refuses` — the paths that are refused, and how;
* `Refused`, with `refused_of_mem_importsFrom` — what comes of such a path, and of importing it;
* `ReadsBelow` and `resolve_confined` — resolution is confined to the source directory.
-/

namespace Bindery

/-- A path that stays in the directory that it is looked up in, and names something there. -/
structure Path.StaysInside (path : Path) : Prop where
  relative : path.isAbsolute = false
  never_up : .above ∉ path.components
  named : ∃ name, .name name ∈ path.components

namespace Template

variable {engine : Engine} {globals : Binding} {room : Nat} {stack : List Path} {path name : Path}
  {source : String} {names : List Raw}

/-! ## Paths that are refused -/

theorem staysInside_of_normalize (h : normalize path = .ok names) : path.StaysInside := by
  unfold normalize at h
  split at h
  · cases h
  · cases h
  next hfull hnames =>
    cases h
    obtain ⟨hroot, habove, rfl⟩ := Path.names?_eq_some_iff.mp hnames
    refine ⟨Bool.eq_false_iff.mpr (mt Path.root_mem_components_iff.mpr hroot), habove, ?_⟩
    obtain ⟨name, hname⟩ := List.exists_mem_of_ne_nil _ hfull
    obtain ⟨part, hpart, hnamed⟩ := List.mem_filterMap.mp hname
    cases part with
    | name text => exact ⟨text, hpart⟩
    | root | here | above => cases hnamed

/-- A path that does not stay inside has no normal form, and is reported as not found. -/
theorem normalize_refuses (h : ¬path.StaysInside) :
    ∃ cause : Cause, cause.kind = .notFound ∧ normalize path = .error cause := by
  cases hnormal : normalize path with
  | ok names => exact absurd (staysInside_of_normalize hnormal) h
  | error cause =>
    refine ⟨cause, ?_, rfl⟩
    unfold normalize at hnormal
    split at hnormal <;> cases hnormal <;> rfl

/-- A path that is refused: it is reported as not found, and nothing is read for it in any place. -/
structure Refused (engine : Engine) (globals : Binding) (path : Path) (result : Except Fault String) :
    Prop where
  not_found : ∃ cause : Cause, cause.kind = .notFound ∧ result = .error ⟨path, cause⟩
  unread : ∀ room stack, engine.readsFrom globals room stack path = []

theorem resolveFrom_refused (h : ¬path.StaysInside) (engine : Engine) (globals : Binding) (room : Nat)
    (stack : List Path) : Refused engine globals path (engine.resolveFrom globals room stack path) := by
  obtain ⟨cause, hkind, hnormal⟩ := normalize_refuses h
  constructor
  · refine ⟨cause, hkind, ?_⟩
    rw [Engine.resolveFrom, hnormal]
    rfl
  · intro room stack
    cases room with
    | zero => rfl
    | succ room => rw [Engine.readsFrom, hnormal]

/-- The result of an import is that of resolving its path in its place. -/
theorem result_of_mem_importsFrom {i : Import} (h : i ∈ engine.importsFrom globals room stack path) :
    ∃ room' stack', i.result = engine.resolveFrom globals room' stack' i.path := by
  induction room generalizing stack path with
  | zero => exact absurd h List.not_mem_nil
  | succ room ih =>
    obtain ⟨names, source, -, -, -, asked, -, hi⟩ := mem_importsFrom h
    rcases hi with rfl | hi
    · exact ⟨_, _, rfl⟩
    · exact ih hi

/-- An import that is refused ends the resolution. -/
theorem refused_of_mem_importsFrom {i : Import} (h : i ∈ engine.importsFrom globals room stack path)
    (hout : ¬i.path.StaysInside) :
    i.result = engine.resolveFrom globals room stack path ∧ Refused engine globals i.path i.result := by
  obtain ⟨room', stack', hresult⟩ := result_of_mem_importsFrom h
  have hrefused : Refused engine globals i.path i.result := by
    rw [hresult]
    exact resolveFrom_refused hout engine globals room' stack'
  obtain ⟨cause, -, hfault⟩ := hrefused.not_found
  exact ⟨hfault.trans (importsFrom_fatal h hfault).symm, hrefused⟩

theorem refused_of_mem_textImports {i : Import} (h : i ∈ engine.textImports globals name source)
    (hout : ¬i.path.StaysInside) :
    i.result = engine.resolveText globals name source ∧ Refused engine globals i.path i.result := by
  have hrefused : Refused engine globals i.path i.result := by
    obtain ⟨asked, -, hi⟩ := List.mem_flatMap.mp h
    rcases List.mem_cons.mp hi with rfl | hi
    · exact resolveFrom_refused hout engine globals _ _
    · exact (refused_of_mem_importsFrom hi hout).2
  obtain ⟨cause, -, hfault⟩ := hrefused.not_found
  exact ⟨hfault.trans (textImports_fatal h hfault).symm, hrefused⟩

/-! ## What is read -/

theorem named_of_mem_textReads (h : names ∈ engine.textReads globals name source) :
    names ≠ [] ∧ ∀ name ∈ names, Path.IsName name := by
  obtain ⟨asked, -, hmem⟩ := List.mem_flatMap.mp h
  exact named_of_mem_readsFrom hmem

/-- A file that a resolution reads: below the root, by one name or more and nothing else. -/
def ReadsBelow (root : Path) (names : List Raw) : Prop :=
  names ≠ [] ∧ (root.join (Path.ofNames names)).components = root.components ++ names.map .name

theorem readsBelow_of_named (hnamed : names ≠ [] ∧ ∀ name ∈ names, Path.IsName name) (root : Path) :
    ReadsBelow root names := by
  refine ⟨hnamed.1, ?_⟩
  rw [Path.join_ofNames hnamed.2 hnamed.1, Path.components_below hnamed.2]

/-! ## Confinement -/

variable {files files' : Files} {root : Path} {base base' : Location}

/-- Trees that agree below the source directory are read alike at every chain of names. -/
theorem sources_read_congr (hground : files.Ground root base) (hground' : files'.Ground root base')
    (hsame : ∀ rest, rest ≠ [] → files'.find? (base' ++ rest) = files.find? (base ++ rest)) (limit : Nat)
    (hnamed : names ≠ [] ∧ ∀ name ∈ names, Path.IsName name) :
    (Engine.below files' root limit).sources.read names = (Engine.below files root limit).sources.read names := by
  rw [below_read, below_read, Path.join_ofNames hnamed.2 hnamed.1]
  exact Files.readText_congr hground hground' hnamed.1 hnamed.2 fun rest hfull _ => hsame rest hfull

/-- **Resolution is confined to the source directory.** In two file trees in which the source root leads to
directories that agree on what is below them, without links there, every template and every text resolves to
the same text or fault. What is read is below the source root, by names only. A path that does not stay
inside is reported as not found and nothing is read for it, and if a template imports it, that is how the
whole resolution ends. -/
theorem resolve_confined (hground : files.Ground root base) (hground' : files'.Ground root base')
    (hsame : ∀ rest, rest ≠ [] → files'.find? (base' ++ rest) = files.find? (base ++ rest))
    (globals : Binding) (limit : Nat) :
    (∀ path, (Engine.below files' root limit).resolve globals path =
      (Engine.below files root limit).resolve globals path) ∧
    (∀ name source, (Engine.below files' root limit).resolveText globals name source =
      (Engine.below files root limit).resolveText globals name source) ∧
    (∀ path, ∀ names ∈ (Engine.below files root limit).reads globals path, ReadsBelow root names) ∧
    (∀ name source, ∀ names ∈ (Engine.below files root limit).textReads globals name source,
      ReadsBelow root names) ∧
    (∀ path : Path, ¬path.StaysInside → Refused (Engine.below files root limit) globals path
      ((Engine.below files root limit).resolve globals path)) ∧
    (∀ path, ∀ i ∈ (Engine.below files root limit).imports globals path, ¬i.path.StaysInside →
      i.result = (Engine.below files root limit).resolve globals path ∧
        Refused (Engine.below files root limit) globals i.path i.result) ∧
    ∀ name source, ∀ i ∈ (Engine.below files root limit).textImports globals name source,
      ¬i.path.StaysInside →
      i.result = (Engine.below files root limit).resolveText globals name source ∧
        Refused (Engine.below files root limit) globals i.path i.result := by
  have hread : ∀ names, names ≠ [] ∧ (∀ name ∈ names, Path.IsName name) →
      (Engine.below files' root limit).sources.read names = (Engine.below files root limit).sources.read names :=
    fun names => sources_read_congr hground hground' hsame limit
  have hlimit : (Engine.below files' root limit).limit = (Engine.below files root limit).limit := by
    rw [below_limit, below_limit]
  have hroot : (Engine.below files' root limit).sources.root = (Engine.below files root limit).sources.root := by
    rw [below_root, below_root]
  -- from here on, what the engines read is all that matters of them
  generalize Engine.below files root limit = engine at hread hlimit hroot ⊢
  generalize Engine.below files' root limit = engine' at hread hlimit hroot ⊢
  refine ⟨?_, ?_, ?_, ?_, ?_, ?_, ?_⟩
  · intro path
    exact resolve_eq_of_reads hlimit hroot fun names hmem => hread names (named_of_mem_readsFrom hmem)
  · intro name source
    exact resolveText_eq_of_reads hlimit hroot fun names hmem => hread names (named_of_mem_textReads hmem)
  · intro path names hmem
    exact readsBelow_of_named (named_of_mem_readsFrom hmem) root
  · intro name source names hmem
    exact readsBelow_of_named (named_of_mem_textReads hmem) root
  · intro path hout
    exact resolveFrom_refused hout engine globals engine.limit []
  · intro path i hi hout
    exact refused_of_mem_importsFrom hi hout
  · intro name source i hi hout
    exact refused_of_mem_textImports hi hout

/-- A desk with a book on it and something that is not for the book. -/
def desk (home : String) (secret : String) : Files where
  home := [home]
  entries :=
    [([home], .dir), ([home, "book"], .dir),
     ([home, "book", "page"], .file (.ofText "a<%= import 'page' %>") false),
     ([home, "secret"], .file (.ofText secret) false)]

theorem ground_desk_east : (desk "east" "1").Ground ⟨"book"⟩ ["east", "book"] where
  proper := .of_entries (by unfold Dict.Sorted; decide +kernel) (by decide +kernel) (by decide +kernel)
  leads := by unfold Files.Leads; decide +kernel
  dir := by decide +kernel
  plain := .of_entries (by simp [desk]) _

theorem ground_desk_west : (desk "west" "2").Ground ⟨"book"⟩ ["west", "book"] where
  proper := .of_entries (by unfold Dict.Sorted; decide +kernel) (by decide +kernel) (by decide +kernel)
  leads := by unfold Files.Leads; decide +kernel
  dir := by decide +kernel
  plain := .of_entries (by simp [desk]) _

/-- Two desks with the same book resolve it alike, and what is beside it on a desk is not found. -/
theorem resolve_confined_desk :
    (Engine.below (desk "west" "2") ⟨"book"⟩ 64).resolve [] ⟨"page"⟩ =
      (Engine.below (desk "east" "1") ⟨"book"⟩ 64).resolve [] ⟨"page"⟩ ∧
    Refused (Engine.below (desk "east" "1") ⟨"book"⟩ 64) [] ⟨"../secret"⟩
      ((Engine.below (desk "east" "1") ⟨"book"⟩ 64).resolve [] ⟨"../secret"⟩) := by
  have hsame : ∀ rest, rest ≠ [] → (desk "west" "2").find? ((["west", "book"] : Location) ++ rest) =
      (desk "east" "1").find? ((["east", "book"] : Location) ++ rest) := by
    intro rest hfull
    have hsecret : Raw.ofText "secret" ≠ Raw.ofText "book" := by decide +kernel
    simp [desk, Files.find?, Dict.find?, hsecret]
  obtain ⟨hsame, -, -, -, hrefused, -⟩ := resolve_confined ground_desk_east ground_desk_west hsame [] 64
  exact ⟨hsame _, hrefused _ fun hinside => hinside.never_up (by decide +kernel)⟩

end Template

end Bindery
