import Bindery.Proofs.Files.Ground
import Bindery.Proofs.Template.Reads
import Bindery.Template.Source

/-!
# `Proofs.Template.Source` — templates are read below the source directory

A template path is looked up in its normal form, which is a chain of names, so every template that is read is
named by a chain of names below the source directory (`named_of_mem_readsFrom`, by induction on the room).
Two trees of one project that agree on that directory are therefore read alike (`resolve_below_congr`),
whatever else is in them.

**Contents.**
* `normalize_eq_ok` and `named_of_mem_readsFrom`;
* `readText_congr` and `resolve_below_congr`;
* `leads_of_resolve`: a template that is resolved has been found by way of the root.
-/

namespace Bindery

namespace Template

variable {engine : Engine} {globals : Binding} {room : Nat} {stack : List Path} {path : Path}
  {names : List Raw}

theorem normalize_eq_ok (h : normalize path = .ok names) :
    names ≠ [] ∧ ∀ name ∈ names, Path.IsName name := by
  unfold normalize at h
  split at h
  · cases h
  · cases h
  · next names' hfull hnames =>
    cases h
    exact ⟨hfull, Path.isName_of_names? hnames⟩

/-- **Every template that is read has a chain of names.** -/
theorem named_of_mem_readsFrom (h : names ∈ engine.readsFrom globals room stack path) :
    names ≠ [] ∧ ∀ name ∈ names, Path.IsName name := by
  induction room generalizing stack path with
  | zero => exact absurd h List.not_mem_nil
  | succ room ih =>
    rcases mem_readsFrom h with hnormal | ⟨stack', asked, hmem⟩
    · exact normalize_eq_ok hnormal
    · exact ih hmem

end Template

namespace Files

variable {files files' : Files} {root path : Path} {base : Location} {names : List Raw}

/-- What is read from an entry, if there is one. -/
def contentOf : Option Entry → Except Fault Content
  | some (.file content _) => .ok content
  | some _ => .error .isDirectory
  | none => .error .notFound

/-- What is read at a path depends on nothing but what is where it leads. -/
theorem read_congr (hspot : (files'.spot true path).map Spot.entry? = (files.spot true path).map Spot.entry?) :
    files'.read path = files.read path := by
  have hread (files : Files) : files.read path =
      (files.spot true path).map Spot.entry? >>= contentOf := by
    unfold Files.read
    cases files.spot true path with
    | error fault => rfl
    | ok spot =>
      cases spot with
      | absent location => rfl
      | present location entry => cases entry <;> rfl
  rw [hread, hread, hspot]

/-- Two trees in which a path leads to a directory read alike what they agree on below it. -/
theorem readText_congr {base' : Location} (hground : files.Ground root base)
    (hground' : files'.Ground root base') (hfull : names ≠ []) (hnames : ∀ name ∈ names, Path.IsName name)
    (hsame : ∀ rest, rest ≠ [] → rest <+: names → files'.find? (base' ++ rest) = files.find? (base ++ rest)) :
    files'.readText (root.below names) = files.readText (root.below names) := by
  have hbelow : root.IsBelow names (root.below names) := ⟨hfull, hnames, .inl rfl⟩
  have hspot : (files'.spot true (root.below names)).map Spot.entry? =
      (files.spot true (root.below names)).map Spot.entry? := by
    unfold Files.spot
    rw [Path.IsBelow.steps_below hfull hnames]
    by_cases husable : Usable (root.below names)
    -- in both trees the way to the ground is walked first, and only the names after it count
    · have hthrough {files : Files} {base : Location} (hground : files.Ground root base) :
          ∃ left, files.walkFor true (root.below names) (root.stops ++ names) =
            walk files true left base names := by
        obtain ⟨left, hleft⟩ := (walk_eq_ok.mp hground.leads).through
        refine ⟨left, ?_⟩
        rw [walkFor_eq husable, ← hleft true names hfull]
        unfold start
        rw [hbelow.isAbsolute]
      obtain ⟨left, hwalk⟩ := hthrough hground
      obtain ⟨left', hwalk'⟩ := hthrough hground'
      rw [hwalk, hwalk']
      exact walk_congr hground.plain hnames hsame
    · obtain ⟨fault, hfault⟩ := walkFor_of_not_usable husable
      rw [hfault, hfault]
  unfold Files.readText
  rw [read_congr hspot]

end Files

namespace Template

variable {files files' : Files} {root : Path} {base : Location} {name : Raw}

theorem read_below_congr (hground : files.Ground root base) (hground' : files'.Ground root base)
    (hname : Path.IsName name)
    (hsame : ∀ rest, files'.find? (base ++ name :: rest) = files.find? (base ++ name :: rest))
    {names : List Raw} (hfull : names ≠ []) (hnames : ∀ name ∈ names, Path.IsName name) :
    files'.readText ((root.join ⟨name⟩).join (Path.ofNames names)) =
      files.readText ((root.join ⟨name⟩).join (Path.ofNames names)) := by
  have hall : ∀ name' ∈ name :: names, Path.IsName name' := by
    intro name' hmem
    rcases List.mem_cons.mp hmem with rfl | hmem
    · exact hname
    · exact hnames name' hmem
  rw [Path.join_ofNames hnames hfull, ← Path.below_cons]
  refine Files.readText_congr hground hground' (List.cons_ne_nil name names) hall ?_
  intro rest hrest hway
  obtain ⟨name', rest, rfl⟩ := List.exists_cons_of_ne_nil hrest
  rw [(List.cons_prefix_cons.mp hway).1, hsame]

theorem below_read (files : Files) (root : Path) (limit : Nat) (names : List Raw) :
    (Engine.below files root limit).sources.read names = files.readText (root.join (Path.ofNames names)) :=
  rfl

theorem below_limit (files : Files) (root : Path) (limit : Nat) : (Engine.below files root limit).limit = limit := by
  unfold Engine.below
  rfl

theorem below_root (files : Files) (root : Path) (limit : Nat) :
    (Engine.below files root limit).sources.root = root := by
  unfold Engine.below Sources.below
  rfl

/-- Two trees with the same ground that agree on a directory resolve the templates below it alike. -/
theorem resolve_below_congr {globals : Binding} {limit : Nat} (hground : files.Ground root base)
    (hground' : files'.Ground root base) (hname : Path.IsName name)
    (hsame : ∀ rest, files'.find? (base ++ name :: rest) = files.find? (base ++ name :: rest))
    (path : Path) :
    (Engine.below files' (root.join ⟨name⟩) limit).resolve globals path =
      (Engine.below files (root.join ⟨name⟩) limit).resolve globals path := by
  refine resolve_eq_of_reads ?_ ?_ ?_
  · rw [below_limit, below_limit]
  · rw [below_root, below_root]
  · intro names hmem
    obtain ⟨hfull, hnames⟩ := named_of_mem_readsFrom hmem
    rw [below_read, below_read]
    exact read_below_congr hground hground' hname hsame hfull hnames

/-- What is resolved below a root has been found by way of it. -/
theorem leads_of_resolve {globals : Binding} {limit : Nat} {path : Path} {text : String}
    (hname : Path.IsName name)
    (h : (Engine.below files (root.join ⟨name⟩) limit).resolve globals path = .ok text) :
    ∃ location, files.Leads root location := by
  obtain ⟨names, left, source, nodes, hnormal, -, -, hread, -, -⟩ := resolveFrom_eq_ok.mp h
  obtain ⟨hfull, hnames⟩ := normalize_eq_ok hnormal
  have hall : ∀ name' ∈ name :: names, Path.IsName name' := by
    intro name' hmem
    rcases List.mem_cons.mp hmem with rfl | hmem
    · exact hname
    · exact hnames name' hmem
  rw [below_read, Path.join_ofNames hnames hfull, ← Path.below_cons] at hread
  obtain ⟨content, hread, -⟩ := bind_eq_ok.mp hread
  obtain ⟨spot, hspot, -⟩ := bind_eq_ok.mp hread
  exact Files.leads_of_spot_below ⟨List.cons_ne_nil _ _, hall, .inl rfl⟩ hspot

end Template

end Bindery
