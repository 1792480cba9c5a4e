import Bindery.Files.Access
import Bindery.Template.Engine

/-!
# `Bindery.Template.Source` — templates in the file tree

**Contents.** `Sources.below`, the templates below a directory of a file tree; `Engine.below`.
-/

namespace Bindery.Template

/-- The templates below a directory. -/
def Sources.below (files : Files) (root : Path) : Sources where
  root := root
  read names := files.readText (root.join (Path.ofNames names))

/-- Resolves the templates below a directory. -/
def Engine.below (files : Files) (root : Path) (limit : Nat) : Engine where
  sources := Sources.below files root
  limit := limit

end Bindery.Template
