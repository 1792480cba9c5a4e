import Bindery.Template.Block
import Bindery.Template.Render
import Bindery.Text.Blank

/-!
# `Bindery.Template.Engine` — resolving templates

Resolving a template reads its source, renders it, and drops one newline at the end of the text. A
template that is imported is resolved under the same global variables; the loop variables around the
place where it is imported are not visible in it.

Paths are taken relative to the source directory and never lead out of it. The templates in progress
form a stack: a template that is on it already closes a cycle, and a stack that has reached the limit
takes no more.

**Contents.** `Sources`, the templates that can be read; `Engine`, a source directory with its limit;
`Engine.resolveFrom`, which carries the stack; `Engine.resolve` for a template in the source directory
and `Engine.resolveText` for a text that is not there.
-/

namespace Bindery.Template

open Bindery.Text

/-- The templates below a directory. -/
structure Sources where
  /-- the path of the directory, which is shown when a template cannot be read -/
  root : Path
  /-- the template at the end of a chain of names -/
  read : List Raw → Except Files.Fault String

/-- How templates are resolved. -/
structure Engine where
  sources : Sources
  /-- how many templates may be in progress at once -/
  limit : Nat := 64

/-- The normal form of a template path, or why it has none. -/
def normalize (path : Path) : Except Cause (List Raw) :=
  match path.names? with
  | none => .error .outsideSource
  | some [] => .error .emptyPath
  | some names => .ok names

namespace Engine

/-- The text of a template's source: parsed, rendered, and less one newline at its end. -/
def renderSource (label : Path) (globals : Binding) (resolve : Path → Except Fault String)
    (source : String) : Except Fault String := do
  let nodes ← (parse source).mapError fun e => ⟨label, .badSyntax e⟩
  let text ← renderAll { label, globals, locals := [], resolve } nodes
  return withoutFinalNewline text

/-- Resolves the template at `path` while those on `stack` are in progress, outermost first. `room` is
how many more may be in progress. -/
def resolveFrom (engine : Engine) (globals : Binding) :
    (room : Nat) → (stack : List Path) → (path : Path) → Except Fault String
  | room, stack, path => do
    let names ← (normalize path).mapError (⟨path, ·⟩)
    let rel := Path.ofNames names
    if stack.any fun busy => decide (busy.Same rel) then
      .error ⟨rel, .cycle (stack ++ [rel])⟩
    else match room with
      | 0 => .error ⟨rel, .tooDeep engine.limit⟩
      | room + 1 =>
        let source ← (engine.sources.read names).mapError fun fault =>
          ⟨rel, .unreadable (engine.sources.root.join rel) fault⟩
        renderSource rel globals (engine.resolveFrom globals room (stack ++ [rel])) source

/-- Resolves the template at a path below the source directory. -/
def resolve (engine : Engine) (globals : Binding) (path : Path) : Except Fault String :=
  engine.resolveFrom globals engine.limit [] path

/-- Resolves a text that is not below the source directory; `name` stands for it in faults. -/
def resolveText (engine : Engine) (globals : Binding) (name : Path) (source : String) :
    Except Fault String :=
  renderSource name globals (engine.resolveFrom globals (engine.limit - 1) [name]) source

end Engine

end Bindery.Template
