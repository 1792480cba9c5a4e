import Bindery.Build.Stage
import Bindery.Json

/-!
# `Bindery.Build.Catalog` — the formats, as they are listed

**Contents.** `Format.toJson`, a format with its stages; `Format.ofJson?`, which reads the name of a
format; `usage`, the list of all formats.
-/

namespace Bindery

namespace Format

/-- A format in JSON. -/
def toJson (format : Format) : Json :=
  .object
    [("format", .text format.name), ("aliases", .ofTexts format.aliases),
     ("stages", .ofTexts (format.stages.map Stage.name)), ("build_dir", .text format.buildDir.text),
     ("content_dir", .text format.contentDir.text),
     ("archive", .ofText? (format.archive?.map Path.text)), ("artifact", .text format.artifact.text)]

/-- The format that a JSON value names: a string, or an object with null under the name. -/
def ofJson? : Json → Option Format
  | .text name => ofName? name
  | .object [(name, .null)] => ofName? name
  | _ => none

end Format

/-- A text with spaces after it up to a width. -/
def padded (width : Nat) (text : String) : String :=
  text ++ String.ofList (List.replicate (width - text.length) ' ')

/-- How the program is called, with a line for each format. -/
def usage : String :=
  "Usage: bookshop build [ARGS]\n\nThe most common build commands are:\n"
    ++ String.join (Format.all.map fun format =>
        " " ++ padded 12 format.name ++ " Builds a new " ++ padded 4 format.name ++ " at /"
          ++ format.artifactPath.text ++ "\n")
    ++ "\nAll commands can be run with -h for more information.\n"

end Bindery
