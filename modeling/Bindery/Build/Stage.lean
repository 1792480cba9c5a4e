import Bindery.Format

/-!
# `Bindery.Build.Stage` — the stages of a build

Each format is built in a fixed sequence of stages. Some of them render a template each; the check of a
finished container is advisory, so that what it finds never ends a build.

**Contents.** `Stage` with `name`, `page?` and `isAdvisory`; `Format.stages`.
-/

namespace Bindery

/-- One step of a build. -/
inductive Stage where
  /-- empty the directory of the build -/
  | clean
  /-- lay out the container -/
  | scaffoldContainer
  | renderBook
  | renderCover
  | renderNav
  | renderPackageDocument
  | renderNcx
  /-- copy the assets, without style sheets for other formats -/
  | copyAssets
  /-- pack the container into an archive -/
  | package
  /-- check the container -/
  | validate
  /-- convert the container for a hand-held device -/
  | convertToDevice
  /-- convert the book for print -/
  | convertToPdf
deriving DecidableEq, Repr

/-- A template and the file that it is rendered into. -/
structure Page where
  /-- below the source directory -/
  template : Path
  /-- below the place for the content -/
  output : Path
deriving DecidableEq, Repr

namespace Stage

/-- The name of a stage. -/
def name : Stage → String
  | clean => "clean"
  | scaffoldContainer => "scaffold-container"
  | renderBook => "render-book"
  | renderCover => "render-cover"
  | renderNav => "render-nav"
  | renderPackageDocument => "render-package-document"
  | renderNcx => "render-ncx"
  | copyAssets => "copy-assets"
  | package => "package"
  | validate => "validate"
  | convertToDevice => "convert-to-device"
  | convertToPdf => "convert-to-pdf"

/-- What a stage renders. -/
def page? : Stage → Option Page
  | renderBook => some ⟨⟨"book.html.erb"⟩, ⟨"book.html"⟩⟩
  | renderCover => some ⟨⟨"frontmatter/cover.html.erb"⟩, ⟨"cover.html"⟩⟩
  | renderNav => some ⟨⟨"frontmatter/toc.html.erb"⟩, ⟨"toc.html"⟩⟩
  | renderPackageDocument => some ⟨⟨"epub/OEBPS/content.opf.erb"⟩, ⟨"content.opf"⟩⟩
  | renderNcx => some ⟨⟨"epub/OEBPS/toc.ncx.erb"⟩, ⟨"toc.ncx"⟩⟩
  | _ => none

/-- A failure of the stage is only a warning. -/
def isAdvisory (stage : Stage) : Bool :=
  stage = validate

end Stage

namespace Format

/-- The stages that make a container. -/
def containerStages : List Stage :=
  [.clean, .scaffoldContainer, .renderBook, .renderCover, .renderNav, .renderPackageDocument,
    .renderNcx, .copyAssets, .package, .validate]

/-- The stages of a format, in order. -/
def stages : Format → List Stage
  | html => [.clean, .renderBook, .copyAssets]
  | epub => containerStages
  | mobi => containerStages ++ [.convertToDevice]
  | pdf => [.clean, .renderBook, .copyAssets, .convertToPdf]

end Format

end Bindery
