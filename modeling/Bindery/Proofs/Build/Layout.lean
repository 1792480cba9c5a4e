import Bindery.Proofs.Build.Packing

/-!
# `Proofs.Build.Layout` — what is in the directory of a finished build

What a build is to make, place by place: which template each page comes from, which assets are taken along, and
what the archive holds. Nothing here refers to the stages of a build. As a chain of changes to an empty directory
(`bookTree_eq`, `containerTree_eq`) it can be compared with what the stages do.

**Contents.**
* `Pages` and `Pages.Resolved` — the pages with their templates;
* `Format.IsForeign` — the style sheets that a container goes without;
* `bookTree`, `containerTree` and `layout`;
* `IsArchive` — what the archive of a container holds;
* `bookTree_eq`, `containerTree_eq`.
-/

namespace Bindery

open Files (Entry Content Packed)

namespace Build

/-- A rendered page. -/
def pageEntry (text : String) : Entry :=
  .file (.ofText text) false

/-- The texts of the pages of a book. -/
structure Pages where
  book : String
  cover : String
  contents : String
  package : String
  ncx : String

/-- The pages have the texts that their templates come to. Only a container has more than one. -/
structure Pages.Resolved (pages : Pages) (format : Format) (resolve : Path → Except Template.Fault String) :
    Prop where
  book : resolve ⟨"book.html.erb"⟩ = .ok pages.book
  cover : format = .epub ∨ format = .mobi → resolve ⟨"frontmatter/cover.html.erb"⟩ = .ok pages.cover
  contents : format = .epub ∨ format = .mobi → resolve ⟨"frontmatter/toc.html.erb"⟩ = .ok pages.contents
  package : format = .epub ∨ format = .mobi → resolve ⟨"epub/OEBPS/content.opf.erb"⟩ = .ok pages.package
  ncx : format = .epub ∨ format = .mobi → resolve ⟨"epub/OEBPS/toc.ncx.erb"⟩ = .ok pages.ncx

/-- The page of a container under a name. -/
def Pages.entry? (pages : Pages) (name : Raw) : Option Entry :=
  if name = "toc.ncx" then some (pageEntry pages.ncx)
  else if name = "content.opf" then some (pageEntry pages.package)
  else if name = "toc.html" then some (pageEntry pages.contents)
  else if name = "cover.html" then some (pageEntry pages.cover)
  else if name = "book.html" then some (pageEntry pages.book)
  else none

/-- Names that lead from the assets to a style sheet for another format. -/
def IsForeign (format : Format) (names : List Raw) : Prop :=
  ∃ other : Format, other ≠ format ∧ names = (["css", Raw.ofText ("stylesheet." ++ other.name ++ ".css")] : List Raw)

instance (format : Format) (names : List Raw) : Decidable (IsForeign format names) :=
  decidable_of_iff
    (∃ other ∈ Format.all, other ≠ format ∧
      names = (["css", Raw.ofText ("stylesheet." ++ other.name ++ ".css")] : List Raw))
    (by simp [IsForeign, Format.mem_all])

/-- One page with the assets. `source` is the source directory. -/
def bookTree (source : View) (pages : Pages) : View
  | [] => some .dir
  | name :: rest =>
    if name = "assets" then source ("assets" :: rest)
    else if name = "book.html" ∧ rest = [] then some (pageEntry pages.book)
    else none

/-- The pages of a container, and the assets without style sheets for other formats. -/
def contentTree (format : Format) (source : View) (pages : Pages) : View
  | [] => some .dir
  | name :: rest =>
    if name = "assets" then if IsForeign format rest then none else source ("assets" :: rest)
    else if rest = [] then pages.entry? name
    else none

/-- A container, laid out. -/
def containerTree (format : Format) (source : View) (pages : Pages) : View
  | [] => some .dir
  | name :: rest =>
    if name = "META-INF" then source ("epub" :: "META-INF" :: rest)
    else if name = "OEBPS" then contentTree format source pages rest
    else if name = "mimetype" ∧ rest = [] then source ["epub", "mimetype"]
    else none

/-- The entries of the archive of a container: its type, as it is, and after that every file but those that are
ignored. -/
def IsArchive (format : Format) (source : View) (pages : Pages) (entries : List Packed) : Prop :=
  ∃ type executable listed, source ["epub", "mimetype"] = some (.file type executable) ∧
    Complete (containerTree format source pages) "book.epub" listed ∧
    entries = ⟨"mimetype", true, type.toBytes⟩ :: listed.map fun (names, content) =>
      ⟨"/".intercalate (names.map Raw.text), false, content.toBytes⟩

/-- What the directory of a finished build holds: `archive` is what has been packed, and `product` what a tool has
made. -/
def layout (format : Format) (source : View) (pages : Pages) (archive : List Packed) (product : Entry) : View :=
  match format with
  | .html => bookTree source pages
  | .pdf => (bookTree source pages).put ["book.pdf"] product
  | .epub => (containerTree .epub source pages).put ["book.epub"] (.file (.archive archive) false)
  | .mobi => ((containerTree .mobi source pages).put ["book.epub"] (.file (.archive archive) false)).put
      ["book.mobi"] product

/-! ## As chains of changes -/

theorem bookTree_eq (source : View) (pages : Pages) :
    bookTree source pages = (View.hollow.put ["book.html"] (pageEntry pages.book)).lay ["assets"]
      fun rest => source ("assets" :: rest) := by
  funext names
  cases names with
  | nil => rfl
  | cons name rest =>
    by_cases hassets : name = "assets"
    · subst hassets
      simp [bookTree, View.lay, View.put, View.hollow, Location.under?]
    · simp [bookTree, View.lay, View.put, View.hollow, Location.under?, hassets, Ne.symm hassets]

theorem isForeign_iff {format : Format} (h : format.isContainer = true) {names : List Raw} :
    IsForeign format names ↔ names ∈ format.foreignSheets.map fun name => (["css", Raw.ofText name] : List Raw) := by
  unfold IsForeign Format.foreignSheets
  rw [if_pos h, List.map_map, List.mem_map]
  simp only [List.mem_filter, Format.mem_all, true_and, decide_eq_true_eq]
  exact ⟨fun ⟨other, hother, heq⟩ => ⟨other, hother, heq.symm⟩, fun ⟨other, hother, heq⟩ => ⟨other, hother, heq.symm⟩⟩

theorem containerTree_eq {format : Format} (h : format.isContainer = true) {source : View} {type : Content}
    {executable : Bool} (htype : source ["epub", "mimetype"] = some (.file type executable)) (pages : Pages) :
    containerTree format source pages =
      (((((((((View.hollow.lay ["META-INF"] fun rest => source ("epub" :: "META-INF" :: rest)).put
        ["OEBPS"] .dir).put
        ["mimetype"] (.file type executable)).put
        ["OEBPS", "book.html"] (pageEntry pages.book)).put
        ["OEBPS", "cover.html"] (pageEntry pages.cover)).put
        ["OEBPS", "toc.html"] (pageEntry pages.contents)).put
        ["OEBPS", "content.opf"] (pageEntry pages.package)).put
        ["OEBPS", "toc.ncx"] (pageEntry pages.ncx)).lay
        ["OEBPS", "assets"] fun rest => source ("assets" :: rest)).drop
        (format.foreignSheets.map fun name => ["OEBPS", "assets", "css", Raw.ofText name]) := by
  have hdrop (names : List Raw) : ("OEBPS" :: "assets" :: names : List Raw) ∈
      (format.foreignSheets.map fun name => (["OEBPS", "assets", "css", Raw.ofText name] : List Raw)) ↔
        IsForeign format names := by
    simp [isForeign_iff h]
  have hout {names : List Raw} (hother : ∀ rest, names ≠ ("OEBPS" :: "assets" :: rest : List Raw)) :
      names ∉ format.foreignSheets.map fun name => (["OEBPS", "assets", "css", Raw.ofText name] : List Raw) := by
    intro hmem
    obtain ⟨name, -, rfl⟩ := List.mem_map.mp hmem
    exact hother _ rfl
  funext names
  rcases names with _ | ⟨name, rest⟩
  · rw [View.drop, if_neg (hout (by simp))]
    rfl
  by_cases hcontent : name = "OEBPS"
  · subst hcontent
    rcases rest with _ | ⟨inner, more⟩
    · rw [View.drop, if_neg (hout (by simp))]
      rfl
    by_cases hassets : inner = "assets"
    · subst hassets
      simp [containerTree, contentTree, View.drop, hdrop, View.lay, View.put, View.hollow, Location.under?]
    · rw [View.drop, if_neg (hout (by simp [hassets]))]
      by_cases hmore : more = []
      · subst hmore
        simp [containerTree, contentTree, Pages.entry?, View.lay, View.put, View.hollow, Location.under?, hassets,
          Ne.symm hassets]
      · simp [containerTree, contentTree, View.lay, View.put, View.hollow, Location.under?, hassets, hmore,
          Ne.symm hassets]
  · rw [View.drop, if_neg (hout (by simp [hcontent]))]
    by_cases hmeta : name = "META-INF"
    · subst hmeta
      simp [containerTree, View.lay, View.put, View.hollow, Location.under?]
    · simp [containerTree, View.lay, View.put, View.hollow, Location.under?, hcontent, hmeta, htype,
        Ne.symm hcontent, Ne.symm hmeta]

end Build

end Bindery
