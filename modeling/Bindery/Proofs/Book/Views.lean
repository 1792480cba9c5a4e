import Bindery.Book.Basic
import Bindery.Proofs.Template.Exchange

/-!
# `Proofs.Book.Views` — two ways to name what is known about a book

Templates see a book twice: entry by entry, with its free entries in `metadata`, and as a whole in `book`. The two
are put together separately, and in each of them the entries with a fixed name win over free entries that are
called the same. So it makes no difference which of the two a template names (`Book.OtherView`), and the field
`title` or `file` of a chapter is what is configured for it, whatever else the chapter holds.

**Contents.**
* `Book.ownNames`, `Book.OtherView` — the names of the fixed entries, and the other way to name an entry;
* `Book.SeenIn`, `exchangeable_of_seenIn` — bindings in which a book is seen;
* `select_title`, `select_file` — title and file of a chapter;
* `views_agree` — **the two ways to name an entry are the same in every template**.
-/

namespace Bindery

open Template

/-- The names of the entries that every book has. -/
def Book.ownNames : List String :=
  ["title", "author", "language", "identifier", "chapters"]

/-- The other way to name an entry of `book`: by its own name if that is fixed, otherwise in `metadata`. -/
inductive Book.OtherView : Chain → Chain → Prop
  | fixed {name : String} {fields : List String} (known : name ∈ ownNames) :
    OtherView ("book", name :: fields) (name, fields)
  | free {name : String} {fields : List String} (other : name ∉ ownNames) :
    OtherView ("book", name :: fields) ("metadata", name :: fields)

/-- The book is seen under the global variables, entry by entry and as a whole. -/
structure Book.SeenIn (book : Book) (globals : Binding) : Prop where
  fixed : ∀ name ∈ ownNames, Dict.find? name globals = Dict.find? name book.fixedVariables
  free : Dict.find? "metadata" globals = some (.map book.freeVariables)
  whole : Dict.find? "book" globals = some (.map (Dict.overlay book.freeVariables book.fixedVariables))

namespace Book

variable {book : Book} {globals : Binding} {name : String}

/-! ## What is seen of a book -/

/-- The fixed entries in order. -/
theorem fixedVariables_eq (book : Book) :
    book.fixedVariables =
      [("author", .str book.author), ("chapters", .list (book.chapters.map Chapter.value)),
        ("identifier", .str book.identifier), ("language", .str book.language), ("title", .str book.title)] := by
  unfold fixedVariables Dict.ofList
  simp +decide only [List.foldl_cons, List.foldl_nil, Dict.insert, if_true, if_false]

/-- A fixed entry is found from either end. -/
theorem find?_fixedVariables (h : name ∈ ownNames) (book : Book) :
    ∃ v, Dict.find? name book.fixedVariables = some v ∧ Dict.find? name book.fixedVariables.reverse = some v := by
  rw [fixedVariables_eq]
  simp only [ownNames, List.mem_cons, List.not_mem_nil, or_false] at h
  rcases h with rfl | rfl | rfl | rfl | rfl <;> exact ⟨_, rfl, rfl⟩

theorem find?_fixedVariables_eq_none (h : name ∉ ownNames) (book : Book) :
    Dict.find? name book.fixedVariables.reverse = none := by
  simp only [ownNames, List.mem_cons, List.not_mem_nil, or_false, not_or] at h
  rw [fixedVariables_eq]
  simp [Ne.symm h.1, Ne.symm h.2.1, Ne.symm h.2.2.1, Ne.symm h.2.2.2.1, Ne.symm h.2.2.2.2]

/-- A fixed name is none of the other names in a binding. -/
theorem ne_of_mem_ownNames (h : name ∈ ownNames) :
    name ≠ "output" ∧ name ≠ "metadata" ∧ name ≠ "book" ∧ name ≠ "build_date" := by
  simp only [ownNames, List.mem_cons, List.not_mem_nil, or_false] at h
  rcases h with rfl | rfl | rfl | rfl | rfl <;> decide

theorem seenIn_binding (book : Book) (format : Format) : book.SeenIn (book.binding format) where
  fixed := by
    intro name hname
    obtain ⟨houtput, hmetadata, hbook, -⟩ := ne_of_mem_ownNames hname
    rw [binding, Dict.find?_overlay]
    simp [Ne.symm houtput, Ne.symm hmetadata, Ne.symm hbook]
  free := by
    rw [binding, Dict.find?_overlay]
    simp
  whole := by
    rw [binding, Dict.find?_overlay]
    simp

theorem seenIn_bindingAt (book : Book) (format : Format) (buildDate : String) :
    book.SeenIn (book.bindingAt format buildDate) where
  fixed := by
    intro name hname
    rw [bindingAt, Dict.find?_insert, if_neg (ne_of_mem_ownNames hname).2.2.2]
    exact (seenIn_binding book format).fixed name hname
  free := by
    rw [bindingAt, Dict.find?_insert, if_neg (by decide)]
    exact (seenIn_binding book format).free
  whole := by
    rw [bindingAt, Dict.find?_insert, if_neg (by decide)]
    exact (seenIn_binding book format).whole

/-- **Both ways to name an entry come to the same.** -/
theorem exchangeable_of_seenIn (h : book.SeenIn globals) : Exchangeable OtherView globals := by
  intro chain chain' hview
  cases hview with
  | @fixed name fields known =>
    obtain ⟨v, hown, hlast⟩ := find?_fixedVariables known book
    simp only [Binding.follow, h.fixed name known, h.whole, hown, Value.select, Dict.find?_overlay, hlast,
      Option.some_or]
  | @free name fields other =>
    simp only [Binding.follow, h.free, h.whole, Value.select, Dict.find?_overlay,
      find?_fixedVariables_eq_none other book, Option.none_or]

/-- Both ways to name the chapters come to the chapters. -/
theorem follow_chapters (h : book.SeenIn globals) :
    globals.follow ("chapters", []) = .ok (.list (book.chapters.map Chapter.value)) ∧
      globals.follow ("book", ["chapters"]) = .ok (.list (book.chapters.map Chapter.value)) := by
  have hknown : "chapters" ∈ ownNames := by decide
  have hown : globals.follow ("chapters", []) = .ok (.list (book.chapters.map Chapter.value)) := by
    rw [Binding.follow, h.fixed "chapters" hknown, fixedVariables_eq]
    rfl
  exact ⟨hown, (exchangeable_of_seenIn h _ _ (.fixed hknown)).symm.trans hown⟩

end Book

/-! ## Chapters -/

theorem select_title (chapter : Chapter) : chapter.value.select ["title"] = .ok (.str chapter.title) := by
  rw [Chapter.value, Value.select, Dict.find?_insert_of_ne (by decide), Dict.find?_insert_self]
  rfl

theorem select_file (chapter : Chapter) :
    chapter.value.select ["file"] = .ok (chapter.file.elim .nil .str) := by
  rw [Chapter.value, Value.select, Dict.find?_insert_self]
  cases chapter.file <;> rfl

/-- What a loop variable comes to with a field. -/
theorem eval_enter {scope : Scope} {name field : String} {item v : Value} {index : Nat}
    (h : item.select [field] = .ok v) : (Expr.var name [field]).eval (scope.enter name item index) = .ok v := by
  rw [Expr.eval, find?_enter_name]
  show (item.select [field]).mapError _ = _
  rw [h]
  rfl

/-! ## The two ways in templates -/

/-- **The two ways to name an entry are the same in every template.** For every book, also one with free entries
that are called like fixed ones, in every format and with a build date or without: when `book.X` is written `X`
for the fixed names and `metadata.X` for all others, at any places where no loop binds what is named there,
every template resolves to the same text or fault. And a loop over the chapters, named in either way, has the
chapters in their order, each with the title and the file that are configured for it. -/
theorem views_agree (book : Book) (format : Format) (globals : Binding)
    (hglobals : globals = book.binding format ∨ ∃ buildDate, globals = book.bindingAt format buildDate) :
    (∀ engine engine' : Engine, engine.Exchanged Book.OtherView engine' →
      (∀ path, engine'.resolve globals path = engine.resolve globals path) ∧
      ∀ name source source', SourceExchanged Book.OtherView source source' →
        engine'.resolveText globals name source' = engine.resolveText globals name source) ∧
    ∀ (scope : Scope) (name : String) (items : Expr) (body : List Node), scope.globals = globals →
      (∀ word ∈ ["book", "chapters"], Dict.find? word scope.locals = none) →
      items ∈ [.var "chapters" [], .var "book" ["chapters"]] →
      render scope (.loop name items body) =
        renderEach (fun item index => renderAll (scope.enter name item index) body) 0
          (book.chapters.map Chapter.value) ∧
      ∀ (chapter : Chapter) (index : Nat),
        (Expr.var name ["title"]).eval (scope.enter name chapter.value index) = .ok (.str chapter.title) ∧
        (Expr.var name ["file"]).eval (scope.enter name chapter.value index) =
          .ok (chapter.file.elim .nil .str) := by
  have hseen : book.SeenIn globals := by
    rcases hglobals with rfl | ⟨buildDate, rfl⟩
    · exact book.seenIn_binding format
    · exact book.seenIn_bindingAt format buildDate
  constructor
  · intro engine engine' hengine
    exact resolve_exchanged (Book.exchangeable_of_seenIn hseen) hengine
  · rintro scope name items body rfl hfree hitems
    obtain ⟨hown, hwhole⟩ := Book.follow_chapters hseen
    have heval : items.eval scope = .ok (.list (book.chapters.map Chapter.value)) := by
      rcases List.mem_pair.mp hitems with rfl | rfl
      · rw [eval_chain (hfree "chapters" (by decide)), hown]
        rfl
      · rw [eval_chain (hfree "book" (by decide)), hwhole]
        rfl
    refine ⟨?_, fun chapter index => ⟨eval_enter (select_title chapter), eval_enter (select_file chapter)⟩⟩
    unfold render
    rw [heval]
    rfl

/-- A book with free entries that are called like fixed ones, also in its chapter. -/
def collision : Book where
  title := "A"
  author := "me"
  identifier := "n1"
  chapters := [{ title := "One", extra := [("file", .text "x"), ("title", .text "x")] }]
  metadata := [("title", .text "x"), ("year", .int 7)]

/-- A page that names the book as a whole. -/
def wholePieces : List Piece :=
  [.tag ['=', 'b', 'o', 'o', 'k', '.', 't', 'i', 't', 'l', 'e'],
   .tag ['=', 'b', 'o', 'o', 'k', '.', 'y', 'e', 'a', 'r']]

/-- The page that names its entries. -/
def entryPieces : List Piece :=
  [.tag ['=', 't', 'i', 't', 'l', 'e'],
   .tag ['=', 'm', 'e', 't', 'a', 'd', 'a', 't', 'a', '.', 'y', 'e', 'a', 'r']]

/-- A directory with one page in it. -/
def pageOf (pieces : List Piece) : Engine where
  sources :=
    { root := ⟨"book"⟩
      read := fun names => if names = [("p" : Raw)] then .ok (String.ofList (sources pieces)) else .error .notFound }

theorem sourceExchanged_page :
    SourceExchanged Book.OtherView (String.ofList (sources wholePieces)) (String.ofList (sources entryPieces)) := by
  have hwhole : Cut wholePieces :=
    ⟨⟨.of_quiet (by decide), '=', _, rfl, by decide, by decide⟩, nofun,
      ⟨.of_quiet (by decide), '=', _, rfl, by decide, by decide⟩, nofun, trivial⟩
  have hentries : Cut entryPieces :=
    ⟨⟨.of_quiet (by decide), '=', _, rfl, by decide, by decide⟩, nofun,
      ⟨.of_quiet (by decide), '=', _, rfl, by decide, by decide⟩, nofun, trivial⟩
  have htitle : (Expr.var "book" ["title"]).Exchanged Book.OtherView [] (.var "title" []) :=
    .var (.fixed (by decide)) nofun nofun
  have hyear : (Expr.var "book" ["year"]).Exchanged Book.OtherView [] (.var "metadata" ["year"]) :=
    .var (.free (by decide)) nofun nofun
  unfold SourceExchanged
  rw [String.toList_ofList, String.toList_ofList, scan_sources hwhole, scan_sources hentries]
  exact .ok (.output (by decide +kernel) (by decide +kernel) htitle
    (.output (by decide +kernel) (by decide +kernel) hyear .nil))

/-- Both pages are the same, and the chapter has the title that is configured, and no file. -/
theorem views_agree_collision :
    (∀ path, (pageOf entryPieces).resolve (collision.binding .pdf) path =
      (pageOf wholePieces).resolve (collision.binding .pdf) path) ∧
    render ⟨⟨"p"⟩, collision.binding .pdf, [], fun path => .error ⟨path, .emptyPath⟩⟩
      (.loop "c" (.var "book" ["chapters"]) [.output (.var "c" ["title"]), .output (.var "c" ["file"])]) =
        .ok "One" := by
  obtain ⟨hpages, hloop⟩ := views_agree collision .pdf _ (.inl rfl)
  have hengine : (pageOf wholePieces).Exchanged Book.OtherView (pageOf entryPieces) := by
    refine ⟨rfl, rfl, fun names => ?_⟩
    unfold pageOf
    dsimp only
    split
    · exact .ok sourceExchanged_page
    · exact .error _
  refine ⟨(hpages _ _ hengine).1, ?_⟩
  rw [(hloop _ "c" _ _ rfl (by decide) (by decide)).1]
  decide +kernel

end Bindery
