import Bindery.Book.Reading
import Bindery.Book.Writing
import Bindery.Proofs.Text.Raw
import Bindery.Proofs.Yaml.Written

/-!
# `Bindery.Proofs.Book.ReadBack` — a configuration survives writing and reading

Writer and reader of a configuration are not mirror images: free entries stand beside the fixed ones, on two
levels; a chapter may be a string or a mapping; the tools are left out when they are the usual ones; what is
missing gets a default. Still the reader finds in every tree that the writer may leave the configuration
that was written.

The reader goes through the entries one by one and keeps what it knows so far, so the proof does: the fixed
entries come first and fill empty places, then the tools if they are there, then the free entries, which are
in order and are put in place one after another.

**Contents.** `WrittenFields`, a mapping field by field; `Converters.InText`; `Tools.ofTree?_written`,
`Chapter.ofTree?_written` and `Book.ofTree?_written`; `Book.Same`, `Book.Proper` and `Book.Plain`;
`Book.reads_back`.
-/

namespace Bindery

open Yaml (Tree Value Written WrittenItems WrittenEntries)

/-! ## Fields -/

/-- The entries that fields are written as: each key is a scalar with the name of its field. -/
inductive WrittenFields : List (String × Value) → List (Tree × Tree) → Prop where
  | nil : WrittenFields [] []
  | cons {name : String} {value : Value} {key tree : Tree} {fields : List (String × Value)}
    {entries : List (Tree × Tree)} (named : scalarText? key = some name) (written : Written value tree)
    (tail : WrittenFields fields entries) :
    WrittenFields ((name, value) :: fields) ((key, tree) :: entries)

/-- A string is written as a scalar with its characters. -/
theorem scalarText?_written {s : String} {tree : Tree} (h : Written (.text s) tree) :
    scalarText? tree = some s := by
  cases h <;> rfl

theorem writtenFields_of_entries {fields : List (String × Value)} {entries : List (Tree × Tree)}
    (h : WrittenEntries (fields.map fun (name, value) => (.text name, value)) entries) :
    WrittenFields fields entries := by
  induction fields generalizing entries with
  | nil => cases h; exact .nil
  | cons field fields ih =>
    cases h with
    | cons first second tail => exact .cons (scalarText?_written first) second (ih tail)

/-- A mapping with string keys is written field by field. -/
theorem writtenFields_of_written {fields : List (String × Value)} {tree : Tree}
    (h : Written (.ofFields fields) tree) :
    ∃ entries, tree = .dict none entries ∧ WrittenFields fields entries := by
  cases h with
  | dict h => exact ⟨_, rfl, writtenFields_of_entries h⟩

section Folding

variable {β : Type} {step : β → String → Tree → Option β}

/-- One field is one step. -/
theorem foldEntries?_field {state next : β} {name : String} {key tree : Tree} {entries : List (Tree × Tree)}
    (named : scalarText? key = some name) (hstep : step state name tree = some next) :
    foldEntries? step state ((key, tree) :: entries) = foldEntries? step next entries := by
  rw [foldEntries?, named]
  simp only [Option.bind_eq_bind, Option.bind_some, hstep]

end Folding

/-- What is written item by item is read item by item. -/
theorem mapM_written {α : Type} {items : List α} {toValue : α → Value} {read : Tree → Option α}
    {trees : List Tree} (h : WrittenItems (items.map toValue) trees)
    (hread : ∀ item ∈ items, ∀ tree, Written (toValue item) tree → read tree = some item) :
    trees.mapM read = some items := by
  induction items generalizing trees with
  | nil => cases h; rfl
  | cons item items ih =>
    cases h with
    | cons head tail =>
      have hitem := hread item List.mem_cons_self _ head
      have hitems := ih tail fun item hmem => hread item (List.mem_cons_of_mem _ hmem)
      simp [hitem, hitems]

/-- Free entries that a program can hold: they are in order, and their values can be held. -/
structure FreeEntries (entries : Dict String Value) : Prop where
  sorted : entries.Sorted
  values : ∀ entry ∈ entries, entry.2.Proper

/-- Entries that are put in place in their order are there as before. -/
theorem FreeEntries.overlay_nil {entries : Dict String Value} (h : FreeEntries entries) :
    Dict.overlay [] entries = entries :=
  Dict.overlay_of_sorted h.sorted

/-! ## Tools -/

theorem textList?_written {texts : List String} {tree : Tree} (h : Written (.list (texts.map .text)) tree) :
    textList? tree = some texts := by
  cases h with
  | list h => exact mapM_written h fun _ _ _ => scalarText?_written

/-- The seconds are written as a number, or as null if there are none. -/
theorem seconds?_written {timeout : Option Nat} {tree : Tree}
    (h : Written (match timeout with | some n => .int n | none => .null) tree)
    (small : ∀ n ∈ timeout, n < Nat.pow 2 64) : Tools.seconds? tree = some timeout := by
  cases timeout with
  | none => cases h; rfl
  | some n =>
    cases h
    have numeric := Yaml.numeric_toString n
    have hread := Yaml.integer?_toString n
    have hminus : (toString (n : Int)).toList.head? ≠ some '-' := by
      rw [show toString (n : Int) = toString n from rfl, Yaml.toList_digits]
      intro hhead
      obtain ⟨rest, heq⟩ := List.head?_eq_some_iff.mp hhead
      exact Yaml.toDigits_ne_sign (by decide) rest heq
    have hsmall := small n rfl
    simp only [Tools.seconds?, numeric.not_empty, numeric.not_isNull, if_neg hminus, hread]
    simp [hsmall]

/-- Programs that can be written: their paths are texts. -/
structure Converters.InText (converters : Converters) : Prop where
  linux : converters.linux.raw.IsText
  macos : converters.macos.raw.IsText
  windows : converters.windows.raw.IsText

theorem Converters.ofTree?_written {converters : Converters} {tree : Tree} (inText : converters.InText)
    (h : Written (.ofFields [("linux", .text converters.linux.text), ("macos", .text converters.macos.text),
      ("windows", .text converters.windows.text)]) tree) :
    Converters.ofTree? tree = some converters := by
  obtain ⟨entries, rfl, hentries⟩ := writtenFields_of_written h
  obtain - | ⟨named₁, written₁, hentries⟩ := hentries
  obtain - | ⟨named₂, written₂, hentries⟩ := hentries
  obtain - | ⟨named₃, written₃, hentries⟩ := hentries
  cases hentries
  have linux := scalarText?_written written₁
  have macos := scalarText?_written written₂
  have windows := scalarText?_written written₃
  have back {path : Path} (inText : path.raw.IsText) : (⟨path.text⟩ : Path) = path :=
    congrArg Path.mk inText.ofText_text
  simp [Converters.ofTree?, entriesOf?, foldEntries?, Draft.add?, fill?, named₁, named₂, named₃, linux,
    macos, windows, back inText.linux, back inText.macos, back inText.windows]

theorem Tools.ofTree?_written {tools : Tools} {tree : Tree} (h : Written tools.toYaml tree)
    (small : ∀ n ∈ tools.timeout, n < Nat.pow 2 64) (inText : tools.kindlegen.InText) :
    Tools.ofTree? tree = some tools := by
  obtain ⟨entries, rfl, hentries⟩ := writtenFields_of_written h
  obtain - | ⟨named₁, written₁, hentries⟩ := hentries
  obtain - | ⟨named₂, written₂, hentries⟩ := hentries
  obtain - | ⟨named₃, written₃, hentries⟩ := hentries
  obtain - | ⟨named₄, written₄, hentries⟩ := hentries
  cases hentries
  have epubcheck := textList?_written written₁
  have kindlegen := Converters.ofTree?_written inText written₂
  have prince := textList?_written written₃
  have timeout := seconds?_written written₄ small
  simp [Tools.ofTree?, entriesOf?, foldEntries?, Draft.add?, fill?, named₁, named₂, named₃, named₄,
    epubcheck, kindlegen, prince, timeout]

/-- No part of what tools are written as has a tag. -/
theorem Tools.toYaml_untagged (tools : Tools) : tools.toYaml.Untagged := by
  have texts (texts : List String) : (Value.list (texts.map .text)).Untagged := by
    refine ⟨trivial, Value.everyItem_iff.mpr ?_⟩
    intro item hitem
    obtain ⟨text, _, rfl⟩ := List.mem_map.mp hitem
    exact trivial
  refine ⟨trivial, Value.everyEntry_fields (fun _ => trivial) ?_⟩
  intro field hmem
  simp only [List.mem_cons, List.not_mem_nil, or_false] at hmem
  rcases hmem with rfl | rfl | rfl | rfl
  · exact texts _
  · exact ⟨trivial, ⟨trivial, trivial, trivial, trivial, trivial, trivial, trivial⟩⟩
  · exact texts _
  · cases tools.timeout <;> exact trivial

/-! ## Chapters -/

namespace Chapter

/-- The names of the entries that are no free ones. -/
def fixedNames : List String :=
  ["title", "file"]

theorem Draft.add?_free {name : String} (h : name ∉ fixedNames) (value : Value) (draft : Draft) :
    draft.add? (.text name) value
      = some { draft with extra := Dict.insert name value draft.extra } := by
  simp only [fixedNames, List.mem_cons, List.not_mem_nil, or_false, not_or] at h
  unfold Draft.add?
  split <;> simp_all

theorem Draft.addAll?_extra {extra : Dict String Value} (names : ∀ entry ∈ extra, entry.1 ∉ fixedNames)
    (draft : Draft) :
    draft.addAll? (extra.map fun (name, value) => (.text name, value))
      = some { draft with extra := Dict.overlay draft.extra extra } := by
  induction extra generalizing draft with
  | nil => rfl
  | cons entry extra ih =>
    have hadd := Draft.add?_free (names entry List.mem_cons_self) entry.2 draft
    simp only [List.map_cons, Draft.addAll?, hadd, Option.bind_eq_bind, Option.bind_some]
    rw [ih fun entry hmem => names entry (List.mem_cons_of_mem _ hmem)]
    rfl

/-- What holds of strings and of null holds in a chapter if it holds in the free entries. -/
theorem every_fields {p : Value → Prop} (texts : ∀ s, p (.text s)) (null : p .null) {chapter : Chapter}
    (extra : ∀ entry ∈ chapter.extra, entry.2.Every p) :
    ∀ field ∈ [("title", Value.text chapter.title),
      ("file", match chapter.file with | some file => .text file | none => .null)] ++ chapter.extra,
      field.2.Every p := by
  intro field hmem
  rcases List.mem_append.mp hmem with hmem | hmem
  · rcases List.mem_cons.mp hmem with rfl | hmem
    · exact texts _
    · rw [List.mem_singleton.mp hmem]
      cases chapter.file with
      | none => exact null
      | some file => exact texts _
  · exact extra field hmem

/-- A chapter is read back; title and file are there first, and the free entries follow in order. -/
theorem ofTree?_written {chapter : Chapter} {tree : Tree} (h : Written chapter.toYaml tree)
    (names : ∀ entry ∈ chapter.extra, entry.1 ∉ fixedNames) (free : FreeEntries chapter.extra) :
    ofTree? tree = some chapter := by
  have hextra (draft : Draft) := Draft.addAll?_extra names draft
  have hsorted := free.overlay_nil
  cases h with
  | dict h =>
    -- a chapter is read as a value first, so that its entries have to be ones that can be held
    have proper := Value.everyEntry_fields (p := Value.Held) (fun _ => trivial)
      (every_fields (fun _ => trivial) trivial free.values)
    have hread := Yaml.ofEntries?_written false h proper
    obtain ⟨title, file, extra⟩ := chapter
    simp only [ofTree?, hread]
    cases file with
    | none => simp [Value.ownTag?, Draft.addAll?, Draft.add?, fill?, hextra, hsorted]
    | some file => simp [Value.ownTag?, Draft.addAll?, Draft.add?, fill?, hextra, hsorted]

end Chapter

/-! ## Books -/

/-- The same programs up to how their paths are written. -/
theorem Tools.Same.symm {these those : Tools} (h : these.Same those) : those.Same these :=
  ⟨h.1.symm, ⟨h.2.1.1.symm, h.2.1.2.1.symm, h.2.1.2.2.symm⟩, h.2.2.1.symm, h.2.2.2.symm⟩

theorem Tools.Same.refl (tools : Tools) : tools.Same tools :=
  ⟨rfl, ⟨rfl, rfl, rfl⟩, rfl, rfl⟩

namespace Book

/-- The same configuration, up to how the paths of the converters are written. -/
def Same (these those : Book) : Prop :=
  these.title = those.title ∧ these.author = those.author ∧ these.chapters = those.chapters ∧
    these.language = those.language ∧ these.identifier = those.identifier ∧
    these.tools.Same those.tools ∧ these.metadata = those.metadata

/-- The names of the entries that are no free ones. -/
def fixedNames : List String :=
  ["title", "author", "chapters", "language", "identifier", "tools"]

/-- What a program can hold and write: free entries that can be held, seconds of 64 bits, and paths that are texts. -/
structure Proper (book : Book) : Prop where
  metadata : FreeEntries book.metadata
  extra : ∀ chapter ∈ book.chapters, FreeEntries chapter.extra
  seconds : ∀ n ∈ book.tools.timeout, n < Nat.pow 2 64
  converters : book.tools.kindlegen.InText

/-- The title is not blank, no free entry has the name of a fixed one, and no value in it has a tag. -/
structure Plain (book : Book) : Prop where
  titled : Text.trim book.title.toList ≠ []
  metadata_names : ∀ entry ∈ book.metadata, entry.1 ∉ fixedNames
  metadata_untagged : ∀ entry ∈ book.metadata, entry.2.Untagged
  extra_names : ∀ chapter ∈ book.chapters, ∀ entry ∈ chapter.extra, entry.1 ∉ Chapter.fixedNames
  extra_untagged : ∀ chapter ∈ book.chapters, ∀ entry ∈ chapter.extra, entry.2.Untagged

/-- What is known once the entries with a fixed name have been read. -/
def fixedDraft (book : Book) : Draft :=
  { title := some book.title, author := some book.author, chapters := some book.chapters,
    language := some book.language, identifier := some book.identifier }

/-- The fixed entries come first, each of them once. -/
theorem foldEntries?_fixed {book : Book} {others : List (String × Value)} {entries : List (Tree × Tree)}
    (hchapter : ∀ chapter ∈ book.chapters, ∀ tree, Written chapter.toYaml tree →
      Chapter.ofTree? tree = some chapter)
    (h : WrittenFields ([("title", .text book.title), ("author", .text book.author),
      ("chapters", .list (book.chapters.map Chapter.toYaml)), ("language", .text book.language),
      ("identifier", .text book.identifier)] ++ others) entries) :
    ∃ rest, WrittenFields others rest ∧
      foldEntries? Draft.add? {} entries = foldEntries? Draft.add? book.fixedDraft rest := by
  obtain - | ⟨named₁, written₁, h⟩ := h
  obtain - | ⟨named₂, written₂, h⟩ := h
  obtain - | ⟨named₃, written₃, h⟩ := h
  obtain - | ⟨named₄, written₄, h⟩ := h
  obtain - | ⟨named₅, written₅, h⟩ := h
  refine ⟨_, h, ?_⟩
  have title := scalarText?_written written₁
  have author := scalarText?_written written₂
  have language := scalarText?_written written₄
  have identifier := scalarText?_written written₅
  cases written₃ with
  | list hitems =>
    have chapters := mapM_written hitems hchapter
    simp [foldEntries?, Draft.add?, fill?, named₁, named₂, named₃, named₄, named₅, title, author, itemsOf?,
      chapters, language, identifier, fixedDraft]

theorem Draft.add?_free {name : String} (h : name ∉ fixedNames) {tree : Tree} {value : Value}
    (hread : Value.ofTree? false tree = some value) (draft : Draft) :
    draft.add? name tree = some { draft with metadata := Dict.insert name value draft.metadata } := by
  simp only [fixedNames, List.mem_cons, List.not_mem_nil, or_false, not_or] at h
  unfold Draft.add?
  split <;> simp_all

/-- Free entries follow one another in the metadata. -/
theorem foldEntries?_metadata {metadata : Dict String Value} {entries : List (Tree × Tree)}
    (h : WrittenFields metadata entries) (names : ∀ entry ∈ metadata, entry.1 ∉ fixedNames)
    (values : ∀ entry ∈ metadata, entry.2.Proper) (draft : Draft) :
    foldEntries? Draft.add? draft entries
      = some { draft with metadata := Dict.overlay draft.metadata metadata } := by
  induction h generalizing draft with
  | nil => rfl
  | cons named written tail ih =>
    have hread := Yaml.ofTree?_written false written (values _ List.mem_cons_self)
    have hadd := Draft.add?_free (names _ List.mem_cons_self) hread draft
    rw [foldEntries?_field named hadd, ih (fun entry hmem => names entry (List.mem_cons_of_mem _ hmem))
      (fun entry hmem => values entry (List.mem_cons_of_mem _ hmem))]
    rfl

/-- Tools that are not the usual ones are written in front of the free entries. -/
theorem foldEntries?_tools {book : Book} (proper : book.Proper) (plain : book.Plain)
    {entries : List (Tree × Tree)}
    (h : WrittenFields ((if book.tools.Same {} then [] else [("tools", book.tools.toYaml)]) ++ book.metadata)
      entries) :
    foldEntries? Draft.add? book.fixedDraft entries
      = some { book.fixedDraft with
          tools := if book.tools.Same {} then none else some book.tools, metadata := book.metadata } := by
  have hmetadata (draft : Draft) {entries : List (Tree × Tree)} (h : WrittenFields book.metadata entries) :=
    foldEntries?_metadata h plain.metadata_names proper.metadata.values draft
  split at h
  · next usual =>
    rw [List.nil_append] at h
    rw [hmetadata _ h, if_pos usual]
    simp only [fixedDraft, proper.metadata.overlay_nil]
  · next unusual =>
    obtain - | ⟨named, written, h⟩ := h
    have hread := Tools.ofTree?_written written proper.seconds proper.converters
    rw [foldEntries?_field named (show book.fixedDraft.add? "tools" _
        = some { book.fixedDraft with tools := some book.tools } by
          simp [Draft.add?, fill?, fixedDraft, hread]),
      hmetadata _ h, if_neg unusual]
    simp only [fixedDraft, proper.metadata.overlay_nil]

/-- A configuration is read back from the tree of what it is written as; usual tools are left out, and come
back as the usual ones. -/
theorem ofTree?_written {book : Book} (proper : book.Proper) (plain : book.Plain) {tree : Tree}
    (h : Written book.toYaml tree) (fresh : String) :
    ofTree? fresh tree = some { book with tools := if book.tools.Same {} then {} else book.tools } := by
  obtain ⟨entries, rfl, hentries⟩ := writtenFields_of_written h
  rw [List.append_assoc] at hentries
  have hchapter : ∀ chapter ∈ book.chapters, ∀ tree, Written chapter.toYaml tree →
      Chapter.ofTree? tree = some chapter := fun chapter hmem _ h =>
    Chapter.ofTree?_written h (plain.extra_names chapter hmem) (proper.extra chapter hmem)
  obtain ⟨rest, hrest, hfixed⟩ := foldEntries?_fixed hchapter hentries
  have hfree := foldEntries?_tools proper plain hrest
  simp only [ofTree?, entriesOf?, Option.bind_eq_bind, Option.bind_some, hfixed, hfree]
  split <;> rfl

/-- Usual tools may differ from the usual ones in how their paths are written, and in nothing else. -/
theorem same_written (book : Book) :
    Same { book with tools := if book.tools.Same {} then {} else book.tools } book := by
  refine ⟨rfl, rfl, rfl, rfl, rfl, ?_, rfl⟩
  dsimp only
  split
  · next usual => exact usual.symm
  · exact Tools.Same.refl _

/-- No part of what a configuration is written as has a tag, if no free value has one. -/
theorem toYaml_untagged {book : Book} (plain : book.Plain) : book.toYaml.Untagged := by
  refine ⟨trivial, Value.everyEntry_fields (fun _ => trivial) ?_⟩
  intro field hmem
  rcases List.mem_append.mp hmem with hmem | hmem
  · rcases List.mem_append.mp hmem with hmem | hmem
    · simp only [List.mem_cons, List.not_mem_nil, or_false] at hmem
      rcases hmem with rfl | rfl | rfl | rfl | rfl
      -- of the fixed entries only the chapters hold free values
      case inr.inr.inl =>
        refine ⟨trivial, Value.everyItem_iff.mpr ?_⟩
        intro item hitem
        obtain ⟨chapter, hchapter, rfl⟩ := List.mem_map.mp hitem
        exact ⟨trivial, Value.everyEntry_fields (fun _ => trivial)
          (Chapter.every_fields (fun _ => trivial) trivial (plain.extra_untagged chapter hchapter))⟩
      all_goals exact trivial
    · split at hmem
      · cases hmem
      · rw [List.mem_singleton.mp hmem]
        exact book.tools.toYaml_untagged
  · exact plain.metadata_untagged field hmem

/-- **A configuration survives writing and reading.** What it is written as can be written as a tree, and
from every such tree the same configuration is read: exactly the one that was written, unless the tools are
the usual ones and are left out. -/
theorem reads_back {book : Book} (proper : book.Proper) (plain : book.Plain) :
    (∃ tree, Written book.toYaml tree) ∧
      ∃ back : Book, back.Same book ∧ (¬ book.tools.Same {} → back = book) ∧
        ∀ tree, Written book.toYaml tree → ∀ fresh, ofTree? fresh tree = some back ∧
          ∀ origin text, Tree.ofText? text = some tree → ofText origin fresh text = .ok back := by
  refine ⟨Yaml.exists_written (toYaml_untagged plain),
    { book with tools := if book.tools.Same {} then {} else book.tools }, same_written book, ?_, ?_⟩
  · intro unusual
    rw [if_neg unusual]
  · intro tree hwritten fresh
    have hread := ofTree?_written proper plain hwritten fresh
    refine ⟨hread, fun origin text htext => ?_⟩
    have titled : (Text.trim book.title.toList).isEmpty = false := by
      simpa using plain.titled
    simp only [ofText, htext, Option.bind_some, hread, titled]
    rfl

/-- A configuration with every kind of entry: chapters with and without a file, free entries in it and in a
chapter, and tools of which one is an unusual one. -/
def almanac : Book where
  title := "Almanac"
  author := "Nobody"
  chapters := [{ title := "Preface" },
    { title := "Tides", file := some "chapters/tides.html.erb",
      extra := [("draft", .bool true), ("places", .list [.text "Hull", .text "12", .null])] }]
  language := "de"
  identifier := "urn:almanac"
  tools := { prince := ["weasyprint"] }
  metadata := [("edition", .int (-2)), ("price", .float (.finite false ⟨95, -1⟩)),
    ("terms", .dict [(.int 1, .text "true"), (.text "", .dict [])])]

theorem almanac_proper : almanac.Proper := by
  have price : (Number.Double.finite false ⟨95, -1⟩).Proper :=
    ⟨⟨5348024557502464, -49⟩, ⟨by decide, by decide, by decide, .inl (by decide)⟩, by decide +kernel⟩
  refine ⟨⟨?_, ?_⟩, ?_, ?_, ⟨Raw.isText_ofText _, Raw.isText_ofText _, Raw.isText_ofText _⟩⟩
  · simp only [Dict.Sorted, almanac, List.pairwise_cons]
    decide
  · simp only [almanac, List.forall_mem_cons, List.not_mem_nil, false_imp_iff, implies_true, and_true]
    exact ⟨rfl, price, rfl, rfl, trivial, trivial, ⟨rfl, trivial⟩, trivial⟩
  · simp only [almanac, List.forall_mem_cons, List.not_mem_nil, false_imp_iff, implies_true, and_true]
    refine ⟨⟨List.Pairwise.nil, List.forall_mem_nil _⟩, ⟨?_, ?_⟩⟩
    · simp only [Dict.Sorted, List.pairwise_cons]
      decide
    · simp only [List.forall_mem_cons, List.not_mem_nil, false_imp_iff, implies_true, and_true]
      exact ⟨trivial, trivial, trivial, trivial, trivial, trivial⟩
  · intro seconds hmem
    cases hmem

theorem almanac_plain : almanac.Plain := by
  refine ⟨by decide, by decide, ?_, by decide, ?_⟩
  · simp only [almanac, List.forall_mem_cons, List.not_mem_nil, false_imp_iff, implies_true, and_true]
    exact ⟨trivial, trivial, trivial, trivial, trivial, trivial, ⟨trivial, trivial⟩, trivial⟩
  · simp only [almanac, List.forall_mem_cons, List.not_mem_nil, false_imp_iff, implies_true, and_true,
      true_and]
    exact ⟨trivial, trivial, trivial, trivial, trivial, trivial⟩

theorem reads_back_almanac : almanac.Proper ∧ almanac.Plain ∧
    (∃ tree, Written almanac.toYaml tree) ∧
      ∃ back : Book, back.Same almanac ∧ (¬ almanac.tools.Same {} → back = almanac) ∧
        ∀ tree, Written almanac.toYaml tree → ∀ fresh, ofTree? fresh tree = some back ∧
          ∀ origin text, Tree.ofText? text = some tree → ofText origin fresh text = .ok back :=
  ⟨almanac_proper, almanac_plain, reads_back almanac_proper almanac_plain⟩

end Book

end Bindery
