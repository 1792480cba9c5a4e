import Bindery.Proofs.Book.ReadBack
import Bindery.Proofs.Yaml.Held

/-!
# `Bindery.Proofs.Book.Reloading` — a configuration that was read can be written and read again

Whatever is read is a configuration that a program can hold. The reader keeps that up entry by entry: a free
entry is put in its place among the others, and a fixed one fills an empty place with what can be held. So a
configuration that was read, and that has no blank title and no tags, is the same when it has been
written and read again.

**Contents.** `FreeEntries.insert`; `foldEntries?_invariant`; `Chapter.free_of_ofTree?`, `Tools.small_of_ofTree?`,
`Tools.inText_of_ofTree?` and `Book.proper_of_ofTree?`; `Book.reloads`.
-/

namespace Bindery

open Yaml (Tree Value Written)

theorem FreeEntries.nil : FreeEntries [] :=
  ⟨List.Pairwise.nil, nofun⟩

theorem FreeEntries.insert {entries : Dict String Value} (h : FreeEntries entries) (name : String)
    {value : Value} (proper : value.Proper) : FreeEntries (Dict.insert name value entries) where
  sorted := h.sorted.insert name value
  values := by
    intro entry hmem
    rcases Dict.mem_insert hmem with rfl | hmem
    · exact proper
    · exact h.values entry hmem

/-- What every step keeps holds at the end. -/
theorem foldEntries?_invariant {β : Type} {step : β → String → Tree → Option β} (inv : β → Prop)
    (hstep : ∀ state name tree next, inv state → step state name tree = some next → inv next)
    {entries : List (Tree × Tree)} {state last : β} (h : inv state)
    (hfold : foldEntries? step state entries = some last) : inv last := by
  induction entries generalizing state with
  | nil =>
    cases hfold
    exact h
  | cons entry entries ih =>
    obtain ⟨key, tree⟩ := entry
    obtain ⟨name, _, hfold⟩ := Option.bind_eq_some_iff.mp hfold
    obtain ⟨next, hnext, hfold⟩ := Option.bind_eq_some_iff.mp hfold
    exact ih (hstep state name tree next h hnext) hfold

/-- A place is filled with what there is to fill it with. -/
theorem fill?_eq_some {β : Type} {place value filled : Option β} (h : fill? place value = some filled) :
    value = filled ∧ filled.isSome := by
  unfold fill? at h
  split at h
  · cases h
  · obtain ⟨x, rfl, rfl⟩ := Option.map_eq_some_iff.mp h
    exact ⟨rfl, rfl⟩

/-- What is read along a list has been read from one of its items. -/
theorem exists_of_mapM {α β : Type} {read : α → Option β} {items : List α} {results : List β}
    (h : items.mapM read = some results) : ∀ result ∈ results, ∃ item ∈ items, read item = some result := by
  induction items generalizing results with
  | nil =>
    cases h
    exact nofun
  | cons item items ih =>
    rw [List.mapM_cons] at h
    obtain ⟨first, hfirst, h⟩ := Option.bind_eq_some_iff.mp h
    obtain ⟨others, hothers, h⟩ := Option.bind_eq_some_iff.mp h
    cases h
    intro result hmem
    rcases List.mem_cons.mp hmem with rfl | hmem
    · exact ⟨item, List.mem_cons_self, hfirst⟩
    · obtain ⟨other, hother, hread⟩ := ih hothers result hmem
      exact ⟨other, List.mem_cons_of_mem _ hother, hread⟩

/-! ## Chapters -/

namespace Chapter

/-- An entry of a chapter is put among the free ones, or leaves them as they are. -/
theorem Draft.add?_cases {draft next : Draft} {key value : Value} (h : draft.add? key value = some next) :
    next.extra = draft.extra ∨ ∃ name, next.extra = Dict.insert name value draft.extra := by
  unfold Draft.add? at h
  split at h
  case h_1 | h_3 | h_4 =>
    obtain ⟨_, _, h⟩ := Option.bind_eq_some_iff.mp h
    cases h
    exact .inl rfl
  case h_6 name _ _ _ _ =>
    cases h
    exact .inr ⟨_, rfl⟩
  all_goals cases h

theorem Draft.free_addAll? {draft last : Draft} {entries : List (Value × Value)} (h : FreeEntries draft.extra)
    (proper : Value.EveryEntry Value.Held entries) (hall : draft.addAll? entries = some last) :
    FreeEntries last.extra := by
  induction entries generalizing draft with
  | nil =>
    cases hall
    exact h
  | cons entry entries ih =>
    obtain ⟨key, value⟩ := entry
    obtain ⟨next, hnext, hall⟩ := Option.bind_eq_some_iff.mp hall
    refine ih ?_ proper.2.2 hall
    rcases Draft.add?_cases hnext with hsame | ⟨name, hinsert⟩
    · rw [hsame]
      exact h
    · rw [hinsert]
      exact h.insert name proper.2.1

/-- The free entries of a chapter that was read can be held. -/
theorem free_of_ofTree? {tree : Tree} {chapter : Chapter} (h : ofTree? tree = some chapter) :
    FreeEntries chapter.extra := by
  unfold ofTree? at h
  split at h
  · split at h
    · cases h
      exact .nil
    · cases h
  · next entries =>
    simp only [Option.bind_eq_bind] at h
    split at h
    · cases h
    · obtain ⟨values, hvalues, h⟩ := Option.bind_eq_some_iff.mp h
      obtain ⟨draft, hdraft, h⟩ := Option.bind_eq_some_iff.mp h
      obtain ⟨title, _, h⟩ := Option.bind_eq_some_iff.mp h
      cases h
      exact Draft.free_addAll? .nil (Yaml.proper_of_ofEntries? _ hvalues) hdraft
  · cases h

end Chapter

/-! ## Tools -/

theorem Converters.InText.usual : ({} : Converters).InText :=
  ⟨Raw.isText_ofText _, Raw.isText_ofText _, Raw.isText_ofText _⟩

/-- What is read from a text is one. -/
theorem Converters.inText_of_ofTree? {tree : Tree} {converters : Converters}
    (h : Converters.ofTree? tree = some converters) : converters.InText := by
  obtain ⟨entries, _, h⟩ := Option.bind_eq_some_iff.mp h
  obtain ⟨draft, _, h⟩ := Option.bind_eq_some_iff.mp h
  cases h
  have hread {usual : Path} (husual : usual.raw.IsText) (place : Option String) :
      ((place.map fun text => (⟨Raw.ofText text⟩ : Path)).getD usual).raw.IsText := by
    cases place with
    | none => exact husual
    | some text => exact Raw.isText_ofText text
  exact ⟨hread Converters.InText.usual.linux _, hread Converters.InText.usual.macos _,
    hread Converters.InText.usual.windows _⟩

namespace Tools

theorem small_of_seconds? {tree : Tree} {n : Nat} (h : seconds? tree = some (some n)) : n < Nat.pow 2 64 := by
  unfold seconds? at h
  split at h
  · split at h
    · split at h <;> cases h
    · split at h
      · cases h
      · split at h
        · cases h
        · split at h
          · split at h
            · next hsmall =>
              cases h
              exact hsmall
            · cases h
          · cases h
  · cases h

/-- The converters that were read, or the usual ones. -/
theorem inText_of_ofTree? {tree : Tree} {tools : Tools} (h : ofTree? tree = some tools) : tools.kindlegen.InText := by
  obtain ⟨entries, _, h⟩ := Option.bind_eq_some_iff.mp h
  obtain ⟨draft, hdraft, h⟩ := Option.bind_eq_some_iff.mp h
  cases h
  have hinv : ∀ converters ∈ draft.kindlegen, converters.InText := by
    refine foldEntries?_invariant (fun draft : Draft => ∀ converters ∈ draft.kindlegen, converters.InText) ?_ (by nofun)
      hdraft
    intro draft name tree next hinv hadd
    unfold Draft.add? at hadd
    split at hadd
    -- only the entry for the converters writes that place
    case h_2 =>
      obtain ⟨filled, hfill, hadd⟩ := Option.bind_eq_some_iff.mp hadd
      cases hadd
      obtain ⟨hread, _⟩ := fill?_eq_some hfill
      rintro converters rfl
      exact Converters.inText_of_ofTree? hread
    case h_5 =>
      cases hadd
      exact hinv
    all_goals
      obtain ⟨filled, _, hadd⟩ := Option.bind_eq_some_iff.mp hadd
      cases hadd
      exact hinv
  cases hkindlegen : draft.kindlegen with
  | none => exact .usual
  | some converters => exact hinv converters hkindlegen

/-- The seconds of tools that were read have 64 bits. -/
theorem small_of_ofTree? {tree : Tree} {tools : Tools} (h : ofTree? tree = some tools) :
    ∀ n ∈ tools.timeout, n < Nat.pow 2 64 := by
  obtain ⟨entries, _, h⟩ := Option.bind_eq_some_iff.mp h
  obtain ⟨draft, hdraft, h⟩ := Option.bind_eq_some_iff.mp h
  cases h
  have hinv : ∀ timeout ∈ draft.timeout, ∀ n ∈ timeout, n < Nat.pow 2 64 := by
    refine foldEntries?_invariant
      (fun draft : Draft => ∀ timeout ∈ draft.timeout, ∀ n ∈ timeout, n < Nat.pow 2 64) ?_ (by nofun) hdraft
    intro draft name tree next hinv hadd
    unfold Draft.add? at hadd
    split at hadd
    -- only the entry for the seconds writes that place
    case h_4 =>
      obtain ⟨filled, hfill, hadd⟩ := Option.bind_eq_some_iff.mp hadd
      cases hadd
      obtain ⟨hseconds, _⟩ := fill?_eq_some hfill
      rintro timeout rfl n rfl
      exact small_of_seconds? hseconds
    case h_5 =>
      cases hadd
      exact hinv
    all_goals
      obtain ⟨filled, _, hadd⟩ := Option.bind_eq_some_iff.mp hadd
      cases hadd
      exact hinv
  intro n hn
  exact hinv _ (Option.join_eq_some_iff.mp hn) n rfl

end Tools

/-! ## Books -/

namespace Book

/-- What an entry can do to what is known about a book. -/
theorem Draft.add?_cases {draft next : Draft} {name : String} {tree : Tree}
    (h : draft.add? name tree = some next) :
    (∀ chapters ∈ next.chapters, chapters ∈ draft.chapters ∨
      ∃ trees : List Tree, trees.mapM Chapter.ofTree? = some chapters) ∧
    (∀ tools ∈ next.tools, tools ∈ draft.tools ∨ Tools.ofTree? tree = some tools) ∧
    (next.metadata = draft.metadata ∨ ∃ value, Value.ofTree? false tree = some value ∧
      next.metadata = Dict.insert name value draft.metadata) := by
  unfold Draft.add? at h
  split at h
  case h_3 =>
    obtain ⟨filled, hfill, h⟩ := Option.bind_eq_some_iff.mp h
    cases h
    obtain ⟨hchapters, _⟩ := fill?_eq_some hfill
    refine ⟨?_, fun _ => .inl, .inl rfl⟩
    rintro chapters rfl
    obtain ⟨trees, _, htrees⟩ := Option.bind_eq_some_iff.mp hchapters
    exact .inr ⟨trees, htrees⟩
  case h_6 =>
    obtain ⟨filled, hfill, h⟩ := Option.bind_eq_some_iff.mp h
    cases h
    obtain ⟨htools, _⟩ := fill?_eq_some hfill
    refine ⟨fun _ => .inl, ?_, .inl rfl⟩
    rintro tools rfl
    exact .inr htools
  case h_7 =>
    obtain ⟨value, hvalue, h⟩ := Option.bind_eq_some_iff.mp h
    cases h
    exact ⟨fun _ => .inl, fun _ => .inl, .inr ⟨value, hvalue, rfl⟩⟩
  all_goals
    obtain ⟨filled, _, h⟩ := Option.bind_eq_some_iff.mp h
    cases h
    exact ⟨fun _ => .inl, fun _ => .inl, .inl rfl⟩

/-- What is known so far can be held. -/
structure Draft.Proper (draft : Draft) : Prop where
  free : FreeEntries draft.metadata
  chapters : ∀ chapters ∈ draft.chapters, ∀ chapter ∈ chapters, FreeEntries chapter.extra
  seconds : ∀ tools ∈ draft.tools, ∀ n ∈ tools.timeout, n < Nat.pow 2 64
  converters : ∀ tools ∈ draft.tools, tools.kindlegen.InText

theorem Draft.proper_start : ({} : Draft).Proper where
  free := .nil
  chapters := by
    intro chapters hmem
    cases hmem
  seconds := by
    intro tools hmem
    cases hmem
  converters := by
    intro tools hmem
    cases hmem

/-- Every entry keeps what is known such that it can be held. -/
theorem Draft.proper_add? {draft next : Draft} {name : String} {tree : Tree} (h : draft.Proper)
    (hadd : draft.add? name tree = some next) : next.Proper := by
  obtain ⟨hchapters, htools, hmetadata⟩ := Draft.add?_cases hadd
  refine ⟨?_, ?_, ?_, ?_⟩
  · rcases hmetadata with hsame | ⟨value, hvalue, hinsert⟩
    · rw [hsame]
      exact h.free
    · rw [hinsert]
      exact h.free.insert name (Yaml.proper_of_ofTree? tree hvalue)
  · intro chapters hmem
    rcases hchapters chapters hmem with hmem | ⟨trees, htrees⟩
    · exact h.chapters chapters hmem
    · intro chapter hchapter
      obtain ⟨tree, _, hread⟩ := exists_of_mapM htrees chapter hchapter
      exact Chapter.free_of_ofTree? hread
  · intro tools hmem
    rcases htools tools hmem with hmem | hread
    · exact h.seconds tools hmem
    · exact Tools.small_of_ofTree? hread
  · intro tools hmem
    rcases htools tools hmem with hmem | hread
    · exact h.converters tools hmem
    · exact Tools.inText_of_ofTree? hread

/-- **What is read can be held.** -/
theorem proper_of_ofTree? {fresh : String} {tree : Tree} {book : Book} (h : ofTree? fresh tree = some book) :
    book.Proper := by
  obtain ⟨entries, _, h⟩ := Option.bind_eq_some_iff.mp h
  obtain ⟨draft, hdraft, h⟩ := Option.bind_eq_some_iff.mp h
  obtain ⟨title, _, h⟩ := Option.bind_eq_some_iff.mp h
  obtain ⟨author, _, h⟩ := Option.bind_eq_some_iff.mp h
  cases h
  have proper : draft.Proper :=
    foldEntries?_invariant Draft.Proper (fun _ _ _ _ => Draft.proper_add?) Draft.proper_start hdraft
  have hchapters : ∀ chapter ∈ draft.chapters.getD [], FreeEntries chapter.extra := by
    intro chapter hmem
    cases hchapters : draft.chapters with
    | none =>
      rw [hchapters] at hmem
      cases hmem
    | some chapters =>
      rw [hchapters] at hmem
      exact proper.chapters chapters hchapters chapter hmem
  refine ⟨proper.free, hchapters, ?_, ?_⟩
  · intro n hn
    cases htools : draft.tools with
    | none =>
      rw [htools] at hn
      cases hn
    | some tools =>
      rw [htools] at hn
      exact proper.seconds tools htools n hn
  · cases htools : draft.tools with
    | none => exact .usual
    | some tools => exact proper.converters tools htools

/-- **A configuration that was read can be written and read again.** -/
theorem reloads {fresh : String} {tree : Tree} {book : Book} (h : ofTree? fresh tree = some book)
    (plain : book.Plain) {written : Tree} (hwritten : Written book.toYaml written) (again : String) :
    ∃ back : Book, ofTree? again written = some back ∧ back.Same book :=
  ⟨_, ofTree?_written (proper_of_ofTree? h) plain hwritten again, same_written book⟩

end Book

end Bindery
