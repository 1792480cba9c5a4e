import Bindery.Proofs.Build.Packing

/-!
# `Proofs.Build.ArchiveContent` — the entries of an archive

An archive is made in the directory that it holds, so that it is part of the tree that is gone through. It
does not get into itself, and whether there was a file in its place before makes no difference. Without a type there
is no archive, and nothing has changed.

The names of files are bytes, and those of entries are texts. Files whose names are no UTF-8 are in the archive like
all others, but their entries can have the same name, and one that does not belong where it is.

**Contents.**
* `pack_missing`, `pack_without_type` — how packing ends without a type;
* `pack_content`, and `pack_content_latin`, where the entries are not in the order of their names.
-/

namespace Bindery.Build

open Files (Entry Content)

variable {files files' : Files} {dir : Path} {base : Location} {name : Raw}

/-! ## Packing -/

theorem isName_mimetype : Path.IsName mimetype := by decide

/-- There is nothing where a path leads. -/
def Missing (files : Files) (path : Path) : Prop :=
  files.spot true path = .error .notFound ∨ ∃ location, files.spot true path = .ok (.absent location)

theorem read_missing {path : Path} (h : Missing files path) : files.read path = .error .notFound := by
  unfold Files.read
  rcases h with h | ⟨location, h⟩
  · rw [h]
    rfl
  · rw [h]
    rfl

theorem pack_missing (h : Missing files (dir.join ⟨mimetype⟩)) (archive : Path) :
    (pack dir archive).run files = (.error (.missingSource (dir.join ⟨mimetype⟩)), files) := by
  rw [pack_run, read_missing h]
  rfl

/-- Without a file for the type nothing is done. It is missing then, unless its path is too long to tell. -/
theorem pack_without_type (hleads : files.Leads dir base) (husable : Files.Usable dir)
    (hnone : files.find? (base ++ [(mimetype : Raw)]) = none) (archive : Path) :
    (pack dir archive).run files = (.error (.missingSource (dir.join ⟨mimetype⟩)), files) ∨
      Files.longestPath < (dir.join ⟨mimetype⟩).raw.size ∧
        (pack dir archive).run files =
          (.error (.files .reading (dir.join ⟨mimetype⟩) .nameTooLong), files) := by
  have hname : Path.IsName mimetype := by decide
  rcases hleads.inside_absent husable hname (by decide) (by decide) hnone with habsent | ⟨hlong, hfault⟩
  · exact .inl (pack_missing (.inr ⟨_, habsent⟩) archive)
  · refine .inr ⟨hlong, ?_⟩
    have hread : files.read (dir.join ⟨mimetype⟩) = .error .nameTooLong := by
      unfold Files.read
      rw [hfault]
      rfl
    rw [pack_run, hread]
    rfl

/-- **The content of an archive.** An archive that is made of a directory, right inside it, begins with the
type, as it is. All files follow that are below the directory, wherever they are, but for the type itself, the
archive and those that are ignored; each is there once, deflated, with its bytes, under the names that lead
to it, as they are shown, with slashes between them, and they are in the order of the bytes of these names. An
entry is called like its file if the names are texts, and no two are called the same if all are. There are no
directories and no links. Nothing but the archive has changed. If the type is missing, that is the fault, and
nothing has changed at all. -/
theorem pack_content (hproper : files.Proper) (hdir : files.spot true dir = .ok (.present base .dir))
    (hname : Path.IsName name) (hplain : ∀ target, files.find? (base ++ [name]) ≠ some (.link target)) :
    (∀ files', (pack dir (dir.join ⟨name⟩)).run files = (.ok (), files') →
      ∃ type executable listed, files.read (dir.join ⟨mimetype⟩) = .ok type ∧
        Complete (files.view base) name listed ∧
        files'.find? (base ++ [name]) = some (.file (.archive
          (⟨mimetype, true, type.toBytes⟩ :: listed.map fun (names, content) =>
            ⟨"/".intercalate (names.map Raw.text), false, content.toBytes⟩)) executable) ∧
        ∀ location, location ≠ base ++ [name] → files'.find? location = files.find? location) ∧
    (Missing files (dir.join ⟨mimetype⟩) →
      (pack dir (dir.join ⟨name⟩)).run files = (.error (.missingSource (dir.join ⟨mimetype⟩)), files)) ∧
    (files.find? (base ++ [(mimetype : Raw)]) = none →
      (pack dir (dir.join ⟨name⟩)).run files = (.error (.missingSource (dir.join ⟨mimetype⟩)), files) ∨
        Files.longestPath < (dir.join ⟨mimetype⟩).raw.size ∧
          (pack dir (dir.join ⟨name⟩)).run files =
            (.error (.files .reading (dir.join ⟨mimetype⟩) .nameTooLong), files)) := by
  have hleads := Files.leads_of_spot hdir
  refine ⟨?_, ?_, ?_⟩
  · intro files' h
    rw [pack_run] at h
    split at h
    · next type hread =>
      -- the type is in the directory, which is one then
      obtain ⟨spot, hspot, htype⟩ := bind_eq_ok.mp hread
      have hbase : files.find? base = some .dir := by
        cases spot with
        | absent location => cases htype
        | present location entry =>
          obtain ⟨entry, hthere⟩ :=
            Option.ne_none_iff_exists'.mp (hleads.inside_there isName_mimetype hspot)
          exact hproper.closed _ _ _ hthere
      obtain ⟨⟨listed, hcomplete, harchive⟩, hkept⟩ := run_packAs hproper hleads hbase hname hplain h
      exact ⟨type, _, listed, hread, hcomplete, harchive, hkept⟩
    · cases (Work.run_fail h).1
    · cases (Work.run_fail h).1
  · intro hmissing
    exact pack_missing hmissing _
  · intro hnone
    exact pack_without_type hleads (Files.usable_of_walkFor hdir) hnone _

/-- A book on a shelf, and what else is with it. -/
def parcel (more : Dict Location Entry) : Files where
  home := ["shelf"]
  entries := (["shelf"], .dir) :: (["shelf", "book"], .dir) :: more

/-- The archive of the year before is still there. -/
def parcelImages : Dict Location Entry :=
  [(["shelf", "book", "book.epub"], .file (.ofText "old") false),
   (["shelf", "book", "img"], .dir),
   (["shelf", "book", "img", "mimetype"], .file (.ofText "m") false),
   (["shelf", "book", "img", "x.DS_Store"], .file (.ofText "x") false),
   (["shelf", "book", "img-a"], .file (.ofText "a") true),
   (["shelf", "book", "last"], .link ⟨"img-a"⟩)]

/-- What says that it is a book. -/
def parcelType : Dict Location Entry :=
  [(["shelf", "book", "mimetype"], .file (.ofText "book") false)]

/-- The book is packed with its images, and without its type nothing is done. -/
theorem pack_content_parcel :
    (∃ files' executable, ∃ listed : List (List Raw × Content),
      (pack ⟨"book"⟩ (Path.join ⟨"book"⟩ ⟨"book.epub"⟩)).run (parcel (parcelImages ++ parcelType)) =
        (.ok (), files') ∧
      files'.find? ["shelf", "book", "book.epub"] = some (.file (.archive
        (⟨mimetype, true, "book".toUTF8⟩ :: listed.map fun (names, content) =>
          ⟨"/".intercalate (names.map Raw.text), false, content.toBytes⟩)) executable) ∧
      ((["img", "mimetype"], .ofText "m") : List Raw × Content) ∈ listed ∧
      ((["img-a"], .ofText "a") : List Raw × Content) ∈ listed ∧
      ((["img", "x.DS_Store"], .ofText "x") : List Raw × Content) ∉ listed) ∧
    (pack ⟨"book"⟩ (Path.join ⟨"book"⟩ ⟨"book.epub"⟩)).run (parcel parcelImages) =
      (.error (.missingSource ⟨"book/mimetype"⟩), parcel parcelImages) := by
  have hname : Path.IsName "book.epub" := by decide
  constructor
  · have hproper : (parcel (parcelImages ++ parcelType)).Proper :=
      .of_entries (by unfold Dict.Sorted; decide +kernel) (by decide +kernel) (by decide +kernel)
    have hdir : (parcel (parcelImages ++ parcelType)).spot true ⟨"book"⟩ =
        .ok (.present ["shelf", "book"] .dir) := by decide +kernel
    have hread : (parcel (parcelImages ++ parcelType)).read (Path.join ⟨"book"⟩ ⟨mimetype⟩) =
        .ok (.ofText "book") := by decide +kernel
    have hold : (parcel (parcelImages ++ parcelType)).find? ["shelf", "book", "book.epub"] =
        some (.file (.ofText "old") false) := by decide +kernel
    have hok : ((pack ⟨"book"⟩ (Path.join ⟨"book"⟩ ⟨"book.epub"⟩)).run
        (parcel (parcelImages ++ parcelType))).1 = .ok () := by decide +kernel
    rcases hrun : (pack ⟨"book"⟩ (Path.join ⟨"book"⟩ ⟨"book.epub"⟩)).run
      (parcel (parcelImages ++ parcelType)) with ⟨outcome, files'⟩
    rw [hrun] at hok
    subst hok
    obtain ⟨type, executable, listed, htype, hcomplete, harchive, -⟩ :=
      (pack_content hproper hdir hname (fun _ hlink => nomatch hold.symm.trans hlink)).1 files' hrun
    rw [hread, Except.ok.injEq] at htype
    subst htype
    refine ⟨files', executable, listed, rfl, harchive, (hcomplete.mem_iff _ _).mpr ?_,
      (hcomplete.mem_iff _ _).mpr ?_, fun hmem => ?_⟩
    · exact ⟨by decide, ⟨false, by decide +kernel⟩, by decide, by decide, by simp; decide⟩
    · exact ⟨by decide, ⟨true, by decide +kernel⟩, by decide, by decide, by simp; decide⟩
    · exact ((hcomplete.mem_iff _ _).mp hmem).not_ignored _ rfl (by decide)
  · have hproper : (parcel parcelImages).Proper :=
      .of_entries (by unfold Dict.Sorted; decide +kernel) (by decide +kernel) (by decide +kernel)
    have hdir : (parcel parcelImages).spot true ⟨"book"⟩ = .ok (.present ["shelf", "book"] .dir) := by
      decide +kernel
    have hold : (parcel parcelImages).find? ["shelf", "book", "book.epub"] =
        some (.file (.ofText "old") false) := by decide +kernel
    have hmissing : Missing (parcel parcelImages) (Path.join ⟨"book"⟩ ⟨mimetype⟩) :=
      .inr ⟨["shelf", "book", "mimetype"], by decide +kernel⟩
    exact (pack_content hproper hdir hname (fun _ hlink => nomatch hold.symm.trans hlink)).2.1 hmissing

/-- A book with two files that have names in another encoding, and one with a name in UTF-8. -/
def parcelLatin : Files :=
  parcel [
    (["shelf", "book", "mimetype"], .file (.ofText "book") false),
    (["shelf", "book", ⟨[0x80]⟩], .file (.ofText "first") false),
    (["shelf", "book", "é"], .file (.ofText "second") false),
    (["shelf", "book", ⟨[0xFE]⟩], .file (.ofText "third") false)]

/-- The entries of an archive do not need to be called like the files, to be called different from each other, or to
be in the order of what they are called. The files are right in the directory here, and there is no entry for the
one byte that is the name of the first. -/
theorem pack_content_latin :
    parcelLatin.Proper ∧ ∃ (files' : Files) (entries : List Files.Packed),
      (pack ⟨"book"⟩ (Path.join ⟨"book"⟩ ⟨"book.epub"⟩)).run parcelLatin = (.ok (), files') ∧
      files'.find? ["shelf", "book", "book.epub"] =
        some (.file (.archive (⟨mimetype, true, "book".toUTF8⟩ :: entries)) false) ∧
      Listed (parcelLatin.view ["shelf", "book"]) "book.epub" [⟨[0x80]⟩] (.ofText "first") ∧
      (∀ entry ∈ entries, Raw.ofText entry.name ≠ (Path.ofNames [⟨[0x80]⟩]).raw) ∧
      ¬(entries.map fun entry => entry.name).Nodup ∧
      ¬entries.Pairwise fun left right => (Raw.ofText left.name).bytes < (Raw.ofText right.name).bytes := by
  constructor
  · exact .of_entries (by unfold Dict.Sorted; decide +kernel) (by decide +kernel) (by decide +kernel)
  · refine ⟨((pack ⟨"book"⟩ (Path.join ⟨"book"⟩ ⟨"book.epub"⟩)).run parcelLatin).2,
      [⟨"\uFFFD", false, "first".toUTF8⟩, ⟨"é", false, "second".toUTF8⟩, ⟨"\uFFFD", false, "third".toUTF8⟩],
      Prod.ext (by decide +kernel) rfl, by decide +kernel, ?_, by decide +kernel, by decide +kernel,
      by decide +kernel⟩
    exact ⟨by decide, ⟨false, by decide +kernel⟩, by decide, by decide, by simp; decide⟩

end Bindery.Build
