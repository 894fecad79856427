import SynapsNotes.Backup.Extraction
import SynapsNotes.Backup.Payload
import SynapsNotes.Framework.FileTree

/-!
# Archives

Archives are made and unpacked by ZIPFoundation, which is no part of this
code: a `ZIPFoundation` is its calls, as backups make them, and `Documented`
what they rely on. An entry that is added is found in the archive behind those
that were there, with its path and its contents, one that cannot be added
leaves the archive with the entries it had, and an entry is extracted to a place
where there is nothing.
-/

namespace SynapsNotes.Backup

open Framework

/-- The files of a device with their contents, by their places. -/
abbrev Disk (J : Type) := FileTree Text J

/-- The calls of ZIPFoundation. What a call on an archive or a disk leaves is
given also where it throws. -/
structure ZIPFoundation (J : Type) where
  Archive : Type
  Entry : Type
  /-- `Archive(url:accessMode:)`, for an archive that is created. -/
  create : Option Archive
  addEntry : Archive → Text → J → Archive × Except BackupError Unit
  /-- What an iteration over the archive yields. -/
  entries : Archive → List Entry
  path : Entry → Text
  contents : Entry → J
  /-- `extract`, where there are these directories. -/
  extract : (List Text → Bool) → Entry → FileURL → Disk J → Disk J × Except BackupError Unit

namespace ZIPFoundation

variable {J : Type} (z : ZIPFoundation J)

/-- The entries of an archive, by their paths and contents. -/
def listing (archive : z.Archive) : List (Text × J) := (z.entries archive).map fun e => (z.path e, z.contents e)

/-- What the documentation says of the calls. -/
structure Documented : Prop where
  create : ∀ archive ∈ z.create, z.entries archive = []
  adds : ∀ archive path x, (z.addEntry archive path x).2 = .ok () →
    z.listing (z.addEntry archive path x).1 = z.listing archive ++ [(path, x)]
  keeps : ∀ archive path x e, (z.addEntry archive path x).2 = .error e →
    z.listing (z.addEntry archive path x).1 = z.listing archive
  extracts : ∀ isDirectory e dest disk after, isDirectory (FileURL.place dest) = false →
    FileTree.add disk (FileURL.place dest, z.contents e) = some after →
    z.extract isDirectory e dest disk = (after, .ok ())

/-- The archive has an entry with the path. -/
def Has (archive : z.Archive) (path : Text) : Prop := path ∈ (z.listing archive).map Prod.fst

instance (archive : z.Archive) (path : Text) : Decidable (z.Has archive path) :=
  inferInstanceAs (Decidable (_ ∈ _))

variable {z}

theorem Documented.listing_create (hz : z.Documented) {archive : z.Archive} (h : z.create = some archive) :
    z.listing archive = [] := by
  rw [listing, hz.create archive h, List.map_nil]

/-- Files added one after the other, where one that fails is passed over. -/
theorem Documented.listing_foldl (hz : z.Documented) {ι : Type} (path : ι → Text) (contents : ι → J) (files : List ι)
    (archive : z.Archive) : ∃ kept : List ι, kept.Sublist files ∧
      z.listing (files.foldl (fun archive f => (z.addEntry archive (path f) (contents f)).1) archive) =
        z.listing archive ++ kept.map fun f => (path f, contents f) := by
  induction files generalizing archive with
  | nil => exact ⟨[], .refl _, (List.append_nil _).symm⟩
  | cons f files ih =>
    obtain ⟨kept, hsub, hlisting⟩ := ih (z.addEntry archive (path f) (contents f)).1
    rw [List.foldl_cons, hlisting]
    cases h : (z.addEntry archive (path f) (contents f)).2 with
    | ok =>
      refine ⟨f :: kept, hsub.cons_cons f, ?_⟩
      rw [hz.adds archive _ _ h, List.map_cons, List.append_assoc]
      rfl
    | error e =>
      refine ⟨kept, hsub.cons f, ?_⟩
      rw [hz.keeps archive _ _ e h]

end ZIPFoundation

/-- An archive that is the list of its entries, and takes every one. -/
def listedArchives (J : Type) : ZIPFoundation J where
  Archive := List (Text × J)
  Entry := Text × J
  create := some []
  addEntry archive path x := (archive ++ [(path, x)], .ok ())
  entries archive := archive
  path := Prod.fst
  contents := Prod.snd
  extract isDirectory e dest disk :=
    if isDirectory dest.place then (disk, .error (.thrown "extract"))
    else
      match disk.add (dest.place, e.2) with
      | none => (disk, .error (.thrown "extract"))
      | some after => (after, .ok ())

theorem documented_listedArchives (J : Type) : (listedArchives J).Documented where
  create := by
    rintro archive ⟨⟩
    rfl
  adds archive path x _ := List.map_append
  keeps archive path x e h := nomatch h
  extracts isDirectory e dest disk after hnew hadd := by
    have hadd : FileTree.add disk (FileURL.place dest, e.2) = some after := hadd
    simp [listedArchives, hnew, hadd]

end SynapsNotes.Backup
