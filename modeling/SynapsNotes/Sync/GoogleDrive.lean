import SynapsNotes.Backup.Payload
import SynapsNotes.Foundation.Text

/-!
# Google Drive

The files of an account are kept by Google Drive, which is no part of this
code: a `GoogleDrive` is the service behind `DriveAPIClient`, with states of its
own, and `Documented` what the devices rely on. A search finds a folder if there
is one, what is made has an id that nothing has had, a listing has a page of what
is in the folder, the newest first, and a download is what was uploaded.
-/

namespace SynapsNotes.Sync

open Backup

variable {J : Type}

/-! ## Requests -/

/-- The calls of `DriveAPIClient` that reach the files of the account. -/
inductive Request (J : Type)
  | findFolderId
  | createFolder
  | listBackups (folderId : String)
  | listFiles (folderId : String)
  | uploadResumable (folderId : String) (fileName : Text) (archive : Archive J)
  | downloadFile (fileId : String)

def Request.isCreateFolder : Request J → Bool
  | createFolder => true
  | _ => false

theorem Request.eq_createFolder {request : Request J} (h : request.isCreateFolder = true) :
    request = .createFolder := by
  cases request with
  | createFolder => rfl
  | _ => cases h

inductive Reply (J : Type)
  | folderFound (id : Option String)
  | folderCreated (id : String)
  | listed (ids : List String)
  | uploaded (id : String)
  | downloaded (archive : Archive J)

/-! ## The service -/

structure RemoteFile (J : Type) where
  id : String
  name : Text
  folderId : String
  archive : Archive J

/-- The folders named "Synaps Notes", and the files, the newest first. -/
structure Contents (J : Type) where
  folders : List String
  files : List (RemoteFile J)

def backupPrefix : Text := "synapsnotes-backup-".toList

namespace Contents

variable (s : Contents J)

def inFolder (folderId : String) : List (RemoteFile J) := s.files.filter fun f => f.folderId = folderId

def backups (folderId : String) : List (RemoteFile J) :=
  s.files.filter fun f => f.folderId = folderId ∧ backupPrefix <+: f.name

end Contents

/-- What is documented of a request that is served: the contents after it, and
the reply. -/
inductive Serves (s : Contents J) : Request J → Contents J → Reply J → Prop
  | findFolderId_none (h : s.folders = []) : Serves s .findFolderId s (.folderFound none)
  | findFolderId {id : String} (h : id ∈ s.folders) : Serves s .findFolderId s (.folderFound (some id))
  | createFolder {id : String} (h : id ∉ s.folders) :
    Serves s .createFolder { s with folders := s.folders ++ [id] } (.folderCreated id)
  | listBackups {folderId : String} {ids : List String} (h : ids <+: (s.backups folderId).map RemoteFile.id) :
    Serves s (.listBackups folderId) s (.listed ids)
  | listFiles {folderId : String} {ids : List String} (h : ids <+: (s.inFolder folderId).map RemoteFile.id) :
    Serves s (.listFiles folderId) s (.listed ids)
  | uploadResumable {id : String} (folderId : String) (name : Text) (archive : Archive J)
    (h : id ∉ s.files.map RemoteFile.id) :
    Serves s (.uploadResumable folderId name archive) { s with files := ⟨id, name, folderId, archive⟩ :: s.files }
      (.uploaded id)
  | downloadFile {f : RemoteFile J} (h : f ∈ s.files) : Serves s (.downloadFile f.id) s (.downloaded f.archive)

structure GoogleDrive (J : Type) where
  State : Type
  /-- What the service is free in, such as the id of what is made. -/
  Choice : Type
  /-- An account that no device has connected to. -/
  opened : State
  /-- A request served, if it is. -/
  serve : State → Choice → Request J → Option (State × Reply J)
  contents : State → Contents J

/-- What the documentation says of the service. -/
structure GoogleDrive.Documented (g : GoogleDrive J) : Prop where
  opened : g.contents g.opened = ⟨[], []⟩
  serves : ∀ {s choice request s' reply}, g.serve s choice request = some (s', reply) →
    Serves (g.contents s) request (g.contents s') reply

namespace Serves

variable {s s' : Contents J} {request : Request J} {reply : Reply J}

theorem folders_subset (h : Serves s request s' reply) : s.folders ⊆ s'.folders := by
  cases h with
  | createFolder _ => exact List.subset_append_left _ _
  | _ => exact List.Subset.refl _

theorem folders_of_createFolder (h : Serves s .createFolder s' reply) : s'.folders.length = s.folders.length + 1 := by
  cases h
  exact List.length_append

theorem folders_of_ne_createFolder (h : Serves s request s' reply) (hne : request ≠ .createFolder) :
    s'.folders = s.folders := by
  cases h with
  | createFolder _ => exact absurd rfl hne
  | _ => rfl

/-- The folder that a reply names is there. -/
theorem mem_folders (h : Serves s request s' reply) {id : String}
    (hid : reply = .folderFound (some id) ∨ reply = .folderCreated id) : id ∈ s'.folders := by
  cases h with
  | findFolderId h =>
    rcases hid with hid | hid <;> cases hid
    exact h
  | createFolder h =>
    rcases hid with hid | hid <;> cases hid
    exact List.mem_append_right _ (List.mem_singleton_self _)
  | _ => rcases hid with hid | hid <;> cases hid

theorem files_subset (h : Serves s request s' reply) : s.files ⊆ s'.files := by
  cases h with
  | uploadResumable _ _ _ _ => exact List.subset_cons_self _ _
  | _ => exact List.Subset.refl _

/-- A file was there, or it is uploaded. -/
theorem mem_files (h : Serves s request s' reply) {f : RemoteFile J} (hf : f ∈ s'.files) :
    f ∈ s.files ∨ request = .uploadResumable f.folderId f.name f.archive := by
  cases h with
  | uploadResumable folderId name archive _ =>
    rcases List.mem_cons.mp hf with rfl | hf
    · exact .inr rfl
    · exact .inl hf
  | _ => exact .inl hf

/-- What is uploaded is there. -/
theorem exists_uploaded {folderId : String} {name : Text} {archive : Archive J}
    (h : Serves s (.uploadResumable folderId name archive) s' reply) :
    ∃ f ∈ s'.files, f.folderId = folderId ∧ f.name = name ∧ f.archive = archive := by
  cases h
  exact ⟨_, List.mem_cons_self, rfl, rfl, rfl⟩

/-- What is downloaded was there. -/
theorem exists_downloaded {archive : Archive J} (h : Serves s request s' (.downloaded archive)) :
    ∃ f ∈ s.files, f.archive = archive := by
  cases h with
  | downloadFile hf => exact ⟨_, hf, rfl⟩

end Serves

/-! ## A service -/

/-- `id` is the folder that a search finds first, or the id of what is made. -/
def Contents.serve (s : Contents J) (id : String) : Request J → Option (Contents J × Reply J)
  | .findFolderId =>
    if s.folders = [] then some (s, .folderFound none)
    else if id ∈ s.folders then some (s, .folderFound (some id)) else none
  | .createFolder =>
    if id ∈ s.folders then none else some ({ s with folders := s.folders ++ [id] }, .folderCreated id)
  | .listBackups folderId => some (s, .listed ((s.backups folderId).map RemoteFile.id))
  | .listFiles folderId => some (s, .listed ((s.inFolder folderId).map RemoteFile.id))
  | .uploadResumable folderId fileName archive =>
    if id ∈ s.files.map RemoteFile.id then none
    else some ({ s with files := ⟨id, fileName, folderId, archive⟩ :: s.files }, .uploaded id)
  | .downloadFile fileId => (s.files.find? fun f => f.id = fileId).map fun f => (s, .downloaded f.archive)

theorem Contents.serves {s s' : Contents J} {id : String} {request : Request J} {reply : Reply J}
    (h : s.serve id request = some (s', reply)) : Serves s request s' reply := by
  cases request with
  | findFolderId =>
    simp only [Contents.serve] at h
    split at h
    · rename_i hnone
      obtain ⟨rfl, rfl⟩ := Prod.mk.inj (Option.some.inj h)
      exact .findFolderId_none hnone
    · split at h
      · rename_i hid
        obtain ⟨rfl, rfl⟩ := Prod.mk.inj (Option.some.inj h)
        exact .findFolderId hid
      · exact nomatch h
  | createFolder =>
    simp only [Contents.serve] at h
    split at h
    · exact nomatch h
    · rename_i hid
      obtain ⟨rfl, rfl⟩ := Prod.mk.inj (Option.some.inj h)
      exact .createFolder hid
  | listBackups folderId =>
    obtain ⟨rfl, rfl⟩ := Prod.mk.inj (Option.some.inj h)
    exact .listBackups List.prefix_rfl
  | listFiles folderId =>
    obtain ⟨rfl, rfl⟩ := Prod.mk.inj (Option.some.inj h)
    exact .listFiles List.prefix_rfl
  | uploadResumable folderId name archive =>
    simp only [Contents.serve] at h
    split at h
    · exact nomatch h
    · rename_i hid
      obtain ⟨rfl, rfl⟩ := Prod.mk.inj (Option.some.inj h)
      exact .uploadResumable folderId name archive hid
  | downloadFile fileId =>
    obtain ⟨f, hf, heq⟩ := Option.map_eq_some_iff.mp h
    obtain ⟨rfl, rfl⟩ := Prod.mk.inj heq
    have hid := List.find?_some hf
    obtain rfl := of_decide_eq_true hid
    exact .downloadFile (List.mem_of_find?_eq_some hf)

/-- A service that is its contents. -/
abbrev plainDrive (J : Type) : GoogleDrive J where
  State := Contents J
  Choice := String
  opened := ⟨[], []⟩
  serve := Contents.serve
  contents s := s

theorem documented_plainDrive (J : Type) : (plainDrive J).Documented where
  opened := rfl
  serves := Contents.serves

end SynapsNotes.Sync
