import Mathlib.Data.List.Infix
import Mathlib.Logic.Function.Basic
import SynapsNotes.Data.Catalog

/-!
# The files of the models

`ModelStorage`: where the files of a catalog item are, and when the item
counts as installed. A path is the item's kind, which names the directory, and
the file name; several paths may lead to one file (`..` in a file name, links),
so the disk is a function from places to contents, and a place is one path for
all that lead to it (`Platform.locate`).
-/

namespace SynapsNotes.Downloads

abbrev Bytes := List UInt8

structure ModelPath where
  kind : ModelKind
  filename : String
  deriving DecidableEq

/-- What the code calls and does not contain: `lowercased`, the SHA-256 of
some bytes in hexadecimal, which strings are URLs, and the place of a path on
the disk. -/
structure Platform where
  lowercased : String → String
  sha256 : Bytes → String
  isURL : String → Bool
  locate : ModelPath → ModelPath

abbrev Files := ModelPath → Option Bytes

/-- `isGGUFFile`, of a file that can be read: it starts with "GGUF". -/
def isGGUFFile (content : Bytes) : Bool := content.take 4 == [0x47, 0x47, 0x55, 0x46]

/-- `filename.lowercased().hasSuffix(".gguf")`. -/
def Platform.isGGUFName (P : Platform) (filename : String) : Bool :=
  ".gguf".toList.isSuffixOf (P.lowercased filename).toList

/-- Bytes that pass for a model file of the given name. -/
def Platform.isValidContent (P : Platform) (filename : String) (content : Bytes) : Bool :=
  if P.isGGUFName filename then isGGUFFile content else true

/-- Whether an optional string is there and not empty. -/
def isGiven (s : Option String) : Bool := s.any fun s => s ≠ ""

def verifySHA256IfNeeded (P : Platform) (content : Bytes) (expected : Option String) : Bool :=
  match expected with
  | none => true
  | some expected => if expected = "" then true else P.lowercased (P.sha256 content) == P.lowercased expected

namespace ModelStorage

def fileURL (P : Platform) (item : ModelCatalogItem) : ModelPath := P.locate ⟨item.kind, item.filename⟩

def auxiliaryFileURL (P : Platform) (item : ModelCatalogItem) : Option ModelPath :=
  match item.auxiliaryFilename with
  | none => none
  | some auxiliary => if auxiliary = "" then none else some (P.locate ⟨item.kind, auxiliary⟩)

def isValidModelFile (P : Platform) (files : Files) (url : ModelPath) (filename : String) : Bool :=
  match files url with
  | none => false
  | some content => P.isValidContent filename content

/-- Whether the auxiliary file, if the item has one, is there and valid. -/
def auxiliaryExists (P : Platform) (files : Files) (item : ModelCatalogItem) : Bool :=
  match auxiliaryFileURL P item with
  | none => true
  | some auxURL => isValidModelFile P files auxURL (item.auxiliaryFilename.getD "")

/-- `exists`. -/
def exists_ (P : Platform) (files : Files) (item : ModelCatalogItem) : Bool :=
  if !isValidModelFile P files (fileURL P item) item.filename then false else auxiliaryExists P files item

/-- `removeItem` where there is a file. -/
def remove (files : Files) (url : ModelPath) : Files := Function.update files url none

/-- `delete`, and whether it has thrown: the removal of either file may
fail. -/
def delete (P : Platform) (item : ModelCatalogItem) (failsPrimary failsAuxiliary : Bool) (files : Files) :
    Files × Bool :=
  if (files (fileURL P item)).isSome && failsPrimary then (files, true)
  else
    let files := remove files (fileURL P item)
    match auxiliaryFileURL P item with
    | none => (files, false)
    | some auxURL =>
      if (files auxURL).isSome && failsAuxiliary then (files, true) else (remove files auxURL, false)

end ModelStorage

/-! ## Removing files -/

/-- The files `files'` are some of the files `files`. -/
def SomeOf (files' files : Files) : Prop := ∀ url, files' url = files url ∨ files' url = none

namespace SomeOf

variable {files files' files'' : Files}

theorem refl (files : Files) : SomeOf files files := fun _ => Or.inl rfl

theorem of_eq (h : files' = files) : SomeOf files' files := fun url => Or.inl (congrFun h url)

theorem trans (h : SomeOf files'' files') (h' : SomeOf files' files) : SomeOf files'' files := by
  intro url
  rcases h url with h | h
  · rw [h]
    exact h' url
  · exact Or.inr h

theorem remove (files : Files) (url : ModelPath) : SomeOf (ModelStorage.remove files url) files := by
  intro url'
  by_cases h : url' = url
  · subst h
    exact Or.inr (Function.update_self _ _ _)
  · exact Or.inl (Function.update_of_ne h _ _)

theorem delete (P : Platform) (item : ModelCatalogItem) (failsPrimary failsAuxiliary : Bool) (files : Files) :
    SomeOf (ModelStorage.delete P item failsPrimary failsAuxiliary files).1 files := by
  simp only [ModelStorage.delete]
  split
  · exact refl files
  · split
    · exact remove files _
    · split
      · exact remove files _
      · exact (remove _ _).trans (remove files _)

/-- A file that is left has the content it had. -/
theorem eq_some {url : ModelPath} {content : Bytes} (h : SomeOf files' files) (hc : files' url = some content) :
    files url = some content := by
  rcases h url with h | h
  · rw [← h]
    exact hc
  · exact nomatch h.symm.trans hc

theorem isValidModelFile {P : Platform} {url : ModelPath} {filename : String} (h : SomeOf files' files)
    (hv : ModelStorage.isValidModelFile P files' url filename = true) :
    ModelStorage.isValidModelFile P files url filename = true := by
  unfold ModelStorage.isValidModelFile at hv ⊢
  split at hv
  · exact nomatch hv
  · rename_i content hc
    rw [h.eq_some hc]
    exact hv

end SomeOf

end SynapsNotes.Downloads
