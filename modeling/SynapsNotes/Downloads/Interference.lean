import SynapsNotes.Downloads.Completed
import SynapsNotes.Downloads.Custom

/-!
# Items that share a file

The file operations of the download manager, on a disk with places of any kind
(`locate`): two paths may lead to one of them. Whatever the manager does to
files is one of them (`step_files_perform`), and each reaches the files of its
own item and no others (`perform_of_not_owned`).

Items are told apart by their ids, files by directory and name. So what is
done with one item leaves another one as it was exactly when the two share
no file (`untouched_iff`), and the form for custom items lets a user share
one.
-/

namespace SynapsNotes.Downloads

open Framework ModelStorage Manager

/-- A file operation, with what may fail of it: `delete`, and those of the
callback for a finished file. -/
inductive FileOperation
  | delete (item : ModelCatalogItem) (failsPrimary failsAuxiliary : Bool)
  | clear (desc : Descriptor) (fails : Bool)
  | move (desc : Descriptor) (location : Bytes) (fails : Bool)
  | discard (desc : Descriptor) (fails : Bool)

namespace FileOperation

/-- The operation is made for the item: it deletes it, or downloads one of its
files. -/
def IsFor (P : Platform) (item : ModelCatalogItem) : FileOperation → Prop
  | .delete item' _ _ => item' = item
  | .clear desc _ | .move desc _ _ | .discard desc _ =>
    makePrimaryDescriptor P item = some desc ∨ makeAuxiliaryDescriptor P item = some desc

variable (P : Platform) {L : Type*} [DecidableEq L] (locate : ModelPath → L)

/-- What an operation makes of the files at all places of the disk. -/
def perform (disk : L → Option Bytes) : FileOperation → L → Option Bytes
  | .delete item failsPrimary failsAuxiliary =>
    if (disk (locate (fileURL P item))).isSome && failsPrimary then disk
    else
      let disk := Function.update disk (locate (fileURL P item)) none
      match auxiliaryFileURL P item with
      | none => disk
      | some auxURL =>
        if (disk (locate auxURL)).isSome && failsAuxiliary then disk else Function.update disk (locate auxURL) none
  | .clear desc fails | .discard desc fails =>
    if fails then disk else Function.update disk (locate (desc.destURL P)) none
  | .move desc location fails =>
    if fails || (disk (locate (desc.destURL P))).isSome then disk
    else Function.update disk (locate (desc.destURL P)) (some location)

end FileOperation

open FileOperation

/-! ## What the manager does to files -/

section Manager

variable {P : Platform} {m m' : Manager}

theorem delete_eq_perform (item : ModelCatalogItem) (failsPrimary failsAuxiliary : Bool) (files : Files) :
    (delete P item failsPrimary failsAuxiliary files).1 =
      perform P id files (.delete item failsPrimary failsAuxiliary) := by
  simp only [perform, id, ModelStorage.delete]
  split
  · rfl
  · cases auxiliaryFileURL P item with
    | none => rfl
    | some auxURL =>
      exact apply_ite Prod.fst ..

/-- An operation of the callback for a finished file. -/
theorem stepFinish_eq_perform (outcome : Outcome) (f : Finishing) :
    (m.stepFinish P outcome f).files = m.files ∨
      (m.stepFinish P outcome f).files = perform P id m.files (.clear f.descriptor outcome.fails) ∨
      (m.stepFinish P outcome f).files = perform P id m.files (.move f.descriptor f.location outcome.fails) ∨
      (m.stepFinish P outcome f).files = perform P id m.files (.discard f.descriptor outcome.fails) := by
  unfold stepFinish
  split <;> dsimp only
  · -- clearing
    right; left
    simp only [perform, id]
    split <;> rfl
  · -- moving
    right; right; left
    simp only [perform, id]
    split <;> rfl
  · -- checking
    left
    split <;> rfl
  · -- hashing
    left
    split <;> rfl
  · -- discarding
    right; right; right
    simp only [perform, id]
    exact fail_files _ _
  · -- verified
    exact Or.inl rfl
  · -- following
    left
    repeat' split
    all_goals simp only [setState_files, enqueueDownload_files]

/-- A step of the manager leaves the files, or is one file operation: of the
item that is deleted, or of the callback under way. -/
theorem step_files_perform {a : Action} (h : (machine P).step m a = some m') :
    m'.files = m.files ∨
    (∃ item failsPrimary failsAuxiliary keeps, a = .deleteDownloaded item failsPrimary failsAuxiliary keeps ∧
      m'.files = perform P id m.files (.delete item failsPrimary failsAuxiliary)) ∨
    (∃ f ∈ m.callback, ∃ fails, m'.files = perform P id m.files (.clear f.descriptor fails) ∨
      m'.files = perform P id m.files (.move f.descriptor f.location fails) ∨
      m'.files = perform P id m.files (.discard f.descriptor fails)) := by
  obtain ⟨-, hfiles⟩ | ⟨item, failsPrimary, failsAuxiliary, keeps, rfl, hfiles⟩ | ⟨outcome, f, -, hf, hfiles⟩ :=
    step_files_cases h
  · exact Or.inl hfiles
  · rw [delete_eq_perform] at hfiles
    exact Or.inr (Or.inl ⟨item, failsPrimary, failsAuxiliary, keeps, rfl, hfiles⟩)
  · rw [hfiles]
    exact (stepFinish_eq_perform outcome f).imp_right fun h => Or.inr ⟨f, hf, outcome.fails, h⟩

end Manager

/-! ## Other items -/

section Disk

variable {P : Platform} {L : Type*} [DecidableEq L] {locate : ModelPath → L} {item item' : ModelCatalogItem}

/-- The files that `ModelStorage` sees. -/
def filesOn (locate : ModelPath → L) (disk : L → Option Bytes) : Files := fun url => disk (locate url)

/-- A file of the one is a file of the other. -/
def Shares (P : Platform) (locate : ModelPath → L) (item item' : ModelCatalogItem) : Prop :=
  ∃ url url', Owns P item url ∧ Owns P item' url' ∧ locate url = locate url'

/-- The item exists as before, and its files have the content they had. -/
structure Untouched (P : Platform) (locate : ModelPath → L) (item : ModelCatalogItem) (disk disk' : L → Option Bytes) :
    Prop where
  exists_eq : exists_ P (filesOn locate disk') item = exists_ P (filesOn locate disk) item
  content_eq : ∀ url, Owns P item url → filesOn locate disk' url = filesOn locate disk url

/-- An operation reaches the files of its item at most. -/
theorem perform_of_not_owned {op : FileOperation} (h : op.IsFor P item) {place : L}
    (hplace : ∀ url, Owns P item url → place ≠ locate url) (disk : L → Option Bytes) :
    perform P locate disk op place = disk place := by
  have hupdate {url : ModelPath} (hurl : Owns P item url) (disk : L → Option Bytes) (content : Option Bytes) :
      Function.update disk (locate url) content place = disk place :=
    Function.update_of_ne (hplace url hurl) _ _
  cases op with
  | delete item failsPrimary failsAuxiliary =>
    cases h
    simp only [perform]
    split
    · rfl
    cases haux : auxiliaryFileURL P item with
    | none => exact hupdate (Or.inl rfl) _ _
    | some auxURL =>
      dsimp only
      split
      · exact hupdate (Or.inl rfl) _ _
      · exact (hupdate (Or.inr haux.symm) _ _).trans (hupdate (Or.inl rfl) _ _)
  | clear desc fails =>
    simp only [perform]
    split
    · rfl
    · exact hupdate (owns_destURL h).2 _ _
  | move desc location fails =>
    simp only [perform]
    split
    · rfl
    · exact hupdate (owns_destURL h).2 _ _
  | discard desc fails =>
    simp only [perform]
    split
    · rfl
    · exact hupdate (owns_destURL h).2 _ _

/-- A deletion without failures leaves no file of the item. -/
theorem perform_delete {url : ModelPath} (hurl : Owns P item url) (disk : L → Option Bytes) :
    perform P locate disk (.delete item false false) (locate url) = none := by
  simp only [perform, Bool.and_false, Bool.false_eq_true, if_false]
  rcases hurl with rfl | haux
  · cases auxiliaryFileURL P item with
    | none => exact Function.update_self ..
    | some auxURL =>
      dsimp only
      rw [Function.update_apply]
      split
      · rfl
      · exact Function.update_self ..
  · rw [← haux]
    exact Function.update_self ..

/-- What is done with an item leaves another one as it was, on every disk,
exactly if the two share no file. -/
theorem untouched_iff_not_shares :
    (∀ op : FileOperation, op.IsFor P item → ∀ disk, Untouched P locate item' disk (perform P locate disk op)) ↔
      ¬ Shares P locate item item' := by
  constructor
  · rintro h ⟨url, url', hurl, hurl', hplace⟩
    have hfull := (h (.delete item false false) rfl fun _ => some []).content_eq url' hurl'
    have hgone : perform P locate (fun _ => some []) (.delete item false false) (locate url) = none :=
      perform_delete hurl _
    rw [hplace] at hgone
    cases hgone.symm.trans hfull
  · intro h op hop disk
    have hcontent (url' : ModelPath) (hurl' : Owns P item' url') :
        filesOn locate (perform P locate disk op) url' = filesOn locate disk url' :=
      perform_of_not_owned hop (fun url hurl hplace => h ⟨url, url', hurl, hurl', hplace.symm⟩) disk
    exact ⟨exists_congr hcontent, hcontent⟩

/-- In every catalog of built-in items and of custom items that the form let
through, and however paths are resolved: what is done with the files of one
item leaves an item with another id as it was, whether it exists and the
content of its files, exactly if the two share no file. -/
theorem untouched_iff (P : Platform) (locate : ModelPath → L) (builtin : List ModelCatalogItem)
    (edits : List CustomModelStore.Edit) :
    ∀ id id' item item', id ≠ id' →
      (ModelCatalogStore.items builtin (CustomModelStore.items P edits)).lookup id = some item →
      (ModelCatalogStore.items builtin (CustomModelStore.items P edits)).lookup id' = some item' →
      ((∀ op : FileOperation, op.IsFor P item → ∀ disk, Untouched P locate item' disk (perform P locate disk op)) ↔
        ¬ Shares P locate item item') :=
  fun _ _ _ _ _ _ _ => untouched_iff_not_shares

end Disk

/-- A built-in model. -/
def builtinItem : ModelCatalogItem :=
  { id := "lfm2-1.2b-q4-k-m", kind := .chat, name := "LFM2 1.2B", filename := "LFM2-1.2B-Q4_K_M.gguf",
    auxiliaryFilename := none, auxiliaryURL := none, auxiliarySha256 := none,
    url := "https://huggingface.co/unsloth/LFM2-1.2B-GGUF/resolve/main/LFM2-1.2B-Q4_K_M.gguf?download=true",
    sha256 := none }

/-- The same file added by hand, under the id that the form suggests for it. -/
def sameFile : AddCustomModelSheet :=
  { kind := .chat, name := "LFM2", url := builtinItem.url,
    filename := "LFM2-1.2B-Q4_K_M.gguf", id := "LFM2-1.2B-Q4-K-M", sha256 := "" }

/-- Another file of the kind. -/
def otherFile : AddCustomModelSheet :=
  { kind := .chat, name := "TinyLlama",
    url := "https://huggingface.co/ggml-org/models/resolve/main/tinyllama-1.1b/ggml-model-f16.gguf",
    filename := "ggml-model-f16.gguf", id := "ggml-model-f16", sha256 := "" }

/-- A custom item with a file of its own does not touch the built-in one. -/
theorem untouched_otherFile :
    otherFile.canSave digests = true ∧
      ∀ op : FileOperation, op.IsFor digests otherFile.item → ∀ disk : Files,
        Untouched digests id builtinItem disk (perform digests id disk op) := by
  refine ⟨by decide, (untouched_iff digests id [builtinItem] [.add otherFile] "ggml-model-f16" "lfm2-1.2b-q4-k-m"
    otherFile.item builtinItem (by decide) (by decide) (by decide)).mpr ?_⟩
  rintro ⟨url, url', hurl | hurl, hurl' | hurl', he⟩
  · cases hurl
    cases hurl'
    exact absurd he (by decide)
  · cases hurl'
  · cases hurl
  · cases hurl

/-- The form adds an item with another id and the file of a built-in one; and
deleting it, the built-in model is gone. -/
theorem deleting_sameFile_uninstalls :
    let catalog := ModelCatalogStore.items [builtinItem] (CustomModelStore.items digests [.add sameFile])
    let disk : Files := fun url => if url = fileURL digests builtinItem then some (smallModel 3) else none
    sameFile.canSave digests = true ∧
      catalog.lookup "LFM2-1.2B-Q4-K-M" = some sameFile.item ∧ catalog.lookup "lfm2-1.2b-q4-k-m" = some builtinItem ∧
      exists_ digests (filesOn id disk) builtinItem = true ∧
      exists_ digests (filesOn id (perform digests id disk (.delete sameFile.item false false))) builtinItem = false := by
  decide +kernel

end SynapsNotes.Downloads
