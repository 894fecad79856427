import SynapsNotes.Downloads.Manager

/-!
# What is installed and what was to be downloaded

The callback for a finished file moves it to its final name before it checks
it. Until a bad file has been removed, and for ever if the app crashes first
or the removal fails, `exists` judges it by its name and its first bytes
alone.

`genuine_iff` is the exact condition, from an empty place on: an item that
exists has its SHA-256 throughout a run if and only if no step of the run
moves bytes into place that make it exist without it.
-/

namespace SynapsNotes.Downloads

open Framework ModelStorage Manager

variable (P : Platform) (item : ModelCatalogItem)

/-- The bytes have the item's SHA-256, if it is set. -/
def HasSHA256 (content : Bytes) : Prop :=
  ∀ sha256 ∈ item.sha256, sha256 ≠ "" → P.lowercased (P.sha256 content) = P.lowercased sha256

instance (content : Bytes) : Decidable (HasSHA256 P item content) :=
  inferInstanceAs (Decidable (∀ sha256 ∈ item.sha256, sha256 ≠ "" →
    P.lowercased (P.sha256 content) = P.lowercased sha256))

/-- The item's file, if it passes for a model file, has the item's SHA-256. -/
def PrimaryGenuine (files : Files) : Prop :=
  ∀ content ∈ files (fileURL P item), P.isValidContent item.filename content = true → HasSHA256 P item content

instance (files : Files) : Decidable (PrimaryGenuine P item files) :=
  inferInstanceAs (Decidable (∀ content ∈ files (fileURL P item),
    P.isValidContent item.filename content = true → HasSHA256 P item content))

/-- The item exists only if its file has its SHA-256. -/
def Genuine (m : Manager) : Prop :=
  exists_ P m.files item = true → ∃ content ∈ m.files (fileURL P item), HasSHA256 P item content

instance : DecidablePred (Genuine P item) := fun m =>
  decidable_of_iff (exists_ P m.files item = true → (m.files (fileURL P item)).any fun c => decide (HasSHA256 P item c))
    (by simp only [Genuine, Option.any_eq_true, decide_eq_true_eq]; rfl)

/-! ## The condition -/

/-- What a step moves into place: the file's name and its bytes. -/
def delivered (m : Manager) : Action → Option (ModelPath × Bytes)
  | .stepFinish outcome => m.callback.bind fun f =>
    if f.at_ = .moving ∧ outcome.fails = false ∧ m.files (f.descriptor.destURL P) = none then
      some ((f.descriptor.destURL P), f.location)
    else none
  | _ => none

/-- Bytes moved to the item's name have its SHA-256, or do not pass for a
model file, or the auxiliary file is missing or invalid; bytes moved to its
auxiliary name do not pass for a model file, or the item's own file is
genuine. -/
def SafeMove (files : Files) (url : ModelPath) (content : Bytes) : Prop :=
  if url = fileURL P item then
    HasSHA256 P item content ∨ P.isValidContent item.filename content = false ∨
      auxiliaryExists P (Function.update files url (some content)) item = false
  else if some url = auxiliaryFileURL P item then
    P.isValidContent (item.auxiliaryFilename.getD "") content = false ∨ PrimaryGenuine P item files
  else True

instance (files : Files) (url : ModelPath) (content : Bytes) : Decidable (SafeMove P item files url content) :=
  inferInstanceAs (Decidable (if url = fileURL P item then _ ∨ _ ∨ _ else if some url = auxiliaryFileURL P item then
    _ ∨ PrimaryGenuine P item files else True))

def Safe (m : Manager) (a : Action) : Prop := ∀ d ∈ delivered P m a, SafeMove P item m.files d.1 d.2

instance (m : Manager) (a : Action) : Decidable (Safe P item m a) :=
  inferInstanceAs (Decidable (∀ d ∈ delivered P m a, SafeMove P item m.files d.1 d.2))

/-! ## The files after a step -/

variable {P item} {m m' : Manager}

theorem deleteDownloaded_files (item : ModelCatalogItem) (failsPrimary failsAuxiliary : Bool)
    (keeps : String → Bool) : (m.deleteDownloaded P item failsPrimary failsAuxiliary keeps).files =
      (ModelStorage.delete P item failsPrimary failsAuxiliary m.files).1 := by
  simp only [deleteDownloaded]
  split <;> rfl

/-- The operations of the callback that move nothing into place. -/
theorem stepFinish_files {outcome : Outcome} {f : Finishing}
    (h : ¬ (f.at_ = .moving ∧ outcome.fails = false ∧ m.files (f.descriptor.destURL P) = none)) :
    SomeOf (m.stepFinish P outcome f).files m.files := by
  unfold stepFinish
  split <;> dsimp only
  · -- clearing
    split
    · exact SomeOf.refl _
    · exact SomeOf.remove _ _
  · -- moving, which fails here
    rename_i hat
    split
    · exact SomeOf.refl _
    · rename_i hmoves
      refine absurd ⟨hat, ?_⟩ h
      simpa using hmoves
  · -- checking
    split <;> exact SomeOf.refl _
  · -- hashing
    split <;> exact SomeOf.refl _
  · -- discarding
    rw [fail_files]
    split
    · exact SomeOf.refl _
    · exact SomeOf.remove _ _
  · -- verified
    exact SomeOf.refl _
  · -- following
    repeat' split
    all_goals exact SomeOf.of_eq (by simp only [setState_files, enqueueDownload_files])

/-- The move. -/
theorem stepFinish_moving {outcome : Outcome} {f : Finishing} (hat : f.at_ = .moving) (hfails : outcome.fails = false)
    (hdest : m.files (f.descriptor.destURL P) = none) :
    (m.stepFinish P outcome f).files = Function.update m.files (f.descriptor.destURL P) (some f.location) := by
  simp only [stepFinish, hat, hfails, hdest, Option.isSome_none, Bool.or_self, if_false, Bool.false_eq_true]
  rfl

/-- What a step can do to files: nothing, a deletion, or an operation of the
callback under way. -/
theorem step_files_cases {a : Action} (h : (machine P).step m a = some m') :
    ((∀ outcome, a ≠ .stepFinish outcome) ∧ m'.files = m.files) ∨
    (∃ item failsPrimary failsAuxiliary keeps, a = .deleteDownloaded item failsPrimary failsAuxiliary keeps ∧
      m'.files = (ModelStorage.delete P item failsPrimary failsAuxiliary m.files).1) ∨
    (∃ outcome f, a = .stepFinish outcome ∧ m.callback = some f ∧ m'.files = (m.stepFinish P outcome f).files) := by
  cases a with
  | startDownload item =>
    cases h
    exact Or.inl ⟨by simp, startDownload_files item⟩
  | cancelDownload modelId =>
    cases h
    exact Or.inl ⟨by simp, rfl⟩
  | deleteDownloaded item failsPrimary failsAuxiliary keeps =>
    cases h
    exact Or.inr (Or.inl ⟨item, failsPrimary, failsAuxiliary, keeps, rfl, deleteDownloaded_files item _ _ _⟩)
  | restorePendingTasks =>
    cases h
    exact Or.inl ⟨by simp, rfl⟩
  | runUpdate i =>
    obtain ⟨u, -, rfl⟩ := step_runUpdate h
    exact Or.inl ⟨by simp, rfl⟩
  | cancelled i resumeData fails =>
    obtain ⟨t, -, -, rfl⟩ := step_cancelled h
    exact Or.inl ⟨by simp, cancelled_files t resumeData fails⟩
  | didWriteData i written expected =>
    obtain ⟨-, t, -, rfl⟩ := step_didWriteData h
    exact Or.inl ⟨by simp, didWriteData_files t written expected⟩
  | didFinish i statusCode location fails =>
    obtain ⟨-, t, -, rfl⟩ := step_didFinish h
    exact Or.inl ⟨by simp, didFinish_files t statusCode location fails⟩
  | stepFinish outcome =>
    obtain ⟨f, hf, rfl⟩ := step_stepFinish h
    exact Or.inr (Or.inr ⟨outcome, f, rfl, hf, rfl⟩)
  | didComplete i isCancelled localizedDescription =>
    obtain ⟨-, t, -, rfl⟩ := step_didComplete h
    exact Or.inl ⟨by simp, didComplete_files t isCancelled localizedDescription⟩
  | crash redelivers =>
    cases h
    exact Or.inl ⟨by simp, rfl⟩

theorem delivered_of_ne {a : Action} (h : ∀ outcome, a ≠ .stepFinish outcome) : delivered P m a = none := by
  cases a with
  | stepFinish outcome => exact absurd rfl (h outcome)
  | _ => rfl

/-- A step moves bytes into place, or removes files at most. -/
theorem step_files {a : Action} (h : (machine P).step m a = some m') :
    (∃ url content, delivered P m a = some (url, content) ∧ m'.files = Function.update m.files url (some content)) ∨
      delivered P m a = none ∧ SomeOf m'.files m.files := by
  obtain ⟨hne, hfiles⟩ | ⟨item, failsPrimary, failsAuxiliary, keeps, rfl, hfiles⟩ | ⟨outcome, f, rfl, hf, hfiles⟩ :=
    step_files_cases h
  · exact Or.inr ⟨delivered_of_ne hne, SomeOf.of_eq hfiles⟩
  · refine Or.inr ⟨rfl, ?_⟩
    rw [hfiles]
    exact SomeOf.delete P item failsPrimary failsAuxiliary m.files
  · by_cases hmove : f.at_ = .moving ∧ outcome.fails = false ∧ m.files (f.descriptor.destURL P) = none
    · refine Or.inl ⟨(f.descriptor.destURL P), f.location, ?_, ?_⟩
      · rw [delivered, hf]
        exact if_pos hmove
      · rw [hfiles, stepFinish_moving hmove.1 hmove.2.1 hmove.2.2]
    · refine Or.inr ⟨?_, ?_⟩
      · rw [delivered, hf]
        exact if_neg hmove
      · rw [hfiles]
        exact stepFinish_files hmove

/-! ## One step -/

theorem exists_iff {files : Files} : exists_ P files item = true ↔
    isValidModelFile P files (fileURL P item) item.filename = true ∧ auxiliaryExists P files item = true := by
  unfold exists_
  cases isValidModelFile P files (fileURL P item) item.filename <;> simp

theorem isValidModelFile_iff {files : Files} {url : ModelPath} {filename : String} :
    isValidModelFile P files url filename = true ↔
      ∃ content ∈ files url, P.isValidContent filename content = true := by
  unfold isValidModelFile
  cases h : files url with
  | none => simp
  | some content => simp

/-- Where an item exists, being genuine is a matter of its own file. -/
theorem genuine_iff_primaryGenuine :
    Genuine P item m ↔ (exists_ P m.files item = true → PrimaryGenuine P item m.files) := by
  refine forall_congr' fun hex => ?_
  obtain ⟨content, hc, hv⟩ := isValidModelFile_iff.mp (exists_iff.mp hex).1
  constructor
  · rintro ⟨content', hc', hsha⟩ content'' hc'' -
    cases Option.mem_unique hc' hc''
    exact hsha
  · intro h
    exact ⟨content, hc, h content hc hv⟩

/-- Removing files makes no item exist. -/
theorem exists_of_someOf {files files' : Files} (h : SomeOf files' files) (hex : exists_ P files' item = true) :
    exists_ P files item = true := by
  obtain ⟨hprimary, hauxiliary⟩ := exists_iff.mp hex
  refine exists_iff.mpr ⟨h.isValidModelFile hprimary, ?_⟩
  unfold auxiliaryExists at hauxiliary ⊢
  split at hauxiliary
  · rfl
  · exact h.isValidModelFile hauxiliary

theorem Genuine.of_someOf (hm : Genuine P item m) (h : SomeOf m'.files m.files) : Genuine P item m' := by
  rw [genuine_iff_primaryGenuine] at hm ⊢
  intro hex content hc
  exact hm (exists_of_someOf h hex) content (h.eq_some hc)

/-- Bytes moved to the item's own name. -/
theorem genuine_move_primary {content : Bytes}
    (h : m'.files = Function.update m.files (fileURL P item) (some content)) :
    Genuine P item m' ↔ HasSHA256 P item content ∨ P.isValidContent item.filename content = false ∨
      auxiliaryExists P (Function.update m.files (fileURL P item) (some content)) item = false := by
  have hfile : m'.files (fileURL P item) = some content := by
    rw [h]
    exact Function.update_self _ _ _
  have hex : exists_ P m'.files item = true ↔
      P.isValidContent item.filename content = true ∧ auxiliaryExists P m'.files item = true := by
    rw [exists_iff, isValidModelFile_iff, hfile]
    simp only [Option.mem_def, Option.some.injEq, exists_eq_left']
  rw [← h]
  unfold Genuine
  rw [hex, hfile]
  simp only [Option.mem_def, Option.some.injEq, exists_eq_left', ← Bool.not_eq_true]
  by_cases hsha : HasSHA256 P item content
  · simp only [hsha, true_or, implies_true]
  · simp only [hsha, false_or, imp_false, not_and_or]

/-- Bytes moved to the item's auxiliary name. -/
theorem genuine_move_auxiliary {url : ModelPath} {content : Bytes} (hne : url ≠ fileURL P item)
    (haux : some url = auxiliaryFileURL P item) (h : m'.files = Function.update m.files url (some content)) :
    Genuine P item m' ↔
      P.isValidContent (item.auxiliaryFilename.getD "") content = false ∨ PrimaryGenuine P item m.files := by
  have hfile : m'.files (fileURL P item) = m.files (fileURL P item) := by
    rw [h]
    exact Function.update_of_ne hne.symm _ _
  have hvalid : auxiliaryExists P m'.files item = P.isValidContent (item.auxiliaryFilename.getD "") content := by
    unfold auxiliaryExists
    rw [← haux]
    simp only [isValidModelFile, h, Function.update_self]
  have hgenuine : PrimaryGenuine P item m'.files ↔ PrimaryGenuine P item m.files := by
    unfold PrimaryGenuine
    rw [hfile]
  rw [genuine_iff_primaryGenuine, exists_iff, hvalid, hgenuine]
  constructor
  · intro h'
    by_cases hg : PrimaryGenuine P item m.files
    · exact Or.inr hg
    · left
      rw [Bool.eq_false_iff]
      intro hv
      refine hg fun content' hc' hv' => ?_
      have hprimary : isValidModelFile P m'.files (fileURL P item) item.filename = true :=
        isValidModelFile_iff.mpr ⟨content', by rw [hfile]; exact hc', hv'⟩
      exact h' ⟨hprimary, hv⟩ content' hc' hv'
  · rintro (hv | hg) ⟨-, hv'⟩
    · exact nomatch hv.symm.trans hv'
    · exact hg

/-- Bytes moved elsewhere. -/
theorem genuine_move_other {url : ModelPath} {content : Bytes} (hm : Genuine P item m) (hne : url ≠ fileURL P item)
    (haux : some url ≠ auxiliaryFileURL P item) (h : m'.files = Function.update m.files url (some content)) :
    Genuine P item m' := by
  have hfile : m'.files (fileURL P item) = m.files (fileURL P item) := by
    rw [h]
    exact Function.update_of_ne hne.symm _ _
  have hvalid : auxiliaryExists P m'.files item = auxiliaryExists P m.files item := by
    unfold auxiliaryExists
    split
    · rfl
    · rename_i auxURL hauxURL
      have hne' : auxURL ≠ url := fun he => haux (by rw [hauxURL, he])
      simp only [isValidModelFile, h, Function.update_of_ne hne']
  intro hex
  rw [hfile]
  apply hm
  rw [exists_iff] at hex ⊢
  rw [← hvalid]
  exact ⟨by simpa only [isValidModelFile, hfile] using hex.1, hex.2⟩

/-- A step keeps the item genuine exactly if what it moves into place does. -/
theorem genuine_step_iff {a : Action} (hm : Genuine P item m) (h : (machine P).step m a = some m') :
    Genuine P item m' ↔ Safe P item m a := by
  rcases step_files h with ⟨url, content, hd, hfiles⟩ | ⟨hd, hfiles⟩
  · have hsafe : Safe P item m a ↔ SafeMove P item m.files url content := by
      unfold Safe
      rw [hd]
      simp only [Option.mem_def, Option.some.injEq, forall_eq']
    rw [hsafe]
    unfold SafeMove
    by_cases hurl : url = fileURL P item
    · subst hurl
      rw [if_pos rfl]
      exact genuine_move_primary hfiles
    · rw [if_neg hurl]
      by_cases haux : some url = auxiliaryFileURL P item
      · rw [if_pos haux]
        exact genuine_move_auxiliary hurl haux hfiles
      · rw [if_neg haux]
        exact iff_of_true (genuine_move_other hm hurl haux hfiles) trivial
  · refine iff_of_true (hm.of_someOf hfiles) ?_
    unfold Safe
    rw [hd]
    exact fun _ hd' => nomatch hd'

/-! ## Runs -/

/-- From a state without the item's file on, whatever is started, cancelled
and deleted, wherever the app crashes and whichever file operations fail: an
item that exists has its SHA-256 at all times if and only if every step is
safe. -/
theorem genuine_iff (item : ModelCatalogItem) (h₀ : m.files (fileURL P item) = none) (as : List Action) :
    (machine P).Always (Genuine P item) m as ↔ (machine P).Meets (Safe P item) m as := by
  have hm : Genuine P item m := by
    intro hex
    obtain ⟨content, hc, -⟩ := isValidModelFile_iff.mp (exists_iff.mp hex).1
    exact nomatch h₀.symm.trans hc
  exact Machine.always_iff_meets (fun _ => id) (fun _ _ _ h hok hstep => (genuine_step_iff h hstep).mpr hok)
    (fun _ _ _ h hstep h' => (genuine_step_iff h hstep).mp h') hm as

/-- "GGUF" and a version. -/
def smallModel (version : UInt8) : Bytes := [0x47, 0x47, 0x55, 0x46, version]

/-- The digests of two small models. -/
def digests : Platform where
  lowercased s := String.ofList (s.toList.map Char.toLower)
  sha256 content :=
    if content = smallModel 3 then "fe3b34fd092c3e2c6da3270eb91c4d3e9c2c6f891c21b6ed7358bf5ecca2d207"
    else "3fd256937486cc2108461eef35711d542a4064fe2a70f630c6360b1980f5c91c"
  isURL s := s ≠ ""
  locate := id

/-- A model whose digest is known. -/
def smallItem : ModelCatalogItem :=
  { id := "small", kind := .chat, name := "Small", filename := "small.gguf", auxiliaryFilename := none,
    auxiliaryURL := none, auxiliarySha256 := none, url := "small.gguf",
    sha256 := some (digests.sha256 (smallModel 3)) }

def nothingDownloaded : Manager :=
  { files := fun _ => none, resumeData := fun _ => none, tasks := [], callback := none,
    states := fun _ => .notStarted, updates := [] }

/-- A download of the item, up to the move. -/
def downloadTo (content : Bytes) : List Action :=
  [.startDownload smallItem, .didFinish 0 (some 200) content false, .stepFinish ⟨false, ""⟩, .stepFinish ⟨false, ""⟩]

/-- The right file is delivered. -/
theorem genuine_nothingDownloaded : (machine digests).Always (Genuine digests smallItem) nothingDownloaded
    (downloadTo (smallModel 3) ++ [.stepFinish ⟨false, ""⟩, .stepFinish ⟨false, ""⟩, .stepFinish ⟨false, ""⟩,
      .stepFinish ⟨false, ""⟩]) :=
  (genuine_iff smallItem rfl _).mpr (by decide +kernel)

/-- Another model is delivered, and the app crashes once it has been moved:
it stays, and exists. -/
theorem not_genuine_nothingDownloaded : ¬ (machine digests).Always (Genuine digests smallItem) nothingDownloaded
    (downloadTo (smallModel 2) ++ [.crash false]) :=
  Machine.not_always_of_run (by decide +kernel)

end SynapsNotes.Downloads
