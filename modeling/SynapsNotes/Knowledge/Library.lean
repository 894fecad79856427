import SynapsNotes.Framework.Transition
import SynapsNotes.Knowledge.Ingestion
import Mathlib.Data.Finset.Basic

/-!
# The knowledge base while it is used

Imports and deletions, on the directory of files and the store. An import is a
task: it waits for the OCR model, for a download, for the text of each file
and for the embedding of each chunk, and a document can be deleted whenever it
waits. There is one at most, since no other starts before it has ended.

An action is an input of the user, or the answer to what the task waits for.
-/

namespace SynapsNotes.Knowledge

open SynapsNotes.Runtime

structure DriveFile where
  id : String
  name : Option String
  mimeType : Option String
  deriving DecidableEq

/-- What an import is asked for. -/
inductive KnowledgeImport
  | files (urls : List SourceURL) (sourceType : KnowledgeSourceType) (driveFileId : Option String)
  | imageData (data : Bytes) (suggestedName : String)
  | driveFile (file : DriveFile)

/-- The guard of the three functions, the flag left out. -/
def KnowledgeImport.isGiven : KnowledgeImport → Bool
  | files urls _ _ => !urls.isEmpty
  | imageData data _ => !data.isEmpty
  | driveFile file => !file.id.isEmpty

/-- One file to be stored: a copy, or the data of an image. -/
inductive ImportSource
  | file (sourceURL : SourceURL) (sourceType : KnowledgeSourceType) (driveFileId preferredTitle : Option String)
  | image (suggestedName : SourceURL)

/-- What is imported after the file at hand. -/
structure ImportQueue where
  rest : List ImportSource
  preferOCRModel : Bool

/-- What the task that imports waits for. -/
inductive Stage
  | starting (request : KnowledgeImport)
  | preparing (request : KnowledgeImport)
  | downloading (file : DriveFile) (tempURL : SourceURL) (preferOCRModel : Bool)
  | storing (source : ImportSource) (queue : ImportQueue)
  | extracting (stored : StoredKnowledgeFile) (source : ImportSource) (queue : ImportQueue)
  | persisting (ingested : IngestedKnowledgeDocument) (queue : ImportQueue)
  /-- The chunk before `index` is being embedded, and `chunks` are still to be
  inserted. -/
  | embedding (document : KnowledgeDocument) (index : ℕ) (chunks : List ChunkedTextUnit) (queue : ImportQueue)
      (chunkId : UUID) (modelId contentHash : String)
  | finishing

structure Library (E : Type) where
  /-- The names in the directory `KnowledgeBase`. -/
  files : Finset String
  store : Store E
  nextId : UUID
  useModelOCRForImports : Bool
  isEmbeddingModelLoaded : Bool
  currentEmbeddingModelId : Option String
  isImportingKnowledge : Bool
  task : Option Stage

/-- What the task has waited for. -/
inductive Answer (E : Type)
  | begun
  | prepared (enabled : Bool)
  | downloaded (result : Except NSError Unit)
  | copied (result : Except NSError Unit)
  | extracted (file : FileAnswers)
  | returned (now : Date)
  | embedded (result : Except LlamaError E) (now : Date)
  | finished

inductive Action (E : Type)
  | importKnowledge (request : KnowledgeImport)
  | resume (answer : Answer E)
  /-- `removed`: the file system removes the file. -/
  | deleteKnowledgeDocument (document : KnowledgeDocument) (removed : Bool)
  | setUseModelOCRForImports (value : Bool)
  | setEmbeddingModel (isLoaded : Bool) (currentId : Option String)

namespace Library

variable {E : Type} (S : Services) (s : Library E)

/-! ## Sources -/

def driveExtensions : List (String × String) :=
  [("application/pdf", "pdf"), ("text/plain", "txt"), ("text/markdown", "md"), ("image/jpeg", "jpg"),
    ("image/png", "png"), ("image/webp", "webp"), ("image/heic", "heic")]

def resolvedDriveTempExtension (fileNameExtension : Text) (mimeType : Option String) : Text :=
  if !fileNameExtension.isEmpty then fileNameExtension
  else
    match (mimeType.bind S.preferredFilenameExtension).filter (!·.isEmpty) with
    | some preferred => preferred
    | none =>
      let normalizedMime := S.unicode.lowercased (mimeType.getD "").toList
      ((driveExtensions.lookup (String.ofList normalizedMime)).getD "bin").toList

def driveTempURL (id : UUID) (file : DriveFile) : SourceURL :=
  let ext := S.unicode.lowercased (S.fileURLWithPath (file.name.getD "drive-file")).pathExtension
  let suffix := resolvedDriveTempExtension S ext file.mimeType
  ⟨fileName S id suffix, suffix, S.uuidString id⟩

/-- `storeImportedFile` or `storeImageData`. -/
def storeSource (id : UUID) : ImportSource → StoredKnowledgeFile
  | .file sourceURL _ _ _ => storeImportedFile S id sourceURL
  | .image suggestedName => storeImageData S id suggestedName

/-- What becomes of a source once it is stored. -/
def ingestSource (choice : OCRChoice) (stored : StoredKnowledgeFile) (file : FileAnswers) :
    ImportSource → Except NSError IngestedKnowledgeDocument
  | .file sourceURL sourceType driveFileId preferredTitle =>
    let title := if stored.title.isEmpty then sourceURL.lastPathComponent else stored.title
    (ingestStored S choice stored title sourceType driveFileId file).map (withPreferredTitle preferredTitle)
  | .image _ => ingestStored S choice stored stored.title .photo none file

/-- Storing and extracting are the parts of `ingestLocalFile`. -/
theorem ingestLocalFile_eq (choice : OCRChoice) (id : UUID) (sourceURL : SourceURL)
    (sourceType : KnowledgeSourceType) (driveFileId preferredTitle : Option String) (copied : Except NSError Unit)
    (file : FileAnswers) :
    (ingestLocalFile S choice id sourceURL sourceType driveFileId copied file).map (withPreferredTitle preferredTitle) =
      copied.bind fun _ =>
        let source := .file sourceURL sourceType driveFileId preferredTitle
        ingestSource S choice (storeSource S id source) file source := by
  cases copied <;> rfl

/-- And those of `ingestImageData`. -/
theorem ingestImageData_eq (choice : OCRChoice) (id : UUID) (suggestedName : SourceURL)
    (written : Except NSError Unit) (file : FileAnswers) :
    ingestImageData S choice id suggestedName written file =
      written.bind fun _ =>
        ingestSource S choice (storeSource S id (.image suggestedName)) file (.image suggestedName) := by
  cases written <;> rfl

theorem map_eq_ok {ε α β : Type} {x : Except ε α} {f : α → β} {b : β} (h : x.map f = .ok b) :
    ∃ a, x = .ok a ∧ f a = b := by
  cases x with
  | error e => exact nomatch h
  | ok a => exact ⟨a, rfl, Except.ok.inj h⟩

variable {S} in
/-- A source keeps the name it is stored under. -/
theorem relativePath_of_ingestSource {choice : OCRChoice} {stored : StoredKnowledgeFile} {file : FileAnswers}
    {source : ImportSource} {ingested : IngestedKnowledgeDocument}
    (h : ingestSource S choice stored file source = .ok ingested) : ingested.relativePath = stored.relativePath := by
  cases source with
  | image suggestedName => exact relativePath_of_ingestStored h
  | file sourceURL sourceType driveFileId preferredTitle =>
    rw [ingestSource] at h
    obtain ⟨ingested', hi, rfl⟩ := map_eq_ok h
    rw [withPreferredTitle_relativePath]
    exact relativePath_of_ingestStored hi

/-! ## The task -/

/-- The end of the task. -/
def stop : Library E := { s with isImportingKnowledge := false, task := none }

/-- The next file, or the end of the import. -/
def nextSource (queue : ImportQueue) : Library E :=
  match queue.rest with
  | source :: rest => { s with task := some (.storing source { queue with rest }) }
  | [] => if s.useModelOCRForImports then { s with task := some .finishing } else s.stop

/-- The import once the OCR model is ready, or not needed. -/
def begin (request : KnowledgeImport) (preferOCRModel : Bool) : Library E :=
  match request with
  | .files urls sourceType driveFileId =>
    s.nextSource ⟨urls.map fun url => .file url sourceType driveFileId none, preferOCRModel⟩
  | .imageData _ suggestedName => s.nextSource ⟨[.image (S.fileURLWithPath suggestedName)], preferOCRModel⟩
  | .driveFile file =>
    { s with
      nextId := s.nextId + 1
      task := some (.downloading file (driveTempURL S s.nextId file) preferOCRModel) }

def insertDocument (document : KnowledgeDocument) : Library E :=
  { s with
    store := { s.store with documents := s.store.documents ++ [document] }
    nextId := s.nextId + 1 }

def insertChunk (chunk : KnowledgeChunk E) : Library E :=
  { s with
    store := { s.store with chunks := s.store.chunks ++ [chunk] }
    nextId := s.nextId + 1 }

/-- The loop over the chunks, up to the next embedding or to its end. -/
def insertChunks (now : Date) (document : KnowledgeDocument) (queue : ImportQueue) :
    Library E → ℕ → List ChunkedTextUnit → Library E
  | s, _, [] => s.nextSource queue
  | s, index, chunkData :: chunks =>
    let chunk := newKnowledgeChunk S s.nextId now document index chunkData
    let inserted := s.insertChunk chunk
    match s.isEmbeddingModelLoaded, s.currentEmbeddingModelId with
    | true, some modelId =>
      { inserted with
        task := some (.embedding document (index + 1) chunks queue chunk.id modelId (S.sha256 chunk.text)) }
    | _, _ => insertChunks now document queue inserted (index + 1) chunks

/-- The chunk as `indexSingleKnowledgeChunk` leaves it. -/
def indexedChunk (modelId contentHash : String) (embedding : E) (now : Date) (chunk : KnowledgeChunk E) :
    KnowledgeChunk E :=
  { chunk with
    embedding := some embedding
    embeddingModelId := some modelId
    embeddingUpdatedAt := some now
    embeddingContentHash := some contentHash
    tokenCount := some (tokenCountEstimate chunk.text)
    charCount := some chunk.text.length
    sectionHint := inferSectionHint chunk.text
    documentTitleNormalized :=
      some (normalizedForSearch S.unicode ((chunk.document.map KnowledgeDocument.title).getD ""))
    updatedAt := now }

/-- A chunk that has been deleted is not in the store any more. -/
def updateChunk (chunkId : UUID) (f : KnowledgeChunk E → KnowledgeChunk E) : Library E :=
  { s with
    store := { s.store with chunks := s.store.chunks.map fun chunk => if chunk.id = chunkId then f chunk else chunk } }

/-! ## Steps -/

/-- `importKnowledgeFiles`, `importKnowledgeImageData` and
`importKnowledgeDriveFile`. -/
def importKnowledge (request : KnowledgeImport) : Library E :=
  if request.isGiven && !s.isImportingKnowledge then
    { s with isImportingKnowledge := true, task := some (.starting request) }
  else s

/-- `deleteKnowledgeDocument`: the chunks of the document go with it. -/
def deleteKnowledgeDocument (document : KnowledgeDocument) (removed : Bool) : Library E :=
  { s with
    files := if removed then s.files.erase document.localRelativePath else s.files
    store :=
      { s.store with
        documents := s.store.documents.filter (· ≠ document)
        chunks := s.store.chunks.filter (·.document ≠ some document) } }

/-- The task goes on with the answer to what it waits for. -/
def resume : Stage → Answer E → Option (Library E)
  | .starting request, .begun =>
    some (if s.useModelOCRForImports then { s with task := some (.preparing request) } else s.begin S request false)
  | .preparing request, .prepared enabled =>
    some (if s.useModelOCRForImports && !enabled then s.stop else s.begin S request enabled)
  | .downloading file tempURL preferOCRModel, .downloaded result =>
    some (match result with
      | .ok _ => s.nextSource ⟨[.file tempURL .drive (some file.id) file.name], preferOCRModel⟩
      | .error _ => s.nextSource ⟨[], preferOCRModel⟩)
  | .storing source queue, .copied result =>
    let stored := storeSource S s.nextId source
    let s := { s with nextId := s.nextId + 1 }
    some (match result with
      | .ok _ =>
        { s with files := insert stored.relativePath s.files, task := some (.extracting stored source queue) }
      | .error _ => s.nextSource queue)
  | .extracting stored source queue, .extracted file =>
    some (match ingestSource S ⟨true, queue.preferOCRModel⟩ stored file source with
      | .ok ingested => { s with task := some (.persisting ingested queue) }
      | .error _ => s.nextSource queue)
  | .persisting ingested queue, .returned now =>
    let document := newDocument s.nextId now ingested
    some (insertChunks S now document queue (s.insertDocument document) 0 ingested.chunks)
  | .embedding document index chunks queue chunkId modelId contentHash, .embedded result now =>
    let s := match result with
      | .ok embedding => s.updateChunk chunkId (indexedChunk S modelId contentHash embedding now)
      | .error _ => s
    some (insertChunks S now document queue s index chunks)
  | .finishing, .finished => some s.stop
  | _, _ => none

def step : Action E → Option (Library E)
  | .importKnowledge request => some (s.importKnowledge request)
  | .resume answer => s.task.bind fun stage => s.resume S stage answer
  | .deleteKnowledgeDocument document removed =>
    if document ∈ s.store.documents then some (s.deleteKnowledgeDocument document removed) else none
  | .setUseModelOCRForImports value => some { s with useModelOCRForImports := value }
  | .setEmbeddingModel isLoaded currentId =>
    some { s with isEmbeddingModelLoaded := isLoaded, currentEmbeddingModelId := currentId }

variable (E) in
def machine : Framework.Machine (Library E) (Action E) := ⟨step S⟩

/-- A library before anything is imported. -/
def fresh (E : Type) (embeddingModelId : Option String) : Library E where
  files := ∅
  store := Store.empty E
  nextId := 0
  useModelOCRForImports := false
  isEmbeddingModelLoaded := embeddingModelId.isSome
  currentEmbeddingModelId := embeddingModelId
  isImportingKnowledge := false
  task := none

/-! ## The task goes on -/

/-- All that the task can do with an answer. -/
inductive Resumes (S : Services) (s : Library E) : Stage → Answer E → Library E → Prop
  | prepare {request : KnowledgeImport} (huse : s.useModelOCRForImports = true) :
    Resumes S s (.starting request) .begun { s with task := some (.preparing request) }
  | start {request : KnowledgeImport} (huse : s.useModelOCRForImports = false) :
    Resumes S s (.starting request) .begun (s.begin S request false)
  | refused {request : KnowledgeImport} (huse : s.useModelOCRForImports = true) :
    Resumes S s (.preparing request) (.prepared false) s.stop
  | prepared {request : KnowledgeImport} {enabled : Bool} (huse : s.useModelOCRForImports = true → enabled = true) :
    Resumes S s (.preparing request) (.prepared enabled) (s.begin S request enabled)
  | downloaded {file : DriveFile} {tempURL : SourceURL} {preferOCRModel : Bool} :
    Resumes S s (.downloading file tempURL preferOCRModel) (.downloaded (.ok ()))
      (s.nextSource ⟨[.file tempURL .drive (some file.id) file.name], preferOCRModel⟩)
  | notDownloaded {file : DriveFile} {tempURL : SourceURL} {preferOCRModel : Bool} {e : NSError} :
    Resumes S s (.downloading file tempURL preferOCRModel) (.downloaded (.error e)) (s.nextSource ⟨[], preferOCRModel⟩)
  | stored {source : ImportSource} {queue : ImportQueue} :
    Resumes S s (.storing source queue) (.copied (.ok ()))
      { s with
        nextId := s.nextId + 1
        files := insert (storeSource S s.nextId source).relativePath s.files
        task := some (.extracting (storeSource S s.nextId source) source queue) }
  | notStored {source : ImportSource} {queue : ImportQueue} {e : NSError} :
    Resumes S s (.storing source queue) (.copied (.error e)) (nextSource { s with nextId := s.nextId + 1 } queue)
  | extracted {stored : StoredKnowledgeFile} {source : ImportSource} {queue : ImportQueue} {file : FileAnswers}
    {ingested : IngestedKnowledgeDocument}
    (hi : ingestSource S ⟨true, queue.preferOCRModel⟩ stored file source = .ok ingested) :
    Resumes S s (.extracting stored source queue) (.extracted file) { s with task := some (.persisting ingested queue) }
  | notExtracted {stored : StoredKnowledgeFile} {source : ImportSource} {queue : ImportQueue} {file : FileAnswers}
    {e : NSError} (hi : ingestSource S ⟨true, queue.preferOCRModel⟩ stored file source = .error e) :
    Resumes S s (.extracting stored source queue) (.extracted file) (s.nextSource queue)
  | persisted {ingested : IngestedKnowledgeDocument} {queue : ImportQueue} {now : Date} :
    Resumes S s (.persisting ingested queue) (.returned now)
      (insertChunks S now (newDocument s.nextId now ingested) queue
        (s.insertDocument (newDocument s.nextId now ingested)) 0 ingested.chunks)
  | indexed {document : KnowledgeDocument} {index : ℕ} {chunks : List ChunkedTextUnit} {queue : ImportQueue}
    {chunkId : UUID} {modelId contentHash : String} {embedding : E} {now : Date} :
    Resumes S s (.embedding document index chunks queue chunkId modelId contentHash) (.embedded (.ok embedding) now)
      (insertChunks S now document queue (s.updateChunk chunkId (indexedChunk S modelId contentHash embedding now))
        index chunks)
  | notIndexed {document : KnowledgeDocument} {index : ℕ} {chunks : List ChunkedTextUnit} {queue : ImportQueue}
    {chunkId : UUID} {modelId contentHash : String} {e : LlamaError} {now : Date} :
    Resumes S s (.embedding document index chunks queue chunkId modelId contentHash) (.embedded (.error e) now)
      (insertChunks S now document queue s index chunks)
  | finished : Resumes S s .finishing .finished s.stop

section Task

variable {s : Library E} {S : Services}

@[simp] theorem nextSource_store (queue : ImportQueue) : (s.nextSource queue).store = s.store := by
  rw [nextSource]
  split
  · rfl
  · split <;> rfl

@[simp] theorem begin_store (request : KnowledgeImport) (preferOCRModel : Bool) :
    (s.begin S request preferOCRModel).store = s.store := by
  cases request with
  | files urls sourceType driveFileId => exact nextSource_store _
  | imageData data suggestedName => exact nextSource_store _
  | driveFile file => rfl

/-- The ids that are given out from `s` to `s'` are new, and the flag is set
in `s'` while the task goes on. -/
structure GoesOn (s s' : Library E) : Prop where
  nextId : s.nextId ≤ s'.nextId
  busy : s.isImportingKnowledge = true → s'.isImportingKnowledge = s'.task.isSome

theorem GoesOn.of_le {r s s' : Library E} (h : GoesOn s s') (hid : r.nextId ≤ s.nextId)
    (hflag : r.isImportingKnowledge = s.isImportingKnowledge) : GoesOn r s' :=
  ⟨hid.trans h.nextId, fun hr => h.busy (hflag ▸ hr)⟩

theorem stop_goesOn : GoesOn s s.stop := ⟨le_rfl, fun _ => rfl⟩

theorem nextSource_goesOn (queue : ImportQueue) : GoesOn s (s.nextSource queue) := by
  rw [nextSource]
  split
  · exact ⟨le_rfl, id⟩
  · split
    · exact ⟨le_rfl, id⟩
    · exact stop_goesOn

theorem begin_goesOn (request : KnowledgeImport) (preferOCRModel : Bool) :
    GoesOn s (s.begin S request preferOCRModel) := by
  cases request with
  | files urls sourceType driveFileId => exact nextSource_goesOn _
  | imageData data suggestedName =>
    exact nextSource_goesOn ⟨[.image (S.fileURLWithPath suggestedName)], preferOCRModel⟩
  | driveFile file => exact ⟨Nat.le_succ _, id⟩

theorem insertChunks_goesOn (now : Date) (document : KnowledgeDocument) (queue : ImportQueue) (s : Library E)
    (index : ℕ) (chunks : List ChunkedTextUnit) : GoesOn s (insertChunks S now document queue s index chunks) := by
  induction chunks generalizing s index with
  | nil => exact nextSource_goesOn queue
  | cons chunkData chunks ih =>
    simp only [insertChunks]
    split
    · exact ⟨Nat.le_succ _, id⟩
    · exact (ih _ (index + 1)).of_le (Nat.le_succ _) rfl

theorem resume_cases {s' : Library E} {stage : Stage} {answer : Answer E} (h : s.resume S stage answer = some s') :
    Resumes S s stage answer s' := by
  cases stage with
  | starting request =>
    cases answer with
    | begun =>
      obtain rfl := Option.some.inj h
      split
      · exact .prepare ‹_›
      · exact .start (Bool.eq_false_of_not_eq_true ‹_›)
    | _ => cases h
  | preparing request =>
    cases answer with
    | prepared enabled =>
      obtain rfl := Option.some.inj h
      cases enabled with
      | true =>
        rw [Bool.not_true, Bool.and_false, if_neg Bool.false_ne_true]
        exact .prepared fun _ => rfl
      | false =>
        rw [Bool.not_false, Bool.and_true]
        split
        · exact .refused ‹_›
        · exact .prepared fun huse => absurd huse ‹_›
    | _ => cases h
  | downloading file tempURL preferOCRModel =>
    cases answer with
    | downloaded result =>
      obtain rfl := Option.some.inj h
      cases result with
      | ok done => exact .downloaded
      | error e => exact .notDownloaded
    | _ => cases h
  | storing source queue =>
    cases answer with
    | copied result =>
      obtain rfl := Option.some.inj h
      cases result with
      | ok done => exact .stored
      | error e => exact .notStored
    | _ => cases h
  | extracting stored source queue =>
    cases answer with
    | extracted file =>
      obtain rfl := Option.some.inj h
      split
      · exact .extracted ‹_›
      · exact .notExtracted ‹_›
    | _ => cases h
  | persisting ingested queue =>
    cases answer with
    | returned now =>
      obtain rfl := Option.some.inj h
      exact .persisted
    | _ => cases h
  | embedding document index chunks queue chunkId modelId contentHash =>
    cases answer with
    | embedded result now =>
      obtain rfl := Option.some.inj h
      cases result with
      | ok embedding => exact .indexed
      | error e => exact .notIndexed
    | _ => cases h
  | finishing =>
    cases answer with
    | finished =>
      obtain rfl := Option.some.inj h
      exact .finished
    | _ => cases h

theorem resume_goesOn {s' : Library E} {stage : Stage} {answer : Answer E} (h : s.resume S stage answer = some s') :
    GoesOn s s' := by
  cases resume_cases h with
  | prepare => exact ⟨le_rfl, id⟩
  | start => exact begin_goesOn _ false
  | refused => exact stop_goesOn
  | prepared => exact begin_goesOn _ _
  | downloaded => exact nextSource_goesOn _
  | notDownloaded => exact nextSource_goesOn _
  | stored => exact ⟨Nat.le_succ _, id⟩
  | notStored => exact (nextSource_goesOn _).of_le (Nat.le_succ _) rfl
  | extracted => exact ⟨le_rfl, id⟩
  | notExtracted => exact nextSource_goesOn _
  | persisted => exact (insertChunks_goesOn _ _ _ _ 0 _).of_le (Nat.le_succ _) rfl
  | indexed => exact (insertChunks_goesOn _ _ _ _ _ _).of_le le_rfl rfl
  | notIndexed => exact insertChunks_goesOn _ _ _ s _ _
  | finished => exact stop_goesOn

theorem step_nextId_le {s' : Library E} {a : Action E} (h : s.step S a = some s') : s.nextId ≤ s'.nextId := by
  cases a with
  | importKnowledge request =>
    obtain rfl := Option.some.inj h
    rw [importKnowledge]
    split <;> rfl
  | resume answer =>
    obtain ⟨stage, -, h⟩ := Option.bind_eq_some_iff.mp h
    exact (resume_goesOn h).nextId
  | deleteKnowledgeDocument document removed =>
    obtain ⟨-, h⟩ := Option.ite_none_right_eq_some.mp h
    obtain rfl := Option.some.inj h
    rfl
  | setUseModelOCRForImports value =>
    obtain rfl := Option.some.inj h
    rfl
  | setEmbeddingModel isLoaded currentId =>
    obtain rfl := Option.some.inj h
    rfl

/-- The flag is set exactly while there is a task. -/
theorem step_busy {s' : Library E} {a : Action E} (hbusy : s.isImportingKnowledge = s.task.isSome)
    (h : s.step S a = some s') : s'.isImportingKnowledge = s'.task.isSome := by
  cases a with
  | importKnowledge request =>
    obtain rfl := Option.some.inj h
    rw [importKnowledge]
    split
    · rfl
    · exact hbusy
  | resume answer =>
    obtain ⟨stage, htask, h⟩ := Option.bind_eq_some_iff.mp h
    exact (resume_goesOn h).busy (by rw [hbusy, htask, Option.isSome_some])
  | deleteKnowledgeDocument document removed =>
    obtain ⟨-, h⟩ := Option.ite_none_right_eq_some.mp h
    obtain rfl := Option.some.inj h
    exact hbusy
  | setUseModelOCRForImports value =>
    obtain rfl := Option.some.inj h
    exact hbusy
  | setEmbeddingModel isLoaded currentId =>
    obtain rfl := Option.some.inj h
    exact hbusy

end Task

end Library

end SynapsNotes.Knowledge
