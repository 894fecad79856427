import SynapsNotes.Framework.Tasks
import SynapsNotes.Retrieval.Scoring
import SynapsNotes.Runtime.Records

/-!
# Models, indexing and retrieval as tasks

The part of the view model that loads and unloads models, keeps the index of
notes and chunks and asks for embeddings: flags and records on the main
actor, tasks that run on it in segments, and calls that `LlamaContext`
performs one at a time. An operation (`Op`) is what a task does between two
awaits; a call (`Call`) is a job of the actor, and its `Return` carries what
the task has kept across the await.

Chat and embedding model are handled alike, so the functions for one and the
other are one function of the `Slot`.
-/

namespace SynapsNotes.Runtime

open Framework FloatLike

variable {α : Type}

/-- `modelError`, before it is put into words. -/
inductive ModelError
  | fileNotFound
  | load (error : LlamaError) (name filename : String)

/-- `buildModelLoadError`, given the words for the file's size and the
system's for the error. -/
def ModelError.message (sizeText localizedDescription : String) : ModelError → String
  | fileNotFound => "Model file not found"
  | load .invalidModelFile name filename =>
    name ++ " is not a valid GGUF file (" ++ filename ++ ", " ++ sizeText ++ "). Re-download this model."
  | load .failedToLoadModel name filename =>
    "Could not load " ++ name ++ " (" ++ filename ++ ", " ++ sizeText ++
      "). File may be incompatible or incomplete. Re-download and try again."
  | load _ _ _ => localizedDescription

/-- A semantic score, with the two vectors it was computed from. -/
structure SemanticScore (α : Type) where
  source : Source
  query : Embedding α
  stored : Embedding α
  score : α

structure ViewModel (α : Type) where
  /-- `catalogStore.items`, in its order. -/
  catalog : List ModelCatalogItem
  isLowPowerMode : Bool
  /-- `isChatModelLoaded` and `isEmbeddingModelLoaded`. -/
  isLoaded : Slot → Bool
  isLoading : Slot → Bool
  /-- `currentChatModelId` and `currentEmbeddingModelId`. -/
  currentId : Slot → Option ModelId
  /-- The selection kept in the defaults. -/
  activeId : Slot → Option ModelId
  modelError : Option ModelError
  isModelRehydrateInProgress : Bool
  isIndexing : Bool
  /-- The number of the task. -/
  pendingAutoIndexTasks : UUID → Option Nat
  records : Records α
  /-- What retrievals have computed from embeddings so far. -/
  semanticScores : List (SemanticScore α)

/-- What a message is asked with. -/
structure Request where
  text : String
  sources : List Source

structure IngestedChunk where
  id : UUID
  pageNumber : Option Int
  text : String

/-- What a task does next. The operations named `rag…` are the parts of
`ensureRAGReadyBeforeSend` between its awaits. -/
inductive Op (α : Type)
  | load (k : Slot) (item : ModelCatalogItem) (persistSelection : Bool)
  | loadCurrent (k : Slot)
  | unload (k : Slot) (clearSelection : Bool)
  | unloadAll
  | rehydrate
  | rehydrated
  | autoIndex (id : UUID)
  | autoIndexed (id : UUID)
  | ensureIndexed (sources : List Source) (hasDeadline : Bool)
  | indexEach (sources : List Source) (hasDeadline : Bool)
  | importChunks (document : KnowledgeDocument) (index : Nat) (chunks : List IngestedChunk)
  | ragLoad (request : Request)
  | ragLoadFallback (request : Request)
  | ragLoaded (request : Request)
  | ragIndex (request : Request)
  | ragWait (request : Request)
  | ragPrepare (request : Request)
  | ragPrepared (request : Request)
  | retrieve (request : Request) (ragReady : Bool)
  /-- `judgedBy` is the model id by which the eligible sources were found
  fresh; the code does not keep it. -/
  | score (query : Option (Embedding α)) (judgedBy : Option ModelId) (eligible remaining : List Source)

/-- What an embedding is for, with what the task keeps for afterwards. -/
inductive Use
  | index (source : Source) (embeddingModelId : ModelId) (contentHash : String)
  | query (judgedBy : Option ModelId) (eligible sources : List Source)

inductive Call
  | load (k : Slot) (item : ModelCatalogItem) (persistSelection lowMemory : Bool)
  | unload (k : Slot) (clearSelection : Bool)
  | unloadAll
  | embed (text : String) (use : Use)

inductive Return (α : Type)
  | load (k : Slot) (item : ModelCatalogItem) (persistSelection : Bool) (result : Except LlamaError Unit)
  | unload (k : Slot) (clearSelection : Bool)
  | unloadAll
  | embed (use : Use) (result : Except LlamaError (Embedding α))

/-- What a segment finds outside the program: the installed models, whether
the task is past its deadline, the time, and which source is scored next. -/
structure Choice where
  installed : ModelCatalogItem → Bool
  timedOut : Bool
  now : Date
  pick : Nat

/-- What a job finds outside the program. -/
structure Answer (α : Type) where
  file : LoadAnswer
  values : Except LlamaError (List α)

/-- The calls of the user interface. An undo or a redo is an edit and
`noteEdited`. A message is sent whether or not another run is under way:
`isGenerating` does not keep runs apart. -/
inductive Input
  | loadModel (k : Slot) (item : ModelCatalogItem)
  | reloadModel (k : Slot) (item : ModelCatalogItem)
  | unloadModel (k : Slot)
  | offloadAllModels
  | deleteDownloaded (item : ModelCatalogItem)
  | sceneDidBecomeActive
  | sceneDidEnterBackground
  | editNote (id : UUID) (title content : String) (now : Date)
  | noteEdited (id : UUID)
  | indexAll (sources : List Source)
  | startAutoIndexIfNeeded (sources : List Source)
  | importKnowledge (document : KnowledgeDocument) (chunks : List IngestedChunk)
  | sendMessage (request : Request)

namespace ViewModel

variable (P : Platform) (m : ViewModel α)

def findItem (id : ModelId) : Option ModelCatalogItem := m.catalog.find? fun item => item.id == id

def isFresh (source : Source) : Bool := m.records.isFresh P (m.currentId .embedding) source

/-! ## Loading and unloading -/

/-- `loadChatModelAsync` and `loadEmbeddingModelAsync`, up to the call. -/
def loadModelAsync (choice : Choice) (k : Slot) (item : ModelCatalogItem) (persistSelection : Bool) :
    Segment (ViewModel α) (Op α) Call :=
  if item.kind ≠ k.kind then ⟨m, [], none⟩
  else if !choice.installed item then ⟨{ m with modelError := some .fileNotFound }, [], none⟩
  else if m.isLoading k then ⟨m, [], none⟩
  else
    ⟨{ m with isLoading := Function.update m.isLoading k true, modelError := none }, [],
      some (.load k item persistSelection m.isLowPowerMode)⟩

/-- The rest of them. -/
def modelLoaded (k : Slot) (item : ModelCatalogItem) (persistSelection : Bool) (result : Except LlamaError Unit) :
    ViewModel α :=
  match result with
  | .ok () =>
    { m with
      isLoaded := Function.update m.isLoaded k true
      currentId := Function.update m.currentId k (some item.id)
      activeId := if persistSelection then Function.update m.activeId k (some item.id) else m.activeId
      isLoading := Function.update m.isLoading k false }
  | .error error =>
    { m with
      modelError := some (.load error item.name item.filename)
      isLoaded := Function.update m.isLoaded k false
      isLoading := Function.update m.isLoading k false }

/-- `unloadChatModelAsync` and `unloadEmbeddingModelAsync`, after the call. -/
def modelUnloaded (k : Slot) (clearSelection : Bool) : ViewModel α :=
  { m with
    isLoaded := Function.update m.isLoaded k false
    isLoading := Function.update m.isLoading k false
    currentId := if clearSelection then Function.update m.currentId k none else m.currentId
    activeId := if clearSelection then Function.update m.activeId k none else m.activeId }

/-- Loads the current model of a slot that has none loaded. -/
def loadCurrent (choice : Choice) (k : Slot) : Segment (ViewModel α) (Op α) Call :=
  if m.isLoaded k then ⟨m, [], none⟩
  else
    match (m.currentId k).bind m.findItem with
    | some item => if choice.installed item then m.loadModelAsync choice k item false else ⟨m, [], none⟩
    | none => ⟨m, [], none⟩

/-- `handleSceneDidEnterBackground`: the flags at once, the unload later. -/
def handleSceneDidEnterBackground : Spawn (ViewModel α) (Op α) :=
  ⟨{ m with isLoaded := fun _ => false, isLoading := fun _ => false }, [[.unloadAll]], []⟩

/-! ## Indexing -/

/-- `indexSingleNote` and `indexSingleKnowledgeChunk`, up to the call: the
model id, the text and its hash are read here. Without a model id they fail,
and each caller goes on. -/
def indexSingle (source : Source) (next : List (Op α)) : Segment (ViewModel α) (Op α) Call :=
  match m.currentId .embedding with
  | none => ⟨m, next, none⟩
  | some embeddingModelId =>
    ⟨m, next, some (.embed (m.records.entry source).text
      (.index source embeddingModelId (m.records.contentHash P source)))⟩

/-- The rest of them: a failed call changes nothing. -/
def sourceEmbedded (now : Date) (source : Source) (embeddingModelId : ModelId) (contentHash : String)
    (result : Except LlamaError (Embedding α)) : ViewModel α :=
  match result with
  | .ok embedding =>
    { m with records := m.records.storeEmbedding P now embedding embeddingModelId contentHash source }
  | .error _ => m

/-- `ensureIndexedForRAG` and `ensureKnowledgeChunksIndexedForRAG`, up to
their loops. -/
def ensureIndexed (sources : List Source) (hasDeadline : Bool) : Segment (ViewModel α) (Op α) Call :=
  if !m.isLoaded .embedding || m.isIndexing then ⟨m, [], none⟩
  else
    let candidates := sources.filter fun source => !m.isFresh P source
    if candidates.isEmpty then ⟨m, [], none⟩
    else ⟨{ m with isIndexing := true }, [.indexEach candidates hasDeadline], none⟩

/-- A round of the loops over sources. -/
def indexEach (choice : Choice) (hasDeadline : Bool) : List Source → Segment (ViewModel α) (Op α) Call
  | [] => ⟨{ m with isIndexing := false }, [], none⟩
  | source :: rest =>
    if hasDeadline && choice.timedOut then ⟨{ m with isIndexing := false }, [], none⟩
    else m.indexSingle P source [.indexEach rest hasDeadline]

/-- The task of `scheduleAutoIndex`, after its sleep. -/
def autoIndex (isCancelled : Bool) (id : UUID) : Segment (ViewModel α) (Op α) Call :=
  if isCancelled then ⟨m, [], none⟩
  else if !m.isLoaded .embedding then ⟨m, [], none⟩
  else m.indexSingle P (.note id) [.autoIndexed id]

/-- `handleNoteEdited`: `markNoteEmbeddingStale` and `scheduleAutoIndex`. -/
def handleNoteEdited (id : UUID) (nextTask : Nat) : Spawn (ViewModel α) (Op α) :=
  ⟨{ m with
      records := m.records.modifyNote id markNoteEmbeddingStale
      pendingAutoIndexTasks := Function.update m.pendingAutoIndexTasks id (some nextTask) },
    [[.autoIndex id]], (m.pendingAutoIndexTasks id).toList⟩

/-- `indexAllNotes` and `reindexKnowledgeBase`. -/
def indexAll (sources : List Source) : Spawn (ViewModel α) (Op α) :=
  if !m.isLoaded .embedding || m.isIndexing || sources.isEmpty then ⟨m, [], []⟩
  else ⟨{ m with isIndexing := true }, [[.indexEach sources false]], []⟩

/-- `startAutoIndexIfNeeded` and `startAutoIndexKnowledgeIfNeeded`. -/
def startAutoIndexIfNeeded (sources : List Source) : Spawn (ViewModel α) (Op α) :=
  if !m.isLoaded .embedding || m.isIndexing then ⟨m, [], []⟩
  else if (sources.filter fun source => !m.isFresh P source).isEmpty then ⟨m, [], []⟩
  else ⟨m, [[.ensureIndexed sources false]], []⟩

/-- A chunk as `persistIngestedDocument` inserts it, without an embedding. -/
def newChunk (P : Platform) (now : Date) (document : KnowledgeDocument) (index : Nat) (chunk : IngestedChunk) :
    KnowledgeChunk (Embedding α) where
  id := chunk.id
  chunkIndex := index
  pageNumber := chunk.pageNumber
  text := chunk.text
  embedding := none
  embeddingModelId := none
  embeddingUpdatedAt := none
  embeddingContentHash := none
  tokenCount := some (tokenCountEstimate chunk.text)
  charCount := some chunk.text.length
  sectionHint := inferSectionHint chunk.text
  documentTitleNormalized := some (normalizedForSearch P.unicode document.title)
  createdAt := now
  updatedAt := now
  document := some document

/-- A round of its loop. -/
def importChunks (choice : Choice) (document : KnowledgeDocument) (index : Nat) :
    List IngestedChunk → Segment (ViewModel α) (Op α) Call
  | [] => ⟨m, [], none⟩
  | chunk :: rest =>
    let inserted : ViewModel α :=
      { m with records := m.records.setChunk chunk.id (newChunk P choice.now document index chunk) }
    if m.isLoaded .embedding then inserted.indexSingle P (.chunk chunk.id) [.importChunks document (index + 1) rest]
    else ⟨inserted, [.importChunks document (index + 1) rest], none⟩

/-! ## Retrieval -/

/-- The query's embedding is asked for once the eligible sources are known. -/
def retrieve (request : Request) (ragReady : Bool) : Segment (ViewModel α) (Op α) Call :=
  let eligible := request.sources.filter (m.isFresh P)
  let judgedBy := m.currentId .embedding
  if ragReady && m.isLoaded .embedding && !eligible.isEmpty then
    ⟨m, [], some (.embed request.text (.query judgedBy eligible request.sources))⟩
  else ⟨m, [.score none judgedBy eligible request.sources], none⟩

/-- `queryEmbedding`, of what the call returned. -/
def queryEmbedding (result : Except LlamaError (Embedding α)) : Option (Embedding α) :=
  match result with
  | .ok embedded => if embedded.values.isEmpty then none else some embedded
  | .error _ => none

/-- `semanticScore(for:)`, of a source: `retrieveContext` reads the stored
embedding here. -/
def scoreSource [FloatLike α] (query : Option (Embedding α)) (eligible : List Source) (source : Source) :
    Option (SemanticScore α) :=
  match query, (m.records.entry source).embedding with
  | some query, some stored =>
    let score := match source with
      | .note id => Retrieval.semanticScore id (some stored.values) (some query.values)
          (eligible.filterMap Source.noteId?).toFinset
      | .chunk id => Retrieval.semanticScore id (some stored.values) (some query.values)
          (eligible.filterMap Source.chunkId?).toFinset
    score.map fun score => { source, query, stored, score }
  | _, _ => none

/-- The workers of `retrieveContext` score the sources in any order. -/
def score [FloatLike α] (choice : Choice) (query : Option (Embedding α)) (judgedBy : Option ModelId)
    (eligible remaining : List Source) : Segment (ViewModel α) (Op α) Call :=
  let i := choice.pick % remaining.length
  match remaining[i]? with
  | none => ⟨m, [], none⟩
  | some source =>
    ⟨{ m with semanticScores := m.semanticScores ++ (m.scoreSource query eligible source).toList },
      [.score query judgedBy eligible (remaining.eraseIdx i)], none⟩

/-- Whether some source of a request is fresh. -/
def anyFresh (request : Request) : Bool := request.sources.any (m.isFresh P)

/-! ## The program -/

/-- The segment of an operation. -/
def start [FloatLike α] (choice : Choice) (isCancelled : Bool) : Op α → Segment (ViewModel α) (Op α) Call
  | .load k item persistSelection => m.loadModelAsync choice k item persistSelection
  | .loadCurrent k => m.loadCurrent choice k
  | .unload k clearSelection => ⟨m, [], some (.unload k clearSelection)⟩
  | .unloadAll => ⟨m, [], some .unloadAll⟩
  | .rehydrate =>
    if m.isModelRehydrateInProgress then ⟨m, [], none⟩
    else
      ⟨{ m with isModelRehydrateInProgress := true },
        [.loadCurrent .chat, .loadCurrent .embedding, .rehydrated], none⟩
  | .rehydrated => ⟨{ m with isModelRehydrateInProgress := false }, [], none⟩
  | .autoIndex id => m.autoIndex P isCancelled id
  | .autoIndexed id =>
    ⟨{ m with pendingAutoIndexTasks := Function.update m.pendingAutoIndexTasks id none }, [], none⟩
  | .ensureIndexed sources hasDeadline => m.ensureIndexed P sources hasDeadline
  | .indexEach sources hasDeadline => m.indexEach P choice hasDeadline sources
  | .importChunks document index chunks => m.importChunks P choice document index chunks
  | .ragLoad request =>
    if choice.timedOut then ⟨m, [.retrieve request false], none⟩
    else if m.isLoaded .embedding then ⟨m, [.ragIndex request], none⟩
    else ⟨m, [.loadCurrent .embedding, .ragLoadFallback request], none⟩
  | .ragLoadFallback request =>
    if m.isLoaded .embedding then ⟨m, [.ragIndex request], none⟩
    else
      match (m.catalog.filter fun item => item.kind = .embedding).find? choice.installed with
      | some item => ⟨m, [.load .embedding item true, .ragLoaded request], none⟩
      | none => ⟨m, [.ragLoaded request], none⟩
  | .ragLoaded request =>
    if m.isLoaded .embedding then ⟨m, [.ragIndex request], none⟩ else ⟨m, [.retrieve request false], none⟩
  | .ragIndex request =>
    if choice.timedOut then ⟨m, [.retrieve request false], none⟩
    else if m.isIndexing then ⟨m, [.ragWait request], none⟩
    else ⟨m, [.ragPrepare request], none⟩
  | .ragWait request =>
    if !m.isIndexing then ⟨m, [.ragPrepare request], none⟩
    else if choice.timedOut then ⟨m, [.retrieve request (m.anyFresh P request)], none⟩
    else ⟨m, [.ragWait request], none⟩
  | .ragPrepare request =>
    if request.sources.all (m.isFresh P) then ⟨m, [.ragPrepared request], none⟩
    else
      ⟨m, [.ensureIndexed (request.sources.filter fun source => source.noteId?.isSome) true,
        .ensureIndexed (request.sources.filter fun source => source.chunkId?.isSome) true,
        .ragPrepared request], none⟩
  | .ragPrepared request =>
    if choice.timedOut && !m.anyFresh P request then ⟨m, [.retrieve request false], none⟩
    else ⟨m, [.retrieve request true], none⟩
  | .retrieve request ragReady => m.retrieve P request ragReady
  | .score query judgedBy eligible remaining => m.score choice query judgedBy eligible remaining

/-- The segment after a call. -/
def resume (choice : Choice) : Return α → ViewModel α × List (Op α)
  | .load k item persistSelection result => (m.modelLoaded k item persistSelection result, [])
  | .unload k clearSelection => (m.modelUnloaded k clearSelection, [])
  | .unloadAll => (m, [])
  | .embed (.index source embeddingModelId contentHash) result =>
    (m.sourceEmbedded P choice.now source embeddingModelId contentHash result, [])
  | .embed (.query judgedBy eligible sources) result =>
    (m, [.score (queryEmbedding result) judgedBy eligible sources])

/-- A call of the user interface. -/
def input (nextTask : Nat) : Input → Spawn (ViewModel α) (Op α)
  | .loadModel k item => ⟨m, [[.load k item true]], []⟩
  | .reloadModel k item => ⟨m, [[.unload k false, .load k item true]], []⟩
  | .unloadModel k => ⟨m, [[.unload k true]], []⟩
  | .offloadAllModels => ⟨m, [[.unload .chat false, .unload .embedding false]], []⟩
  | .deleteDownloaded item =>
    ⟨m, ([.chat, .embedding].filter fun k => m.currentId k == some item.id).map fun k => [.unload k true], []⟩
  | .sceneDidBecomeActive => ⟨m, [[.rehydrate]], []⟩
  | .sceneDidEnterBackground => m.handleSceneDidEnterBackground
  | .editNote id title content now =>
    ⟨{ m with records := m.records.modifyNote id fun note => { note with title, content, updatedAt := now } }, [], []⟩
  | .noteEdited id => m.handleNoteEdited id nextTask
  | .indexAll sources => m.indexAll sources
  | .startAutoIndexIfNeeded sources => m.startAutoIndexIfNeeded P sources
  | .importKnowledge document chunks => ⟨m, [[.importChunks document 0 chunks]], []⟩
  | .sendMessage request =>
    let userMessageText := trimmed request.text
    if !m.isLoaded .chat || userMessageText.isEmpty || request.sources.isEmpty then ⟨m, [], []⟩
    else ⟨m, [[.ragLoad { request with text := userMessageText }]], []⟩

end ViewModel

/-- A job of the actor. -/
def LlamaContext.perform (answer : Answer α) (call : Call) (l : LlamaContext) : LlamaContext × Return α :=
  match call with
  | .load k item persistSelection lowMemory =>
    let r := l.loadModel k item.id lowMemory answer.file
    (r.1, .load k item persistSelection r.2)
  | .unload k clearSelection => (l.unloadModel k, .unload k clearSelection)
  | .unloadAll => (l.unload, .unloadAll)
  | .embed text use => (l, .embed use (l.embedWithEmbeddingModel text answer.values))

/-- The program. -/
def program [FloatLike α] (P : Platform) :
    Program (ViewModel α) LlamaContext (Op α) Call (Return α) Input Choice (Answer α) where
  input a nextTask m := m.input P nextTask a
  start choice isCancelled op m := m.start P choice isCancelled op
  perform answer call l := l.perform answer call
  resume choice result m := m.resume P choice result

abbrev State (α : Type) := World (ViewModel α) LlamaContext (Op α) Call (Return α)

abbrev Event (α : Type) := Action Input Choice (Answer α)

abbrev machine [FloatLike α] (P : Platform) : Machine (State α) (Event α) := (program P).machine

/-- The view model as `init` leaves it: the stored selections whose models
are still in the catalog. -/
def ViewModel.launch (catalog : List ModelCatalogItem) (isLowPowerMode : Bool) (activeId : Slot → Option ModelId)
    (records : Records α) : ViewModel α :=
  let selected := fun k => (activeId k).filter fun id => (catalog.find? fun item => item.id == id).isSome
  { catalog
    isLowPowerMode
    isLoaded := fun _ => false
    isLoading := fun _ => false
    currentId := selected
    activeId := selected
    modelError := none
    isModelRehydrateInProgress := false
    isIndexing := false
    pendingAutoIndexTasks := fun _ => none
    records
    semanticScores := [] }

def State.launch (catalog : List ModelCatalogItem) (isLowPowerMode : Bool) (activeId : Slot → Option ModelId)
    (records : Records α) : State α :=
  { main := .launch catalog isLowPowerMode activeId records, actor := .empty, tasks := [] }

/-! ## A first launch, for concrete runs -/

def modelItem (id : ModelId) (kind : ModelKind) : ModelCatalogItem :=
  { id, kind, name := id, filename := id ++ ".gguf", auxiliaryFilename := none, auxiliaryURL := none,
    auxiliarySha256 := none, url := id ++ ".gguf", sha256 := none }

/-- A chat model and two embedding models; nothing is selected, and nothing
has been indexed. -/
def firstLaunch : State ℚ :=
  .launch [modelItem "chat" .chat, modelItem "embed-a" .embedding, modelItem "embed-b" .embedding] false
    (fun _ => none)
    { notes := fun id =>
        { id, title := "Trip", content := "Pack the tent", createdAt := 0, updatedAt := 0, tags := [],
          embedding := none, embeddingModelId := none, embeddingUpdatedAt := none, embeddingContentHash := none,
          titleNormalized := none, contentTokenCount := none }
      chunks := fun id =>
        { id, chunkIndex := 0, pageNumber := none, text := "Tents are packed dry", embedding := none,
          embeddingModelId := none, embeddingUpdatedAt := none, embeddingContentHash := none, tokenCount := none,
          charCount := none, sectionHint := none, documentTitleNormalized := none, createdAt := 0, updatedAt := 0,
          document := none } }

/-- Everything is installed and nothing is late. -/
def promptly : Choice := { installed := fun _ => true, timedOut := false, now := 1, pick := 0 }

/-- Every file loads, and every embedding is the same vector. -/
def answered : Answer ℚ := { file := ⟨true, true, true, true, true⟩, values := .ok [3, 4] }

end SynapsNotes.Runtime
