import SynapsNotes.Data.Schema
import SynapsNotes.Framework.Dictionary

/-!
# Exporting and importing a backup

`exportZip` copies the records of the store into the records of a payload,
with the relations flattened to ids, and encodes it; `importZip` decodes a
payload and rebuilds the records, the relations through dictionaries.

The encoder and the decoder are a `PayloadCodec`: dates lose what is under
the second, everything else comes back. What the store answers to a fetch is
a `BackupContext`, in any order.
-/

namespace SynapsNotes.Backup

open Framework

variable {E J : Type}

/-! ## The payload -/

structure ExportNoteV1 (E : Type) where
  id : UUID
  title : String
  content : String
  createdAt : Date
  updatedAt : Date
  tags : List String
  embedding : Option E
  embeddingModelId : Option String
  embeddingUpdatedAt : Option Date
  embeddingContentHash : Option String
  titleNormalized : Option String
  contentTokenCount : Option Int

structure ExportChatSessionV1 where
  id : UUID
  title : String
  createdAt : Date
  updatedAt : Date

structure ExportChatMessageV1 where
  id : UUID
  role : String
  content : String
  thoughtProcess : Option String
  sourceNoteIds : List UUID
  sourceKnowledgeChunkIds : Option (List UUID)
  createdAt : Date
  sessionId : Option UUID

structure ExportKnowledgeDocumentV1 where
  id : UUID
  title : String
  sourceType : String
  mimeType : String
  localRelativePath : String
  driveFileId : Option String
  extractionStatus : String
  extractionError : Option String
  extractionEngine : Option String
  contentHash : Option String
  createdAt : Date
  updatedAt : Date

structure ExportKnowledgeChunkV1 (E : Type) where
  id : UUID
  documentId : Option UUID
  chunkIndex : Int
  pageNumber : Option Int
  text : String
  embedding : Option E
  embeddingModelId : Option String
  embeddingUpdatedAt : Option Date
  embeddingContentHash : Option String
  tokenCount : Option Int
  charCount : Option Int
  sectionHint : Option String
  documentTitleNormalized : Option String
  createdAt : Date
  updatedAt : Date

structure ExportPayloadV1 (E : Type) where
  version : Int
  exportedAt : Date
  notes : List (ExportNoteV1 E)
  knowledgeDocuments : Option (List ExportKnowledgeDocumentV1)
  knowledgeChunks : Option (List (ExportKnowledgeChunkV1 E))
  chatSessions : Option (List ExportChatSessionV1)
  chatMessages : List ExportChatMessageV1

/-! ## Whole seconds -/

/-- What the `.iso8601` strategy keeps of a date. -/
def wholeSeconds (d : Date) : Date := (⌊d⌋ : ℤ)

theorem wholeSeconds_mono {d d' : Date} (h : d ≤ d') : wholeSeconds d ≤ wholeSeconds d' :=
  Int.cast_le.mpr (Int.floor_le_floor h)

def ExportNoteV1.truncated (n : ExportNoteV1 E) : ExportNoteV1 E :=
  { n with
    createdAt := wholeSeconds n.createdAt
    updatedAt := wholeSeconds n.updatedAt
    embeddingUpdatedAt := n.embeddingUpdatedAt.map wholeSeconds }

def ExportChatSessionV1.truncated (s : ExportChatSessionV1) : ExportChatSessionV1 :=
  { s with createdAt := wholeSeconds s.createdAt, updatedAt := wholeSeconds s.updatedAt }

def ExportChatMessageV1.truncated (m : ExportChatMessageV1) : ExportChatMessageV1 :=
  { m with createdAt := wholeSeconds m.createdAt }

def ExportKnowledgeDocumentV1.truncated (d : ExportKnowledgeDocumentV1) : ExportKnowledgeDocumentV1 :=
  { d with createdAt := wholeSeconds d.createdAt, updatedAt := wholeSeconds d.updatedAt }

def ExportKnowledgeChunkV1.truncated (c : ExportKnowledgeChunkV1 E) : ExportKnowledgeChunkV1 E :=
  { c with
    embeddingUpdatedAt := c.embeddingUpdatedAt.map wholeSeconds
    createdAt := wholeSeconds c.createdAt
    updatedAt := wholeSeconds c.updatedAt }

def ExportPayloadV1.truncated (p : ExportPayloadV1 E) : ExportPayloadV1 E :=
  { p with
    exportedAt := wholeSeconds p.exportedAt
    notes := p.notes.map ExportNoteV1.truncated
    knowledgeDocuments := p.knowledgeDocuments.map (·.map ExportKnowledgeDocumentV1.truncated)
    knowledgeChunks := p.knowledgeChunks.map (·.map ExportKnowledgeChunkV1.truncated)
    chatSessions := p.chatSessions.map (·.map ExportChatSessionV1.truncated)
    chatMessages := p.chatMessages.map ExportChatMessageV1.truncated }

/-! ## What the platform does -/

/-- The errors of `BackupError`, and those that the calls throw. -/
inductive BackupError
  | failedToCreateArchive
  | missingDocumentsDirectory
  | missingExportJSON
  | thrown (error : String)

/-- `JSONEncoder` and `JSONDecoder` with the `.iso8601` strategy, on payloads:
all but the seconds' fractions comes back. -/
structure PayloadCodec (E J : Type) where
  encode : ExportPayloadV1 E → Except BackupError J
  decode : J → Except BackupError (ExportPayloadV1 E)
  roundTrip : ∀ p, ∃ j, encode p = .ok j ∧ decode j = .ok p.truncated

/-- The answers of a `ModelContext` to a fetch of all records of a type. -/
structure BackupContext where
  fetch : ∀ {α : Type}, List α → Except BackupError (List α)
  fetch_perm : ∀ {α : Type} {l l' : List α}, fetch l = .ok l' → l'.Perm l

/-- What an import needs besides the payload: the id and the date of a new
session, and which of a dictionary's values is its first. -/
structure ImportContext where
  newId : UUID
  now : Date
  first : List ChatSession → Option ChatSession
  first_mem : ∀ {l x}, first l = some x → x ∈ l
  first_isSome : ∀ {l}, l ≠ [] → (first l).isSome

/-- The part of an archive that holds records. -/
structure Archive (J : Type) where
  exportJSON : Option J

/-! ## Export -/

def exportNote (n : Note E) : ExportNoteV1 E :=
  { id := n.id
    title := n.title
    content := n.content
    createdAt := n.createdAt
    updatedAt := n.updatedAt
    tags := n.tags
    embedding := n.embedding
    embeddingModelId := n.embeddingModelId
    embeddingUpdatedAt := n.embeddingUpdatedAt
    embeddingContentHash := n.embeddingContentHash
    titleNormalized := n.titleNormalized
    contentTokenCount := n.contentTokenCount }

def exportDocument (d : KnowledgeDocument) : ExportKnowledgeDocumentV1 :=
  { id := d.id
    title := d.title
    sourceType := d.sourceType
    mimeType := d.mimeType
    localRelativePath := d.localRelativePath
    driveFileId := d.driveFileId
    extractionStatus := d.extractionStatus
    extractionError := d.extractionError
    extractionEngine := d.extractionEngine
    contentHash := d.contentHash
    createdAt := d.createdAt
    updatedAt := d.updatedAt }

def exportChunk (c : KnowledgeChunk E) : ExportKnowledgeChunkV1 E :=
  { id := c.id
    documentId := c.document.map KnowledgeDocument.id
    chunkIndex := c.chunkIndex
    pageNumber := c.pageNumber
    text := c.text
    embedding := c.embedding
    embeddingModelId := c.embeddingModelId
    embeddingUpdatedAt := c.embeddingUpdatedAt
    embeddingContentHash := c.embeddingContentHash
    tokenCount := c.tokenCount
    charCount := c.charCount
    sectionHint := c.sectionHint
    documentTitleNormalized := c.documentTitleNormalized
    createdAt := c.createdAt
    updatedAt := c.updatedAt }

def exportSession (s : ChatSession) : ExportChatSessionV1 :=
  { id := s.id
    title := s.title
    createdAt := s.createdAt
    updatedAt := s.updatedAt }

def exportMessage (m : ChatMessage) : ExportChatMessageV1 :=
  { id := m.id
    role := m.role
    content := m.content
    thoughtProcess := m.thoughtProcess
    sourceNoteIds := m.sourceNoteIds
    sourceKnowledgeChunkIds := some m.sourceKnowledgeChunkIds
    createdAt := m.createdAt
    sessionId := m.session }

/-- The payload of the records that were fetched. -/
def exportPayload (now : Date) (s : Store E) : ExportPayloadV1 E :=
  { version := 5
    exportedAt := now
    notes := s.notes.map exportNote
    knowledgeDocuments := some (s.documents.map exportDocument)
    knowledgeChunks := some (s.chunks.map exportChunk)
    chatSessions := some (s.sessions.map exportSession)
    chatMessages := s.messages.map exportMessage }

/-- The five fetches of `exportZip`. -/
def fetchStore (c : BackupContext) (s : Store E) : Except BackupError (Store E) := do
  let notes ← c.fetch s.notes
  let documents ← c.fetch s.documents
  let chunks ← c.fetch s.chunks
  let sessions ← c.fetch s.sessions
  let messages ← c.fetch s.messages
  return ⟨notes, documents, chunks, sessions, messages⟩

/-- `archiveCreated` is whether the archive could be created. -/
def exportZip (codec : PayloadCodec E J) (c : BackupContext) (now : Date) (archiveCreated : Bool)
    (s : Store E) : Except BackupError (Archive J) := do
  let fetched ← fetchStore c s
  let exportData ← codec.encode (exportPayload now fetched)
  if archiveCreated then return ⟨some exportData⟩ else throw .failedToCreateArchive

/-! ## Import -/

def importNote (n : ExportNoteV1 E) : Note E :=
  { id := n.id
    title := n.title
    content := n.content
    createdAt := n.createdAt
    updatedAt := n.updatedAt
    tags := n.tags
    embedding := n.embedding
    embeddingModelId := n.embeddingModelId
    embeddingUpdatedAt := n.embeddingUpdatedAt
    embeddingContentHash := n.embeddingContentHash
    titleNormalized := n.titleNormalized
    contentTokenCount := n.contentTokenCount }

def importDocument (d : ExportKnowledgeDocumentV1) : KnowledgeDocument :=
  { id := d.id
    title := d.title
    sourceType := d.sourceType
    mimeType := d.mimeType
    localRelativePath := d.localRelativePath
    driveFileId := d.driveFileId
    extractionStatus := d.extractionStatus
    extractionError := d.extractionError
    extractionEngine := d.extractionEngine
    contentHash := d.contentHash
    createdAt := d.createdAt
    updatedAt := d.updatedAt }

def importChunk (documentsById : AList fun _ : UUID => KnowledgeDocument) (c : ExportKnowledgeChunkV1 E) :
    KnowledgeChunk E :=
  { id := c.id
    chunkIndex := c.chunkIndex
    pageNumber := c.pageNumber
    text := c.text
    embedding := c.embedding
    embeddingModelId := c.embeddingModelId
    embeddingUpdatedAt := c.embeddingUpdatedAt
    embeddingContentHash := c.embeddingContentHash
    tokenCount := c.tokenCount
    charCount := c.charCount
    sectionHint := c.sectionHint
    documentTitleNormalized := c.documentTitleNormalized
    createdAt := c.createdAt
    updatedAt := c.updatedAt
    document := c.documentId.bind fun id => documentsById.lookup id }

def importSession (s : ExportChatSessionV1) : ChatSession :=
  { id := s.id
    title := s.title
    createdAt := s.createdAt
    updatedAt := s.updatedAt }

def importMessage (sessionsById : AList fun _ : UUID => ChatSession) (fallbackSession : Option ChatSession)
    (m : ExportChatMessageV1) : ChatMessage :=
  { id := m.id
    role := m.role
    content := m.content
    thoughtProcess := m.thoughtProcess
    sourceNoteIds := m.sourceNoteIds
    sourceKnowledgeChunkIds := m.sourceKnowledgeChunkIds.getD []
    createdAt := m.createdAt
    session := ((m.sessionId.bind fun id => sessionsById.lookup id).or fallbackSession).map ChatSession.id }

/-- The insertions of `importZip`. -/
def importPayload (c : ImportContext) (p : ExportPayloadV1 E) (s : Store E) : Store E :=
  let documents := (p.knowledgeDocuments.getD []).map importDocument
  let documentsById := indexed KnowledgeDocument.id documents
  let sessions := (p.chatSessions.getD []).map importSession
  let sessionsById := indexed ChatSession.id sessions
  let legacy : Option ChatSession :=
    if !p.chatMessages.isEmpty && sessionsById.entries.isEmpty then
      some ⟨c.newId, "Legacy Chat", c.now, c.now⟩
    else none
  let fallbackSession := legacy.or (c.first (sessionsById.entries.map Sigma.snd))
  { notes := s.notes ++ p.notes.map importNote
    documents := s.documents ++ documents
    chunks := s.chunks ++ (p.knowledgeChunks.getD []).map (importChunk documentsById)
    sessions := s.sessions ++ sessions ++ legacy.toList
    messages := s.messages ++ p.chatMessages.map (importMessage sessionsById fallbackSession) }

theorem importPayload_messages (c : ImportContext) (p : ExportPayloadV1 E) (s : Store E) :
    ∃ fallbackSession, (importPayload c p s).messages = s.messages ++ p.chatMessages.map (importMessage
      (indexed ChatSession.id ((p.chatSessions.getD []).map importSession)) fallbackSession) := ⟨_, rfl⟩

/-- `archive` is what is at the URL, if it is an archive. -/
def importZip (codec : PayloadCodec E J) (c : ImportContext) (archive : Option (Archive J)) (s : Store E) :
    Except BackupError (Store E) :=
  match archive with
  | none => .error .failedToCreateArchive
  | some archive =>
    match archive.exportJSON with
    | none => .error .missingExportJSON
    | some data => do return importPayload c (← codec.decode data) s

end SynapsNotes.Backup
