import SynapsNotes.Knowledge.Extraction
import SynapsNotes.Runtime.ViewModel

/-!
# From a file to the records of the knowledge base

`KnowledgeStorage` copies a file under a fresh name, `KnowledgeIngestionService`
extracts its text and cuts it into chunks, and `persistIngestedDocument` makes
a document and its chunks of that. Each part is a function of its own, since
the import waits between them.
-/

namespace SynapsNotes.Knowledge

open SynapsNotes.Runtime

inductive KnowledgeSourceType
  | localFile
  | photo
  | drive
  deriving DecidableEq

def KnowledgeSourceType.rawValue : KnowledgeSourceType → String
  | localFile => "local_file"
  | photo => "photo"
  | drive => "drive"

/-- A URL, taken apart: its last component, its extension, and the last
component without it. -/
structure SourceURL where
  lastPathComponent : String
  pathExtension : Text
  stem : String
  deriving DecidableEq

/-- What the ingestion uses of the system besides: the strings of ids, which
differ and have no dot, the types registered for an extension and a MIME type,
the URL of a path, and the repair of bytes that are no UTF-8. -/
structure Services extends Platform where
  uuidString : UUID → String
  uuidString_injective : Function.Injective uuidString
  dot_notMem_uuidString (id : UUID) : '.' ∉ (uuidString id).toList
  preferredMIMEType : Text → Option String
  preferredFilenameExtension : String → Option Text
  fileURLWithPath : String → SourceURL
  decoding : Bytes → Text

/-- Services for texts in ASCII; the digests are those of "a", "b" and the two
as paragraphs, the strings those of ids of one digit, and the paths have one
component. -/
def Services.ascii : Services where
  unicode := .ascii
  sha256 text :=
    if text = "a" then "ca978112ca1bbdcafac231b39a23dc4da786eff8147c4e72b9807785afee48bb"
    else if text = "b" then "3e23e8160039594a33894f6564e1b1348bbd7a0088d42c4acb73eeaed59c009d"
    else "38022fd2b8dbc5cb3d2cee74e083edbf59e3d4e13d067ebcb5db633d4cff4d8c"
  uuidString id := "00000000-0000-0000-0000-00000000000" ++ id.repr
  uuidString_injective a b h := by
    have hdigits : Nat.toDigits 10 a = Nat.toDigits 10 b := by
      simpa [String.toList_append, Nat.toList_repr] using congrArg String.toList h
    rw [← Nat.ofDigitChars_ten_toDigits (n := a), hdigits, Nat.ofDigitChars_ten_toDigits]
  dot_notMem_uuidString id h := by
    rw [String.toList_append, Nat.toList_repr] at h
    rcases List.mem_append.mp h with h | h
    · exact absurd h (by decide)
    · exact absurd (Nat.isDigit_of_mem_toDigits (by decide) (by decide) h) (by decide)
  preferredMIMEType pathExtension := if pathExtension = "pdf".toList then some "application/pdf" else none
  preferredFilenameExtension mimeType := if mimeType = "application/pdf" then some "pdf".toList else none
  fileURLWithPath path :=
    let stem := path.toList.takeWhile (· ≠ '.')
    ⟨path, path.toList.drop (stem.length + 1), String.ofList stem⟩
  decoding data := data.map fun byte => Char.ofNat byte.toNat

structure StoredKnowledgeFile where
  title : String
  mimeType : String
  relativePath : String
  /-- The extension of `absoluteURL`. -/
  pathExtension : Text

variable (S : Services)

/-! ## Storing -/

def fileName (id : UUID) (pathExtension : Text) : String :=
  S.uuidString id ++ "." ++ String.ofList pathExtension

variable {S} in
/-- Files stored under different ids have different names. -/
theorem id_of_fileName {a b : UUID} {e e' : Text} (h : fileName S a e = fileName S b e') : a = b := by
  have hlist := congrArg String.toList h
  simp only [fileName, String.toList_append, List.append_assoc] at hlist
  refine S.uuidString_injective (String.toList_inj.mp ?_)
  have hstem (id : UUID) (e : List Char) :
      ((S.uuidString id).toList ++ ('.' :: e)).takeWhile (· ≠ '.') = (S.uuidString id).toList := by
    rw [List.takeWhile_append_of_pos fun c hc => ?_]
    · simp
    · rw [decide_eq_true_eq]
      rintro rfl
      exact S.dot_notMem_uuidString id hc
  exact (hstem a _).symm.trans ((congrArg _ hlist).trans (hstem b _))

/-- `storeImportedFile`, once the file is copied. -/
def storeImportedFile (id : UUID) (sourceURL : SourceURL) : StoredKnowledgeFile :=
  let ext := S.unicode.lowercased sourceURL.pathExtension
  let storedExtension := if ext.isEmpty then "bin".toList else ext
  { title := if (trimmed sourceURL.stem).isEmpty then sourceURL.lastPathComponent else sourceURL.stem
    mimeType := (S.preferredMIMEType ext).getD "application/octet-stream"
    relativePath := fileName S id storedExtension
    pathExtension := storedExtension }

/-- `storeImageData`, once the data is written. -/
def storeImageData (id : UUID) (suggestedName : SourceURL) : StoredKnowledgeFile :=
  let ext := S.unicode.lowercased suggestedName.pathExtension
  let storedExtension := if ext.isEmpty then "jpg".toList else ext
  { title := if suggestedName.stem.isEmpty then "Imported Image" else suggestedName.stem
    mimeType := (S.preferredMIMEType ext).getD "image/jpeg"
    relativePath := fileName S id storedExtension
    pathExtension := storedExtension }

/-! ## Ingestion -/

structure IngestedKnowledgeDocument where
  title : String
  mimeType : String
  relativePath : String
  sourceType : KnowledgeSourceType
  driveFileId : Option String
  extractionResult : DocumentExtractionResult
  chunks : List ChunkedTextUnit
  contentHash : String

/-- The chunks of what was extracted. -/
def ingestedChunks (extraction : DocumentExtractionResult) : List ChunkedTextUnit :=
  match extraction.pages with
  | some (page :: pages) => chunkPagesWithMetadata S.unicode (page :: pages) 800 120
  | _ => chunkWithMetadata S.unicode extraction.text 800 120

/-- The rest of `ingestLocalFile` and `ingestImageData`, once the file is
stored. -/
def ingestStored (choice : OCRChoice) (stored : StoredKnowledgeFile) (title : String)
    (sourceType : KnowledgeSourceType) (driveFileId : Option String) (file : FileAnswers) :
    Except NSError IngestedKnowledgeDocument := do
  let extraction ← extractText S.unicode S.decoding choice stored.mimeType stored.pathExtension file
  return {
    title
    mimeType := stored.mimeType
    relativePath := stored.relativePath
    sourceType
    driveFileId
    extractionResult := extraction
    chunks := ingestedChunks S extraction
    contentHash := S.sha256 (String.ofList extraction.text) }

variable {S} in
theorem relativePath_of_ingestStored {choice : OCRChoice} {stored : StoredKnowledgeFile} {title : String}
    {sourceType : KnowledgeSourceType} {driveFileId : Option String} {file : FileAnswers}
    {ingested : IngestedKnowledgeDocument}
    (h : ingestStored S choice stored title sourceType driveFileId file = .ok ingested) :
    ingested.relativePath = stored.relativePath := by
  rw [ingestStored] at h
  cases he : extractText S.unicode S.decoding choice stored.mimeType stored.pathExtension file with
  | error e => simp [he, bind, Except.bind] at h
  | ok extraction =>
    simp only [he, bind, Except.bind, pure, Except.pure, Except.ok.injEq] at h
    rw [← h]

/-- `copied` is what the file system answers to the copying. -/
def ingestLocalFile (choice : OCRChoice) (id : UUID) (sourceURL : SourceURL)
    (sourceType : KnowledgeSourceType) (driveFileId : Option String) (copied : Except NSError Unit)
    (file : FileAnswers) : Except NSError IngestedKnowledgeDocument := do
  copied
  let stored := storeImportedFile S id sourceURL
  let title := if stored.title.isEmpty then sourceURL.lastPathComponent else stored.title
  ingestStored S choice stored title sourceType driveFileId file

def ingestImageData (choice : OCRChoice) (id : UUID) (suggestedName : SourceURL)
    (written : Except NSError Unit) (file : FileAnswers) : Except NSError IngestedKnowledgeDocument := do
  written
  let stored := storeImageData S id suggestedName
  ingestStored S choice stored stored.title .photo none file

/-- The title that `importSingleKnowledgeFile` puts in place of the stored
one. -/
def withPreferredTitle (preferredTitle : Option String) (ingested : IngestedKnowledgeDocument) :
    IngestedKnowledgeDocument :=
  match preferredTitle with
  | some title => if (trimmed title).isEmpty then ingested else { ingested with title }
  | none => ingested

@[simp] theorem withPreferredTitle_relativePath (preferredTitle : Option String)
    (ingested : IngestedKnowledgeDocument) :
    (withPreferredTitle preferredTitle ingested).relativePath = ingested.relativePath := by
  cases preferredTitle with
  | none => rfl
  | some title =>
    simp only [withPreferredTitle]
    split <;> rfl

/-! ## Records -/

/-- The document that `persistIngestedDocument` inserts. -/
def newDocument (id : UUID) (now : Date) (ingested : IngestedKnowledgeDocument) : KnowledgeDocument where
  id
  title := ingested.title
  sourceType := ingested.sourceType.rawValue
  mimeType := ingested.mimeType
  localRelativePath := ingested.relativePath
  driveFileId := ingested.driveFileId
  extractionStatus := if ingested.chunks.isEmpty then "empty" else "ready"
  extractionError := if ingested.chunks.isEmpty then some "No text extracted" else none
  extractionEngine := some ingested.extractionResult.engine
  contentHash := some ingested.contentHash
  createdAt := now
  updatedAt := now

/-- The chunk that `persistIngestedDocument` inserts, without an embedding. -/
def newKnowledgeChunk {E : Type} (id : UUID) (now : Date) (document : KnowledgeDocument) (index : ℕ)
    (chunk : ChunkedTextUnit) : KnowledgeChunk E where
  id
  chunkIndex := index
  pageNumber := chunk.pageNumber.map Int.ofNat
  text := String.ofList chunk.text
  embedding := none
  embeddingModelId := none
  embeddingUpdatedAt := none
  embeddingContentHash := none
  tokenCount := some (tokenCountEstimate (String.ofList chunk.text))
  charCount := some chunk.text.length
  sectionHint := inferSectionHint (String.ofList chunk.text)
  documentTitleNormalized := some (normalizedForSearch S.unicode document.title)
  createdAt := now
  updatedAt := now
  document := some document

/-- The indexing tasks insert the same chunk. -/
theorem newKnowledgeChunk_eq_newChunk {α : Type} (id : UUID) (now : Date) (document : KnowledgeDocument)
    (index : ℕ) (chunk : ChunkedTextUnit) :
    newKnowledgeChunk (E := Embedding α) S id now document index chunk =
      ViewModel.newChunk S.toPlatform now document index
        ⟨id, chunk.pageNumber.map Int.ofNat, String.ofList chunk.text⟩ := by
  simp [newKnowledgeChunk, ViewModel.newChunk, String.length]

end SynapsNotes.Knowledge
