import SynapsNotes.Data.Schema
import SynapsNotes.Foundation.Text
import SynapsNotes.Runtime.Llama

/-!
# Notes and chunks as indexed

The notes and chunks that tasks refer to, and the four fields that say what a
stored embedding was computed from: the embedding, the model id and the
content hash recorded with it. Notes and chunks are embedded and judged in
the same way; `entry` is what the two have in common.
-/

namespace SynapsNotes.Runtime

variable {α : Type}

/-- What the code calls and does not contain: the Unicode tables, and the
SHA-256 of a text's UTF-8 bytes, in hexadecimal. -/
structure Platform where
  unicode : Unicode
  sha256 : String → String

/-- A note or a chunk, by its id. -/
inductive Source
  | note (id : UUID)
  | chunk (id : UUID)
  deriving DecidableEq

namespace Source

def noteId? : Source → Option UUID
  | note id => some id
  | chunk _ => none

def chunkId? : Source → Option UUID
  | note _ => none
  | chunk id => some id

end Source

/-- What is embedded of a source, and what is recorded with its embedding. -/
structure Entry (α : Type) where
  text : String
  embedding : Option (Embedding α)
  embeddingModelId : Option ModelId
  embeddingContentHash : Option String

structure Records (α : Type) where
  notes : UUID → Note (Embedding α)
  chunks : UUID → KnowledgeChunk (Embedding α)

/-! ## Derived fields -/

def normalizedForSearch (U : Unicode) (text : String) : String :=
  String.ofList (Text.trimmingCharacters (U.lowercased text.toList))

def tokenCountEstimate (text : String) : Int :=
  ((text.toList.splitOnP isWhitespace).filter fun token => !token.isEmpty).length

def inferSectionHint (text : String) : Option String :=
  let lines := ((text.toList.splitOn '\n').filter fun line => !line.isEmpty).map Text.trimmingCharacters
  match lines with
  | [] => none
  | first :: _ =>
    if first.isEmpty then none
    else if 90 < first.length then none
    else
      let words := ((first.splitOn ' ').filter fun word => !word.isEmpty).length
      if 0 < words ∧ words ≤ 12 then some (String.ofList first) else none

/-! ## Freshness -/

/-- What is embedded of a note. -/
def textToEmbed (note : Note (Embedding α)) : String := note.title ++ "\n" ++ note.content

def noteContentHash (P : Platform) (note : Note (Embedding α)) : String := P.sha256 (textToEmbed note)

def knowledgeChunkContentHash (P : Platform) (chunk : KnowledgeChunk (Embedding α)) : String := P.sha256 chunk.text

/-- The checks that notes and chunks share, of the recorded fields, the
current model id and the hash of the current text. -/
def isEmbeddingFresh (embedding : Option (Embedding α)) (embeddingModelId : Option ModelId)
    (embeddingContentHash : Option String) (currentEmbeddingModelId : Option ModelId) (contentHash : String) : Bool :=
  match embedding with
  | none => false
  | some embedding =>
    if embedding.values.isEmpty then false
    else
      match embeddingModelId with
      | none => false
      | some modelId =>
        if some modelId ≠ currentEmbeddingModelId then false
        else
          match embeddingContentHash with
          | none => false
          | some savedHash => savedHash == contentHash

def isNoteEmbeddingFresh (P : Platform) (currentEmbeddingModelId : Option ModelId) (note : Note (Embedding α)) :
    Bool :=
  isEmbeddingFresh note.embedding note.embeddingModelId note.embeddingContentHash currentEmbeddingModelId
    (noteContentHash P note)

def isKnowledgeChunkEmbeddingFresh (P : Platform) (currentEmbeddingModelId : Option ModelId)
    (chunk : KnowledgeChunk (Embedding α)) : Bool :=
  isEmbeddingFresh chunk.embedding chunk.embeddingModelId chunk.embeddingContentHash currentEmbeddingModelId
    (knowledgeChunkContentHash P chunk)

/-- A fresh embedding is there, and its recorded id and hash are the current
ones. -/
theorem isEmbeddingFresh_iff {embedding : Option (Embedding α)} {embeddingModelId : Option ModelId}
    {embeddingContentHash : Option String} {currentEmbeddingModelId : Option ModelId} {contentHash : String} :
    isEmbeddingFresh embedding embeddingModelId embeddingContentHash currentEmbeddingModelId contentHash = true ↔
      (∃ e, embedding = some e ∧ e.values ≠ []) ∧
        (∃ id, embeddingModelId = some id ∧ currentEmbeddingModelId = some id) ∧
          embeddingContentHash = some contentHash := by
  unfold isEmbeddingFresh
  rcases embedding with _ | e
  · simp
  · by_cases he : e.values = []
    · simp [he]
    · rcases embeddingModelId with _ | id
      · simp [he]
      · by_cases hid : some id = currentEmbeddingModelId
        · rcases embeddingContentHash with _ | savedHash <;> simp [he, ← hid]
        · have hne : currentEmbeddingModelId ≠ some id := fun h => hid h.symm
          simp [he, hid, hne]

/-! ## Writing -/

/-- `markNoteEmbeddingStale`. -/
def markNoteEmbeddingStale (note : Note (Embedding α)) : Note (Embedding α) :=
  { note with
    embedding := none
    embeddingModelId := none
    embeddingUpdatedAt := none
    embeddingContentHash := none }

/-- What `indexSingleNote` writes once it has the embedding. -/
def storeNoteEmbedding (P : Platform) (now : Date) (embedding : Embedding α) (embeddingModelId : ModelId)
    (contentHash : String) (note : Note (Embedding α)) : Note (Embedding α) :=
  { note with
    embedding := some embedding
    embeddingModelId := some embeddingModelId
    embeddingUpdatedAt := some now
    embeddingContentHash := some contentHash
    titleNormalized := some (normalizedForSearch P.unicode note.title)
    contentTokenCount := some (tokenCountEstimate note.content) }

/-- What `indexSingleKnowledgeChunk` writes once it has the embedding. -/
def storeChunkEmbedding (P : Platform) (now : Date) (embedding : Embedding α) (embeddingModelId : ModelId)
    (contentHash : String) (chunk : KnowledgeChunk (Embedding α)) : KnowledgeChunk (Embedding α) :=
  { chunk with
    embedding := some embedding
    embeddingModelId := some embeddingModelId
    embeddingUpdatedAt := some now
    embeddingContentHash := some contentHash
    tokenCount := some (tokenCountEstimate chunk.text)
    charCount := some chunk.text.length
    sectionHint := inferSectionHint chunk.text
    documentTitleNormalized :=
      some (normalizedForSearch P.unicode ((chunk.document.map KnowledgeDocument.title).getD ""))
    updatedAt := now }

namespace Records

variable (r : Records α)

def entry : Source → Entry α
  | .note id =>
    { text := textToEmbed (r.notes id)
      embedding := (r.notes id).embedding
      embeddingModelId := (r.notes id).embeddingModelId
      embeddingContentHash := (r.notes id).embeddingContentHash }
  | .chunk id =>
    { text := (r.chunks id).text
      embedding := (r.chunks id).embedding
      embeddingModelId := (r.chunks id).embeddingModelId
      embeddingContentHash := (r.chunks id).embeddingContentHash }

/-- `noteContentHash` or `knowledgeChunkContentHash`. -/
def contentHash (P : Platform) : Source → String
  | .note id => noteContentHash P (r.notes id)
  | .chunk id => knowledgeChunkContentHash P (r.chunks id)

/-- `isNoteEmbeddingFresh` or `isKnowledgeChunkEmbeddingFresh`. -/
def isFresh (P : Platform) (currentEmbeddingModelId : Option ModelId) : Source → Bool
  | .note id => isNoteEmbeddingFresh P currentEmbeddingModelId (r.notes id)
  | .chunk id => isKnowledgeChunkEmbeddingFresh P currentEmbeddingModelId (r.chunks id)

def modifyNote (id : UUID) (f : Note (Embedding α) → Note (Embedding α)) : Records α :=
  { r with notes := Function.update r.notes id (f (r.notes id)) }

def setChunk (id : UUID) (chunk : KnowledgeChunk (Embedding α)) : Records α :=
  { r with chunks := Function.update r.chunks id chunk }

/-- `storeNoteEmbedding` or `storeChunkEmbedding`. -/
def storeEmbedding (P : Platform) (now : Date) (embedding : Embedding α) (embeddingModelId : ModelId)
    (contentHash : String) : Source → Records α
  | .note id => r.modifyNote id (storeNoteEmbedding P now embedding embeddingModelId contentHash)
  | .chunk id => r.setChunk id (storeChunkEmbedding P now embedding embeddingModelId contentHash (r.chunks id))

variable {r}

theorem contentHash_eq (P : Platform) (source : Source) : r.contentHash P source = P.sha256 (r.entry source).text := by
  cases source <;> rfl

theorem isFresh_iff {P : Platform} {current : Option ModelId} {source : Source} :
    r.isFresh P current source = true ↔
      (∃ e, (r.entry source).embedding = some e ∧ e.values ≠ []) ∧
        (∃ id, (r.entry source).embeddingModelId = some id ∧ current = some id) ∧
          (r.entry source).embeddingContentHash = some (P.sha256 (r.entry source).text) := by
  cases source <;> exact isEmbeddingFresh_iff

/-- Writing a note changes no other source. -/
theorem entry_modifyNote_of_ne {id : UUID} {f : Note (Embedding α) → Note (Embedding α)} {source : Source}
    (h : source ≠ .note id) : (r.modifyNote id f).entry source = r.entry source := by
  cases source with
  | note id' =>
    have hne : id' ≠ id := fun he => h (he ▸ rfl)
    simp only [entry, modifyNote, Function.update_of_ne hne]
  | chunk => rfl

theorem entry_setChunk_of_ne {id : UUID} {chunk : KnowledgeChunk (Embedding α)} {source : Source}
    (h : source ≠ .chunk id) : (r.setChunk id chunk).entry source = r.entry source := by
  cases source with
  | note => rfl
  | chunk id' =>
    have hne : id' ≠ id := fun he => h (he ▸ rfl)
    simp only [entry, setChunk, Function.update_of_ne hne]

/-- A stored embedding is stored with its id and hash, and changes no other
source. -/
theorem entry_storeEmbedding {P : Platform} {now : Date} {embedding : Embedding α} {embeddingModelId : ModelId}
    {contentHash : String} {source source' : Source} :
    (r.storeEmbedding P now embedding embeddingModelId contentHash source).entry source' =
      if source' = source then
        { text := (r.entry source).text
          embedding := some embedding
          embeddingModelId := some embeddingModelId
          embeddingContentHash := some contentHash }
      else r.entry source' := by
  split
  · rename_i h
    subst h
    cases source' <;>
      simp only [storeEmbedding, modifyNote, setChunk, entry, Function.update_self, storeNoteEmbedding,
        storeChunkEmbedding, textToEmbed]
  · rename_i h
    cases source with
    | note => exact entry_modifyNote_of_ne h
    | chunk => exact entry_setChunk_of_ne h

end Records

/-! ## Properties of the recorded fields -/

/-- A property of an entry that is about its embedding: it holds of an entry
without one, and whatever the text is. -/
structure OfEmbedding (Q : Entry α → Prop) : Prop where
  of_none : ∀ x, x.embedding = none → Q x
  of_text : ∀ x text, Q x → Q { x with text }

namespace OfEmbedding

variable {Q : Entry α → Prop} (hQ : OfEmbedding Q) {r : Records α} (hr : ∀ source, Q (r.entry source))

include hQ hr

/-- An edit changes the text only. -/
theorem editNote (id : UUID) (title content : String) (now : Date) (source : Source) :
    Q ((r.modifyNote id fun note => { note with title, content, updatedAt := now }).entry source) := by
  by_cases h : source = .note id
  · subst h
    simp only [Records.entry, Records.modifyNote, Function.update_self]
    exact hQ.of_text _ _ (hr (.note id))
  · rw [Records.entry_modifyNote_of_ne h]
    exact hr source

theorem markNoteEmbeddingStale (id : UUID) (source : Source) :
    Q ((r.modifyNote id Runtime.markNoteEmbeddingStale).entry source) := by
  by_cases h : source = .note id
  · subst h
    apply hQ.of_none
    simp only [Records.entry, Records.modifyNote, Function.update_self, Runtime.markNoteEmbeddingStale]
  · rw [Records.entry_modifyNote_of_ne h]
    exact hr source

theorem setChunk (id : UUID) {chunk : KnowledgeChunk (Embedding α)} (hchunk : chunk.embedding = none)
    (source : Source) : Q ((r.setChunk id chunk).entry source) := by
  by_cases h : source = .chunk id
  · subst h
    apply hQ.of_none
    simp only [Records.entry, Records.setChunk, Function.update_self, hchunk]
  · rw [Records.entry_setChunk_of_ne h]
    exact hr source

end OfEmbedding

/-- A stored embedding has the property if the three fields stored together
have it. -/
theorem forall_entry_storeEmbedding {Q : Entry α → Prop} {r : Records α} (hr : ∀ source, Q (r.entry source))
    {P : Platform} {now : Date} {embedding : Embedding α} {embeddingModelId : ModelId} {contentHash : String}
    {source : Source} (h : ∀ text, Q ⟨text, some embedding, some embeddingModelId, some contentHash⟩)
    (source' : Source) :
    Q ((r.storeEmbedding P now embedding embeddingModelId contentHash source).entry source') := by
  rw [Records.entry_storeEmbedding]
  split
  · exact h _
  · exact hr source'

end SynapsNotes.Runtime
