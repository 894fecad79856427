import Mathlib.Data.Rat.Floor

/-!
# The records of the store

The five models of `SchemaV5`, and the store that holds them. A stored
embedding is of an arbitrary type: the vector itself where it is compared,
the vector with where it came from where its provenance matters.

A chunk refers to its document and a message to its session. A document's
fields never change once it is stored, so a chunk holds the document itself;
a session's do, so a message holds its id.
-/

namespace SynapsNotes

abbrev UUID := Nat

/-- Seconds since the reference date. -/
abbrev Date := ℚ

structure Note (E : Type) where
  id : UUID
  title : String
  content : String
  createdAt : Date
  updatedAt : Date
  tags : List String
  embedding : Option E
  embeddingModelId : Option String
  embeddingUpdatedAt : Option Date
  embeddingContentHash : Option String
  titleNormalized : Option String
  contentTokenCount : Option Int
  deriving DecidableEq

structure ChatSession where
  id : UUID
  title : String
  createdAt : Date
  updatedAt : Date
  deriving DecidableEq

structure ChatMessage where
  id : UUID
  role : String
  content : String
  thoughtProcess : Option String
  sourceNoteIds : List UUID
  sourceKnowledgeChunkIds : List UUID
  createdAt : Date
  session : Option UUID
  deriving DecidableEq

structure KnowledgeDocument where
  id : UUID
  title : String
  sourceType : String
  mimeType : String
  localRelativePath : String
  driveFileId : Option String
  extractionStatus : String
  extractionError : Option String
  extractionEngine : Option String
  contentHash : Option String
  createdAt : Date
  updatedAt : Date
  deriving DecidableEq

structure KnowledgeChunk (E : Type) where
  id : UUID
  chunkIndex : Int
  pageNumber : Option Int
  text : String
  embedding : Option E
  embeddingModelId : Option String
  embeddingUpdatedAt : Option Date
  embeddingContentHash : Option String
  tokenCount : Option Int
  charCount : Option Int
  sectionHint : Option String
  documentTitleNormalized : Option String
  createdAt : Date
  updatedAt : Date
  document : Option KnowledgeDocument
  deriving DecidableEq

/-- What a `ModelContext` stores. -/
structure Store (E : Type) where
  notes : List (Note E)
  documents : List KnowledgeDocument
  chunks : List (KnowledgeChunk E)
  sessions : List ChatSession
  messages : List ChatMessage
  deriving DecidableEq

def Store.empty (E : Type) : Store E := ⟨[], [], [], [], []⟩

end SynapsNotes
