import Mathlib.Data.Nat.Sqrt
import SynapsNotes.Data.Schema
import SynapsNotes.Foundation.Text

/-!
# What a retrieval is asked and what it returns

The retrieval profiles with their limits, the citations and the result of
`retrieveContext`. Scores are of a type `α` with the operations of `Float`
(`FloatLike`): nothing is assumed of its arithmetic, only that its values
(`NaN` left out, the two zeros one value) are linearly ordered, so what is
proved holds under any rounding. The rational numbers are the exact case.
-/

namespace SynapsNotes

/-- The operations of `Float` that the scores are computed with. -/
class FloatLike (α : Type) extends LinearOrder α, Add α, Sub α, Mul α, Div α where
  /-- The value of a literal. -/
  lit : ℚ → α
  sqrt : α → α

/-- `abs`. -/
def FloatLike.abs {α : Type} [FloatLike α] (x : α) : α := if x < lit 0 then lit 0 - x else x

/-- Exact arithmetic; the square root is exact on squares. -/
instance : FloatLike ℚ where
  lit q := q
  sqrt q := (Nat.sqrt q.num.toNat : ℚ) / (Nat.sqrt q.den : ℚ)

namespace Retrieval

inductive RAGRetrievalProfile
  | fastRecommended
  | balanced
  | deepSearch
  deriving DecidableEq

namespace RAGRetrievalProfile

def maxCandidates : RAGRetrievalProfile → Nat
  | fastRecommended => 20
  | balanced => 40
  | deepSearch => 80

def maxResults : RAGRetrievalProfile → Nat
  | fastRecommended => 3
  | balanced => 4
  | deepSearch => 5

def maxChunksPerDocument : RAGRetrievalProfile → Nat
  | fastRecommended => 1
  | balanced => 2
  | deepSearch => 2

variable {α : Type} [FloatLike α]

def semanticWeight : RAGRetrievalProfile → α
  | fastRecommended => FloatLike.lit 0.78
  | balanced => FloatLike.lit 0.75
  | deepSearch => FloatLike.lit 0.70

def lexicalWeight (p : RAGRetrievalProfile) : α := FloatLike.lit 1 - p.semanticWeight

def minimumFusedScore : RAGRetrievalProfile → α
  | fastRecommended => FloatLike.lit 0.42
  | balanced => FloatLike.lit 0.34
  | deepSearch => FloatLike.lit 0.28

def minimumSemanticScore (_ : RAGRetrievalProfile) : α := FloatLike.lit 0.65

/-- Every profile has room for a note and a chunk. -/
theorem two_le_maxResults (p : RAGRetrievalProfile) : 2 ≤ p.maxResults := by cases p <;> decide

theorem maxChunksPerDocument_pos (p : RAGRetrievalProfile) : 0 < p.maxChunksPerDocument := by
  cases p <;> decide

end RAGRetrievalProfile

inductive RetrievalConfidence
  | none
  | low
  | medium
  | high
  deriving DecidableEq

inductive SourceType
  | note
  | knowledgeChunk
  deriving DecidableEq

structure CitationRef where
  id : String
  sourceType : SourceType
  title : String
  chunkIndex : Option Int
  pageNumber : Option Int
  noteId : Option UUID
  chunkId : Option UUID
  snippet : String
  deriving DecidableEq

structure RetrievalResult (E α : Type) where
  selectedNotes : List (Note E)
  selectedChunks : List (KnowledgeChunk E)
  citations : List CitationRef
  confidence : RetrievalConfidence
  usedEmbeddings : Bool
  topScore : Option α

namespace RetrievalResult

variable {E α : Type}

def selectedCount (r : RetrievalResult E α) : Nat := r.selectedNotes.length + r.selectedChunks.length

/-- `RetrievalResult.empty`. -/
def empty : RetrievalResult E α := ⟨[], [], [], .none, false, Option.none⟩

end RetrievalResult

end Retrieval

end SynapsNotes
