import SynapsNotes.Retrieval.Result
import Mathlib.Data.Finset.Card
import SynapsNotes.Framework.Pieces

/-!
# Scoring the sources of a retrieval

A note or chunk is scored by the words it shares with the query, and by the
cosine of its embedding with the query's where it is among the sources whose
embedding may be used. Batches are scored by several workers, which append
what they find to one list in the order they finish (`Schedule`).
-/

namespace SynapsNotes.Retrieval

variable {α : Type} [FloatLike α]

open Framework FloatLike

/-! ## The embedding -/

def dotProduct (v1 v2 : List α) : α := (v1.zip v2).foldl (fun result p => result + p.1 * p.2) (lit 0)

def l2Norm (v : List α) : α := FloatLike.sqrt (v.foldl (fun sumOfSquares value => sumOfSquares + value * value) (lit 0))

def cosineSimilarity (v1 : List α) (v1Norm : α) (v2 : List α) : α :=
  let v2Norm := l2Norm v2
  if v2Norm > lit 0 then dotProduct v1 v2 / (v1Norm * v2Norm) else lit 0

def scoreEmbedding (queryEmbedding candidateEmbedding : List α) : Option α :=
  if !queryEmbedding.isEmpty && queryEmbedding.length == candidateEmbedding.length then
    let qNorm := l2Norm queryEmbedding
    if qNorm > lit 0 then some (cosineSimilarity queryEmbedding qNorm candidateEmbedding) else none
  else none

/-! ## The words -/

def stopWords : List String :=
  ["a", "an", "and", "are", "as", "at", "be", "but", "by", "for", "from",
    "how", "i", "in", "is", "it", "me", "my", "of", "on", "or", "our", "that",
    "the", "their", "there", "they", "this", "to", "was", "we", "what", "when",
    "where", "which", "who", "why", "with", "you", "your"]

def normalizeText (U : Unicode) (text : Text) : Text := Text.trimmingCharacters (U.lowercased text)

def tokenize (U : Unicode) (text : Text) : Finset Text :=
  let normalized := normalizeText U text
  let components := normalized.splitOnP fun c => !U.alphanumerics c
  (components.filter fun token => decide (2 ≤ token.length) && !(stopWords.map String.toList).contains token).toFinset

def fingerprintKey (U : Unicode) (sourceTitle sourceText : String) : Text :=
  (normalizeText U (sourceTitle.toList ++ " ".toList ++ sourceText.toList)).take 180

def lexicalScore (U : Unicode) (queryTokens : Finset Text) (normalizedQuery : Text) (title body : String) : α :=
  if queryTokens = ∅ then lit 0
  else
    let normalizedTitle := normalizeText U title.toList
    let normalizedBody := normalizeText U body.toList
    let titleOverlap := (queryTokens ∩ tokenize U normalizedTitle).card
    let bodyOverlap := (queryTokens ∩ tokenize U normalizedBody).card
    if titleOverlap = 0 ∧ bodyOverlap = 0 then lit 0
    else
      let tokenDenominator : α := lit (max 1 queryTokens.card : ℕ)
      let score := lit bodyOverlap / tokenDenominator * lit 0.7
      let score := score + lit titleOverlap / tokenDenominator * lit 0.5
      let score :=
        if 8 ≤ normalizedQuery.length ∧
            (normalizedTitle ≠ [] ∧ Text.containsText normalizedQuery normalizedTitle ∨
              normalizedBody ≠ [] ∧ Text.containsText normalizedQuery normalizedBody) then
          score + lit 0.15
        else score
      min (lit 1) score

/-! ## The candidates -/

inductive CandidateSource (α : Type)
  | note (note : Note (List α))
  | chunk (chunk : KnowledgeChunk (List α))
  deriving DecidableEq

namespace CandidateSource

variable {β : Type}

def isNote : CandidateSource β → Bool
  | note _ => true
  | chunk _ => false

def note? : CandidateSource β → Option (Note (List β))
  | note n => some n
  | chunk _ => none

def chunk? : CandidateSource β → Option (KnowledgeChunk (List β))
  | note _ => none
  | chunk c => some c

end CandidateSource

structure ScoredCandidate (α : Type) where
  source : CandidateSource α
  fusedScore : α
  lexicalScore : α
  usedSemantic : Bool
  fingerprint : Text
  documentId : Option UUID

/-- What the sources are scored against. -/
structure Query (α : Type) where
  queryEmbedding : Option (List α)
  queryTokens : Finset Text
  normalizedQuery : Text
  noteBoosts : UUID → Option α
  chunkBoosts : UUID → Option α
  semanticNoteIds : Finset UUID
  semanticChunkIds : Finset UUID
  profile : RAGRetrievalProfile

/-- `semanticScore(for:)`, of a note or a chunk: its id, its embedding and the
ids whose embeddings may be used. -/
def semanticScore (id : UUID) (embedding queryEmbedding : Option (List α)) (semanticIds : Finset UUID) :
    Option α :=
  if id ∈ semanticIds then
    match queryEmbedding, embedding with
    | some queryEmbedding, some embedding =>
      if embedding.length = queryEmbedding.length then scoreEmbedding queryEmbedding embedding else none
    | _, _ => none
  else none

def fusedScore (semantic : Option α) (lexical : α) (profile : RAGRetrievalProfile) : Option α :=
  match semantic with
  | some semantic =>
    if semantic < profile.minimumSemanticScore ∧ lexical ≤ lit 0 then none
    else some (max (lit 0) (semantic * profile.semanticWeight + lexical * profile.lexicalWeight))
  | none => if lexical > lit 0 then some (lexical * lit 0.65) else none

def adjustedFusedScore (score boost : α) : α :=
  let clampedBoost := max (lit (-0.2)) (min (lit 0.2) boost)
  max (lit 0) (min (lit 1.2) (score + clampedBoost))

/-- The closure of `scoreNoteBatch`. -/
def scoreNote (U : Unicode) (q : Query α) (note : Note (List α)) : Option (ScoredCandidate α) :=
  let semantic := semanticScore note.id note.embedding q.queryEmbedding q.semanticNoteIds
  let lexical := lexicalScore U q.queryTokens q.normalizedQuery note.title note.content
  (fusedScore semantic lexical q.profile).map fun fused =>
    { source := .note note
      fusedScore := adjustedFusedScore fused ((q.noteBoosts note.id).getD (lit 0))
      lexicalScore := lexical
      usedSemantic := semantic.isSome
      fingerprint := fingerprintKey U note.title note.content
      documentId := none }

/-- The closure of `scoreChunkBatch`. -/
def scoreChunk (U : Unicode) (q : Query α) (chunk : KnowledgeChunk (List α)) : Option (ScoredCandidate α) :=
  let semantic := semanticScore chunk.id chunk.embedding q.queryEmbedding q.semanticChunkIds
  let title := (chunk.document.map KnowledgeDocument.title).getD ""
  let lexical := lexicalScore U q.queryTokens q.normalizedQuery title chunk.text
  (fusedScore semantic lexical q.profile).map fun fused =>
    { source := .chunk chunk
      fusedScore := adjustedFusedScore fused ((q.chunkBoosts chunk.id).getD (lit 0))
      lexicalScore := lexical
      usedSemantic := semantic.isSome
      fingerprint := fingerprintKey U title chunk.text
      documentId := chunk.document.map KnowledgeDocument.id }

/-! ## The batches -/

/-- The machine the batches are scored on: its processors, and the order in
which the workers of a batch (told apart by kind and start) finish. -/
structure Schedule where
  processorCount : Nat
  completion : SourceType → Nat → List Nat → List Nat
  completion_perm : ∀ kind start workers, (completion kind start workers).Perm workers

def scoringBatchSize : Nat := 500

/-- `parallelScoreBatch`, of the elements of a batch. -/
def parallelScoreBatch {β γ : Type} (sched : Schedule) (kind : SourceType) (batchStart : Nat)
    (scorer : β → Option γ) (batch : List β) : List γ :=
  let count := batch.length
  if count = 0 then []
  else
    let workerCount := min (max 1 sched.processorCount) count
    if workerCount ≤ 1 then batch.filterMap scorer
    else
      let bucketSize := (count + workerCount - 1) / workerCount
      (sched.completion kind batchStart (List.range workerCount)).flatMap fun worker =>
        (piece bucketSize batch worker).filterMap scorer

/-- The batches of one kind of source, one after another. -/
def scoreBatches {β γ : Type} (sched : Schedule) (kind : SourceType) (scorer : β → Option γ)
    (sources : List β) : List γ :=
  (List.range ((sources.length + scoringBatchSize - 1) / scoringBatchSize)).flatMap fun i =>
    parallelScoreBatch sched kind (i * scoringBatchSize) scorer (piece scoringBatchSize sources i)

def scoreCandidates (U : Unicode) (sched : Schedule) (q : Query α) (notes : List (Note (List α)))
    (chunks : List (KnowledgeChunk (List α))) : List (ScoredCandidate α) :=
  scoreBatches sched .note (scoreNote U q) notes ++ scoreBatches sched .knowledgeChunk (scoreChunk U q) chunks

section Batches

variable {β γ : Type} (sched : Schedule) (kind : SourceType) (scorer : β → Option γ)

/-- However the workers finish, a batch yields what its elements score. -/
theorem parallelScoreBatch_perm (batchStart : Nat) (batch : List β) :
    (parallelScoreBatch sched kind batchStart scorer batch).Perm (batch.filterMap scorer) := by
  simp only [parallelScoreBatch]
  split
  · rename_i h
    rw [List.eq_nil_of_length_eq_zero h]
    rfl
  · split
    · exact .refl _
    · rename_i hcount hworkers
      refine filterMap_pieces_perm scorer (sched.completion_perm _ _ _) ?_
      rw [Nat.mul_comm]
      exact length_le_ceil_mul (by omega) _

theorem scoreBatches_perm (sources : List β) :
    (scoreBatches sched kind scorer sources).Perm (sources.filterMap scorer) := by
  refine (List.Perm.flatMap_left _ fun i _ => parallelScoreBatch_perm sched kind scorer _ _).trans ?_
  exact filterMap_pieces_perm scorer (.refl _) (length_le_ceil_mul (by decide) _)

end Batches

/-- The score of a source, by its kind. -/
def scoreSource (U : Unicode) (q : Query α) : CandidateSource α → Option (ScoredCandidate α)
  | .note note => scoreNote U q note
  | .chunk chunk => scoreChunk U q chunk

/-- A candidate is the score of its own source. -/
theorem scoreSource_source {U : Unicode} {q : Query α} {source : CandidateSource α} {c : ScoredCandidate α}
    (h : scoreSource U q source = some c) : c.source = source := by
  cases source <;> obtain ⟨_, _, rfl⟩ := Option.map_eq_some_iff.mp h <;> rfl

/-- The candidates are the scores of the sources, on any schedule. -/
theorem scoreCandidates_perm (U : Unicode) (sched : Schedule) (q : Query α) (notes : List (Note (List α)))
    (chunks : List (KnowledgeChunk (List α))) :
    (scoreCandidates U sched q notes chunks).Perm
      ((notes.map CandidateSource.note ++ chunks.map CandidateSource.chunk).filterMap (scoreSource U q)) := by
  rw [List.filterMap_append, List.filterMap_map, List.filterMap_map]
  exact (scoreBatches_perm sched _ _ notes).append (scoreBatches_perm sched _ _ chunks)

end SynapsNotes.Retrieval
