import SynapsNotes.Retrieval.Selection
import SynapsNotes.Framework.Sort
import Mathlib.Data.Prod.Lex
import Mathlib.Order.Bounds.Basic

/-!
# The retrieval pipeline

`retrieveContext` scores the sources, keeps the best candidates, selects
among them and returns the selection in the order of the scores. The top
score and the confidence it reports are those of the candidate selected
first, which is not always the best one (`topIsMaximum_iff`).
-/

namespace SynapsNotes.Retrieval

open Framework FloatLike

variable {α : Type} [FloatLike α]

/-- The order of the candidates, the better one first. -/
def ranksBefore (lhs rhs : ScoredCandidate α) : Bool :=
  if lhs.fusedScore = rhs.fusedScore then decide (lhs.lexicalScore > rhs.lexicalScore)
  else decide (lhs.fusedScore > rhs.fusedScore)

/-- The candidates the selection is made from: the best that reach the
minimum, or the very best if it comes near it. -/
def activeCandidates (profile : RAGRetrievalProfile) (candidates : List (ScoredCandidate α)) :
    List (ScoredCandidate α) :=
  let ranked := (sortedBy ranksBefore candidates).take profile.maxCandidates
  let filtered := ranked.filter fun c => decide (c.fusedScore ≥ profile.minimumFusedScore)
  if filtered.isEmpty then
    match ranked with
    | [] => []
    | top :: _ =>
      let relaxedThreshold := profile.minimumFusedScore * lit 0.75
      if top.fusedScore < relaxedThreshold ∧ (!top.usedSemantic ∨ top.lexicalScore < lit 0.45) then [] else [top]
  else filtered

def confidenceLevel (topScore : Option α) (count : Nat) : RetrievalConfidence :=
  match topScore with
  | none => .none
  | some topScore =>
    if count = 0 then .none
    else if topScore ≥ lit 0.74 ∨ (topScore ≥ lit 0.66 ∧ 2 ≤ count) then .high
    else if topScore ≥ lit 0.54 then .medium
    else if topScore ≥ lit 0.40 then .low
    else .none

def contextSnippet (text : String) : String := trimmed (prefixOf 550 text)

def resolvedNoteTitle (note : Note (List α)) : String :=
  let title := trimmed note.title
  if title.isEmpty then "Untitled Note" else title

/-- The citation of the source at `index`. -/
def citation (index : Nat) : CandidateSource α → CitationRef
  | .note note =>
    { id := "S" ++ toString (index + 1)
      sourceType := .note
      title := resolvedNoteTitle note
      chunkIndex := none
      pageNumber := none
      noteId := some note.id
      chunkId := none
      snippet := contextSnippet note.content }
  | .chunk chunk =>
    let rawTitle := (chunk.document.map fun d => trimmed d.title).getD ""
    { id := "S" ++ toString (index + 1)
      sourceType := .knowledgeChunk
      title := if rawTitle.isEmpty then "Document" else rawTitle
      chunkIndex := some (chunk.chunkIndex + 1)
      pageNumber := chunk.pageNumber
      noteId := none
      chunkId := some chunk.id
      snippet := contextSnippet chunk.text }

/-- The result of a selection that is not empty. -/
def assemble (embeddingEnabled : Bool) (selected : List (ScoredCandidate α)) : RetrievalResult (List α) α :=
  let topScore := selected.head?.map ScoredCandidate.fusedScore
  let ordered := (sortedBy (fun a b => decide (a.fusedScore > b.fusedScore)) selected).map ScoredCandidate.source
  { selectedNotes := ordered.filterMap CandidateSource.note?
    selectedChunks := ordered.filterMap CandidateSource.chunk?
    citations := ordered.mapIdx citation
    confidence := confidenceLevel topScore selected.length
    usedEmbeddings := embeddingEnabled
    topScore }

/-- The arguments of `retrieveContext` besides the sources. -/
structure Request (α : Type) where
  queryText : String
  queryEmbedding : Option (List α)
  noteBoosts : UUID → Option α
  chunkBoosts : UUID → Option α
  semanticNoteIds : Finset UUID
  semanticChunkIds : Finset UUID
  profile : RAGRetrievalProfile

/-- What the sources are scored against, for a request. -/
def Request.query (U : Unicode) (req : Request α) : Query α :=
  let query := Text.trimmingCharacters req.queryText.toList
  { queryEmbedding := req.queryEmbedding
    queryTokens := tokenize U query
    normalizedQuery := normalizeText U query
    noteBoosts := req.noteBoosts
    chunkBoosts := req.chunkBoosts
    semanticNoteIds := req.semanticNoteIds
    semanticChunkIds := req.semanticChunkIds
    profile := req.profile }

def retrieveContext (U : Unicode) (sched : Schedule) (req : Request α) (notes : List (Note (List α)))
    (chunks : List (KnowledgeChunk (List α))) : RetrievalResult (List α) α :=
  if (Text.trimmingCharacters req.queryText.toList).isEmpty then .empty
  else
    let embeddingEnabled := req.queryEmbedding.any fun v => !v.isEmpty
    let candidates := scoreCandidates U sched (req.query U) notes chunks
    if candidates.isEmpty then .empty
    else
      let selected := diversifyAndBalance (activeCandidates req.profile candidates) req.profile
      if selected.isEmpty then .empty else assemble embeddingEnabled selected

/-! ## The order of the candidates -/

theorem ranksBefore_iff (a b : ScoredCandidate α) : ranksBefore a b = true ↔
    OrderDual.toDual (toLex (a.fusedScore, a.lexicalScore)) <
      OrderDual.toDual (toLex (b.fusedScore, b.lexicalScore)) := by
  rw [OrderDual.toDual_lt_toDual, Prod.Lex.toLex_lt_toLex]
  unfold ranksBefore
  split
  · rename_i h
    simp [h]
  · rename_i h
    simp [Ne.symm h]

theorem descending_sortedBy_ranksBefore (candidates : List (ScoredCandidate α)) :
    Descending (sortedBy ranksBefore candidates) := by
  rw [sortedBy_eq_sortOn ranksBefore_iff]
  refine (sortOn_sorted _ candidates).imp fun {a b} h => ?_
  exact ((Prod.Lex.le_iff.mp (OrderDual.toDual_le_toDual.mp h)).elim le_of_lt fun h => h.1.le)

theorem activeCandidates_sublist (profile : RAGRetrievalProfile) (candidates : List (ScoredCandidate α)) :
    (activeCandidates profile candidates).Sublist (sortedBy ranksBefore candidates) := by
  have htake := List.take_sublist profile.maxCandidates (sortedBy ranksBefore candidates)
  simp only [activeCandidates]
  split
  · split
    · exact List.nil_sublist _
    · rename_i top rest hr
      rw [hr] at htake
      split
      · exact List.nil_sublist _
      · exact (List.singleton_sublist.mpr List.mem_cons_self).trans htake
  · exact List.filter_sublist.trans htake

theorem descending_activeCandidates (profile : RAGRetrievalProfile) (candidates : List (ScoredCandidate α)) :
    Descending (activeCandidates profile candidates) :=
  (descending_sortedBy_ranksBefore candidates).sublist (activeCandidates_sublist profile candidates)

/-! ## The result -/

/-- The sources returned. -/
def RetrievalResult.sources (r : RetrievalResult (List α) α) : List (CandidateSource α) :=
  r.selectedNotes.map .note ++ r.selectedChunks.map .chunk

/-- The fused scores of the sources returned. -/
def returnedScores (U : Unicode) (q : Query α) (r : RetrievalResult (List α) α) : List α :=
  (r.sources.filterMap (scoreSource U q)).map ScoredCandidate.fusedScore

/-- The top score is the greatest score of a returned source and the score of
the source cited first, and the confidence goes by it and by the number of
sources. -/
def TopIsMaximum (U : Unicode) (q : Query α) (r : RetrievalResult (List α) α) : Prop :=
  ∃ top, r.topScore = some top ∧ IsGreatest {x | x ∈ returnedScores U q r} top ∧
    (∃ source ∈ r.sources, (scoreSource U q source).map ScoredCandidate.fusedScore = some top ∧
      r.citations.head? = some (citation 0 source)) ∧
    r.confidence = confidenceLevel (some top) r.selectedCount

section Assemble

variable {U : Unicode} {q : Query α} {selected : List (ScoredCandidate α)} (embeddingEnabled : Bool)

/-- The sources of the selection, each once. -/
theorem assemble_sources_perm (selected : List (ScoredCandidate α)) :
    (assemble embeddingEnabled selected).sources.Perm (selected.map ScoredCandidate.source) := by
  have hsplit : ∀ l : List (CandidateSource α),
      ((l.filterMap CandidateSource.note?).map CandidateSource.note ++
        (l.filterMap CandidateSource.chunk?).map CandidateSource.chunk).Perm l := by
    intro l
    induction l with
    | nil => exact .refl _
    | cons x l ih =>
      cases x with
      | note n => exact ih.cons _
      | chunk c => exact List.perm_middle.trans (ih.cons _)
  exact (hsplit _).trans ((List.perm_insertionSort _ selected).map _)

theorem assemble_selectedCount (selected : List (ScoredCandidate α)) :
    (assemble embeddingEnabled selected).selectedCount = selected.length := by
  have h := (assemble_sources_perm embeddingEnabled selected).length_eq
  rwa [RetrievalResult.sources, List.length_append, List.length_map, List.length_map, List.length_map] at h

theorem mem_returnedScores_assemble (hs : ∀ c ∈ selected, scoreSource U q c.source = some c) {x : α} :
    x ∈ returnedScores U q (assemble embeddingEnabled selected) ↔ ∃ c ∈ selected, c.fusedScore = x := by
  have hperm := (assemble_sources_perm embeddingEnabled selected).filterMap (scoreSource U q)
  have hself : selected.filterMap (scoreSource U q ∘ ScoredCandidate.source) = selected :=
    (List.filterMap_congr hs).trans List.filterMap_some
  rw [List.filterMap_map, hself] at hperm
  rw [returnedScores, (hperm.map _).mem_iff, List.mem_map]

/-- The first source cited is one of the best. -/
theorem assemble_citations_head (hne : selected ≠ []) : ∃ c ∈ selected,
    (∀ d ∈ selected, d.fusedScore ≤ c.fusedScore) ∧
      (assemble embeddingEnabled selected).citations.head? = some (citation 0 c.source) := by
  have hsorted : sortedBy (fun a b : ScoredCandidate α => decide (a.fusedScore > b.fusedScore)) selected =
      sortOn (fun c => OrderDual.toDual c.fusedScore) selected :=
    sortedBy_eq_sortOn (fun a b => by rw [decide_eq_true_eq, OrderDual.toDual_lt_toDual]) _
  have hcit : (assemble embeddingEnabled selected).citations = ((sortOn (fun c : ScoredCandidate α =>
      OrderDual.toDual c.fusedScore) selected).map ScoredCandidate.source).mapIdx citation := by
    rw [← hsorted]
    rfl
  have hord := sortOn_sorted (fun c : ScoredCandidate α => OrderDual.toDual c.fusedScore) selected
  have hperm := sortOn_perm (fun c : ScoredCandidate α => OrderDual.toDual c.fusedScore) selected
  cases hl : sortOn (fun c : ScoredCandidate α => OrderDual.toDual c.fusedScore) selected with
  | nil =>
    rw [hl] at hperm
    exact absurd hperm.symm.eq_nil hne
  | cons c cs =>
    rw [hl] at hord hperm
    refine ⟨c, hperm.mem_iff.mp List.mem_cons_self, fun d hd => ?_, ?_⟩
    · rcases List.mem_cons.mp (hperm.mem_iff.mpr hd) with rfl | hd
      · exact le_refl _
      · exact OrderDual.toDual_le_toDual.mp ((List.pairwise_cons.mp hord).1 d hd)
    · rw [hcit, hl, List.map_cons, List.mapIdx_cons]
      rfl

theorem topIsMaximum_assemble_iff (hs : ∀ c ∈ selected, scoreSource U q c.source = some c) (hne : selected ≠ []) :
    TopIsMaximum U q (assemble embeddingEnabled selected) ↔
      ∀ top ∈ selected.head?, ∀ c ∈ selected, c.fusedScore ≤ top.fusedScore := by
  obtain ⟨first, rest, rfl⟩ := List.exists_cons_of_ne_nil hne
  have htop : (assemble embeddingEnabled (first :: rest)).topScore = some first.fusedScore := rfl
  constructor
  · rintro ⟨top, ht, ⟨-, hmax⟩, -⟩ first' hf c hc
    cases hf
    rw [htop] at ht
    cases ht
    exact hmax ((mem_returnedScores_assemble embeddingEnabled hs).mpr ⟨c, hc, rfl⟩)
  · intro hmax
    have hmax := hmax first rfl
    obtain ⟨s1, hs1, hbest, hcit⟩ := assemble_citations_head embeddingEnabled hne
    have heq : s1.fusedScore = first.fusedScore :=
      le_antisymm (hmax s1 hs1) (hbest first List.mem_cons_self)
    refine ⟨first.fusedScore, htop, ⟨?_, fun x hx => ?_⟩, ⟨s1.source, ?_, ?_, hcit⟩, ?_⟩
    · exact (mem_returnedScores_assemble embeddingEnabled hs).mpr ⟨first, List.mem_cons_self, rfl⟩
    · obtain ⟨c, hc, rfl⟩ := (mem_returnedScores_assemble embeddingEnabled hs).mp hx
      exact hmax c hc
    · exact (assemble_sources_perm embeddingEnabled _).mem_iff.mpr (List.mem_map_of_mem hs1)
    · rw [hs s1 hs1, Option.map_some, heq]
    · rw [assemble_selectedCount]
      rfl

end Assemble

/-- A returned candidate is the score of its source. -/
theorem scoreSource_of_mem_diversify {U : Unicode} {sched : Schedule} {q : Query α} {notes : List (Note (List α))}
    {chunks : List (KnowledgeChunk (List α))} {profile : RAGRetrievalProfile} {c : ScoredCandidate α}
    (h : c ∈ diversifyAndBalance (activeCandidates profile (scoreCandidates U sched q notes chunks)) profile) :
    scoreSource U q c.source = some c := by
  have hmem := (activeCandidates_sublist profile _).subset (mem_of_mem_diversifyAndBalance h)
  have hcand := (List.perm_insertionSort _ _).mem_iff.mp hmem
  obtain ⟨source, -, hs⟩ := List.mem_filterMap.mp ((scoreCandidates_perm U sched q notes chunks).mem_iff.mp hcand)
  rw [scoreSource_source hs, hs]

/-- For every request that returns sources, on any schedule: the top score
and the confidence are those of the best source returned if and only if the
best note among the active candidates leads. -/
theorem topIsMaximum_iff (U : Unicode) (sched : Schedule) (req : Request α) (notes : List (Note (List α)))
    (chunks : List (KnowledgeChunk (List α)))
    (hne : 0 < (retrieveContext U sched req notes chunks).selectedCount) :
    TopIsMaximum U (req.query U) (retrieveContext U sched req notes chunks) ↔
      NoteLeads (activeCandidates req.profile (scoreCandidates U sched (req.query U) notes chunks)) := by
  revert hne
  unfold retrieveContext
  dsimp only
  split
  · exact fun h => absurd h (Nat.lt_irrefl 0)
  split
  · exact fun h => absurd h (Nat.lt_irrefl 0)
  split
  · exact fun h => absurd h (Nat.lt_irrefl 0)
  · rename_i hsel
    intro _
    rw [topIsMaximum_assemble_iff _ (fun c hc => scoreSource_of_mem_diversify hc) fun h => hsel (List.isEmpty_iff.mpr h)]
    exact head_max_iff (descending_activeCandidates _ _)

/-- Four processors whose workers finish in their order. -/
def Schedule.inOrder : Schedule := ⟨4, fun _ _ workers => workers, fun _ _ _ => .refl _⟩

/-- A question of two words, without embeddings. -/
def twoWords : Request ℚ :=
  { queryText := "alpha beta"
    queryEmbedding := none
    noteBoosts := fun _ => none
    chunkBoosts := fun _ => none
    semanticNoteIds := ∅
    semanticChunkIds := ∅
    profile := .fastRecommended }

/-- A note with both words. -/
def tripNote : Note (List ℚ) :=
  ⟨1, "Trip", "alpha, beta", 0, 0, [], none, none, none, none, none, none⟩

/-- A chunk with both words, of a document with one of them in its title. -/
def alphaChunk : KnowledgeChunk (List ℚ) :=
  ⟨2, 0, none, "alpha & beta", none, none, none, none, none, none, none, none, 0, 0,
    some ⟨3, "alpha", "file", "text/plain", "alpha.txt", none, "ready", none, none, none, 0, 0⟩⟩

/-- The question of two words, with the greatest boost on the notes. -/
def praisedNotes : Request ℚ := { twoWords with noteBoosts := fun _ => some 0.2 }

/-- The note leads the selection with 0.655, before the chunk. -/
theorem topIsMaximum_tripNote :
    (retrieveContext .ascii .inOrder praisedNotes [tripNote] [alphaChunk]).sources =
        [.note tripNote, .chunk alphaChunk] ∧
      TopIsMaximum .ascii (praisedNotes.query .ascii)
        (retrieveContext .ascii .inOrder praisedNotes [tripNote] [alphaChunk]) :=
  ⟨by decide +kernel,
    (topIsMaximum_iff .ascii .inOrder praisedNotes [tripNote] [alphaChunk] (by decide +kernel)).mpr
      (by decide +kernel)⟩

/-- The note leads the selection with 0.455 although the chunk, which is also
returned, scores 0.6175. -/
theorem not_topIsMaximum_alphaChunk :
    0 < (retrieveContext .ascii .inOrder twoWords [tripNote] [alphaChunk]).selectedCount ∧
      ¬ TopIsMaximum .ascii (twoWords.query .ascii)
        (retrieveContext .ascii .inOrder twoWords [tripNote] [alphaChunk]) := by
  refine ⟨by decide +kernel, ?_⟩
  rintro ⟨top, htop, ⟨-, hmax⟩, -⟩
  have hchunk : (0.6175 : ℚ) ≤ top := hmax (show _ ∈ returnedScores _ _ _ by decide +kernel)
  have hnote : (retrieveContext .ascii .inOrder twoWords [tripNote] [alphaChunk]).topScore = some 0.455 := by
    decide +kernel
  rw [hnote] at htop
  cases htop
  norm_num at hchunk

end SynapsNotes.Retrieval
