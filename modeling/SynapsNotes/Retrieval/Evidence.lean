import SynapsNotes.Retrieval.WellFormed

/-!
# What speaks for a source that is returned

A source is scored only if it shares words with the query or its embedding
comes near the query's; the boost is added afterwards and cannot bring in
another (`evident_of_scoreSource`). What is returned reaches the minimum score
of the profile, or is the best candidate alone (`retrieveContext_grounded`).
-/

namespace SynapsNotes.Retrieval

open Framework FloatLike

variable {α : Type} [FloatLike α] {U : Unicode} {q : Query α}

/-- The semantic score of a note or a chunk. -/
def Query.semanticScore (q : Query α) : CandidateSource α → Option α
  | .note note => Retrieval.semanticScore note.id note.embedding q.queryEmbedding q.semanticNoteIds
  | .chunk chunk => Retrieval.semanticScore chunk.id chunk.embedding q.queryEmbedding q.semanticChunkIds

/-- The words of the candidate's source or its embedding are evidence for it. -/
def Evident (q : Query α) (c : ScoredCandidate α) : Prop :=
  lit 0 < c.lexicalScore ∨ ∃ semantic ∈ q.semanticScore c.source, q.profile.minimumSemanticScore ≤ semantic

/-- The rule for the best candidate where none reaches the minimum. -/
def Relaxed (profile : RAGRetrievalProfile) (c : ScoredCandidate α) : Prop :=
  profile.minimumFusedScore * lit 0.75 ≤ c.fusedScore ∨ c.usedSemantic ∧ lit 0.45 ≤ c.lexicalScore

/-- A source is returned for its evidence, and for its score or as the only
one. -/
structure Grounded (U : Unicode) (q : Query α) (r : RetrievalResult (List α) α) (source : CandidateSource α)
    (c : ScoredCandidate α) : Prop where
  score : scoreSource U q source = some c
  evident : Evident q c
  reaches : q.profile.minimumFusedScore ≤ c.fusedScore ∨ r.sources = [source] ∧ Relaxed q.profile c

/-! ## Scoring -/

/-- Without shared words the embedding has to be near. -/
theorem evidence_of_fusedScore {semantic : Option α} {lexical score : α} {profile : RAGRetrievalProfile}
    (h : fusedScore semantic lexical profile = some score) :
    lit 0 < lexical ∨ ∃ value ∈ semantic, profile.minimumSemanticScore ≤ value := by
  by_contra hnone
  push Not at hnone
  obtain ⟨hlexical, hsemantic⟩ := hnone
  cases semantic with
  | none =>
    rw [fusedScore, if_neg hlexical.not_gt] at h
    exact absurd h.symm (Option.some_ne_none score)
  | some value =>
    rw [fusedScore, if_pos ⟨hsemantic value rfl, hlexical⟩] at h
    exact absurd h.symm (Option.some_ne_none score)

/-- Whatever the boosts, what is scored is evident. -/
theorem evident_of_scoreSource {source : CandidateSource α} {c : ScoredCandidate α}
    (h : scoreSource U q source = some c) : Evident q c := by
  cases source <;>
  · obtain ⟨score, hscore, rfl⟩ := Option.map_eq_some_iff.mp h
    exact evidence_of_fusedScore hscore

/-! ## The minimum -/

/-- All candidates the selection is made from reach the minimum, or there is
one. -/
theorem activeCandidates_cases (profile : RAGRetrievalProfile) (candidates : List (ScoredCandidate α)) :
    (∀ c ∈ activeCandidates profile candidates, profile.minimumFusedScore ≤ c.fusedScore) ∨
      ∃ top, activeCandidates profile candidates = [top] ∧ Relaxed profile top := by
  simp only [activeCandidates]
  split
  · split
    · exact .inl fun c hc => by cases hc
    · rename_i top rest _
      split
      · exact .inl fun c hc => by cases hc
      · rename_i hnear
        refine .inr ⟨top, rfl, ?_⟩
        by_contra hfar
        unfold Relaxed at hfar
        push Not at hfar
        exact hnear ⟨hfar.1, by cases hused : top.usedSemantic <;> simp_all⟩
  · exact .inl fun c hc => of_decide_eq_true (List.mem_filter.mp hc).2

/-- For every request, all sources and any schedule: what is returned is
grounded. -/
theorem retrieveContext_grounded (U : Unicode) (sched : Schedule) (req : Request α) (notes : List (Note (List α)))
    (chunks : List (KnowledgeChunk (List α))) {source : CandidateSource α}
    (h : source ∈ (retrieveContext U sched req notes chunks).sources) :
    ∃ c, Grounded U (req.query U) (retrieveContext U sched req notes chunks) source c := by
  obtain ⟨-, he⟩ | ⟨embeddingEnabled, -, -, he⟩ := retrieveContext_cases U sched req notes chunks
  · rw [he] at h
    cases h
  have hsources := assemble_sources_perm embeddingEnabled (selection U sched req notes chunks)
  rw [he] at h ⊢
  obtain ⟨c, hc, rfl⟩ := List.mem_map.mp (hsources.mem_iff.mp h)
  have hscore : scoreSource U (req.query U) c.source = some c := scoreSource_of_mem_diversify hc
  refine ⟨c, hscore, evident_of_scoreSource hscore, ?_⟩
  have hactive := activeCandidates_cases req.profile (scoreCandidates U sched (req.query U) notes chunks)
  rcases hactive with hmin | ⟨top, hone, hrelaxed⟩
  · exact .inl (hmin c (mem_of_mem_diversifyAndBalance hc))
  · -- the only candidate is the only one selected
    have hsel : selection U sched req notes chunks = [top] := by
      rw [selection, hone, diversifyAndBalance_singleton]
    rw [hsel] at hc hsources ⊢
    obtain rfl := List.mem_singleton.mp hc
    exact .inr ⟨hsources.eq_singleton, hrelaxed⟩

theorem tripNote_grounded :
    (CandidateSource.note tripNote) ∈ (retrieveContext .ascii .inOrder twoWords [tripNote] [alphaChunk]).sources ∧
      ∃ c, Grounded .ascii (twoWords.query .ascii) (retrieveContext .ascii .inOrder twoWords [tripNote] [alphaChunk])
        (.note tripNote) c :=
  ⟨by decide +kernel, retrieveContext_grounded .ascii .inOrder twoWords [tripNote] [alphaChunk] (by decide +kernel)⟩

end SynapsNotes.Retrieval
