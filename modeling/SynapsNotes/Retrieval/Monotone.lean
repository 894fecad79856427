import SynapsNotes.Retrieval.Raising

/-!
# Feedback on a source works in its favour

Raise the boost of one source that is selected, and nothing else: the source
stays selected (`mem_sources_withBoost`). The boost changes the score of its
candidate alone (`scoreCandidates_withBoost_of_mem`), so one candidate among
the others is raised.
-/

namespace SynapsNotes.Retrieval

open Framework FloatLike

variable {α : Type}

/-! ## The scores -/

section Batches

variable {β γ δ : Type} (sched : Schedule) (kind : SourceType) (scorer : β → Option γ) (f : γ → δ)

theorem parallelScoreBatch_map (batchStart : ℕ) (batch : List β) :
    parallelScoreBatch sched kind batchStart (fun source => (scorer source).map f) batch =
      (parallelScoreBatch sched kind batchStart scorer batch).map f := by
  simp only [parallelScoreBatch]
  split
  · rfl
  · split
    · rw [List.map_filterMap]
    · simp only [List.map_flatMap, List.map_filterMap]

theorem scoreBatches_map (sources : List β) :
    scoreBatches sched kind (fun source => (scorer source).map f) sources =
      (scoreBatches sched kind scorer sources).map f := by
  simp only [scoreBatches, List.map_flatMap, parallelScoreBatch_map]

end Batches

/-- The kind and the identifier of a source. -/
def CandidateSource.key : CandidateSource α → Bool × UUID
  | .note n => (true, n.id)
  | .chunk c => (false, c.id)

/-- The request with the boost of one source set. -/
def Request.withBoost (req : Request α) (source : CandidateSource α) (value : α) : Request α :=
  match source with
  | .note note => { req with noteBoosts := Function.update req.noteBoosts note.id (some value) }
  | .chunk chunk => { req with chunkBoosts := Function.update req.chunkBoosts chunk.id (some value) }

@[simp] theorem withBoost_profile (req : Request α) (source : CandidateSource α) (value : α) :
    (req.withBoost source value).profile = req.profile := by
  cases source <;> rfl

@[simp] theorem withBoost_queryText (req : Request α) (source : CandidateSource α) (value : α) :
    (req.withBoost source value).queryText = req.queryText := by
  cases source <;> rfl

theorem nodup_keys {notes : List (Note (List α))} {chunks : List (KnowledgeChunk (List α))}
    (hnotes : (notes.map Note.id).Nodup) (hchunks : (chunks.map KnowledgeChunk.id).Nodup) :
    ((notes.map CandidateSource.note ++ chunks.map CandidateSource.chunk).map CandidateSource.key).Nodup := by
  rw [List.map_append, List.map_map, List.map_map]
  refine List.nodup_append.mpr ⟨?_, ?_, fun a ha b hb => ?_⟩
  · exact List.Nodup.of_map Prod.snd (by rwa [List.map_map])
  · exact List.Nodup.of_map Prod.snd (by rwa [List.map_map])
  · obtain ⟨_, _, rfl⟩ := List.mem_map.mp ha
    obtain ⟨_, _, rfl⟩ := List.mem_map.mp hb
    exact fun heq => absurd (congrArg Prod.fst heq).symm Bool.false_ne_true

theorem sublist_map_filterMap {β γ δ : Type} {f : β → Option γ} {g : γ → δ} {k : β → δ}
    (h : ∀ a c, f a = some c → g c = k a) (l : List β) : ((l.filterMap f).map g).Sublist (l.map k) := by
  induction l with
  | nil => exact List.Sublist.refl _
  | cons a l ih =>
    cases ha : f a with
    | none =>
      rw [List.filterMap_cons_none ha]
      exact ih.cons _
    | some c =>
      rw [List.filterMap_cons_some ha, List.map_cons, h a c ha]
      exact ih.cons_cons _

section Boost

variable [FloatLike α] {U : Unicode} {req : Request α} {source other : CandidateSource α} {value : α}

/-- The boost of a source. -/
def Request.boost (req : Request α) : CandidateSource α → α
  | .note note => (req.noteBoosts note.id).getD (lit 0)
  | .chunk chunk => (req.chunkBoosts chunk.id).getD (lit 0)

theorem adjustedFusedScore_mono [MonotoneArithmetic α] (fused : α) {boost value : α} (h : boost ≤ value) :
    adjustedFusedScore fused boost ≤ adjustedFusedScore fused value :=
  max_le_max_left _ (min_le_min_left _ (MonotoneArithmetic.add_mono fused (max_le_max_left _ (min_le_min_left _ h))))

/-- The boosts do not decide which sources are scored. -/
theorem isSome_scoreSource_withBoost (U : Unicode) (req : Request α) (source other : CandidateSource α) (value : α) :
    (scoreSource U ((req.withBoost source value).query U) other).isSome =
      (scoreSource U (req.query U) other).isSome := by
  cases source <;> cases other <;>
    simp only [scoreSource, scoreNote, scoreChunk, Option.isSome_map, Request.withBoost, Request.query]

/-- The source itself scores more. -/
theorem scoreSource_withBoost_self [MonotoneArithmetic α] {x : ScoredCandidate α} (hle : req.boost source ≤ value)
    (h : scoreSource U (req.query U) source = some x) : ∃ score, x.fusedScore ≤ score ∧
      scoreSource U ((req.withBoost source value).query U) source = some (x.withScore score) := by
  cases source <;>
  · obtain ⟨fused, hfused, rfl⟩ := Option.map_eq_some_iff.mp h
    refine ⟨_, adjustedFusedScore_mono fused hle, Option.map_eq_some_iff.mpr ⟨fused, hfused, ?_⟩⟩
    simp [Request.query, Request.withBoost, ScoredCandidate.withScore]

/-- The other sources score what they did. -/
theorem scoreSource_withBoost_of_ne (h : other.key ≠ source.key) :
    scoreSource U ((req.withBoost source value).query U) other = scoreSource U (req.query U) other := by
  cases source <;> cases other <;>
    simp_all [scoreSource, scoreNote, scoreChunk, Request.withBoost, Request.query, CandidateSource.key]

/-- The candidate with the score of its source in another query. -/
def rescored (U : Unicode) (q : Query α) (c : ScoredCandidate α) : ScoredCandidate α :=
  (scoreSource U q c.source).getD c

theorem scoreSource_withBoost (other : CandidateSource α) :
    scoreSource U ((req.withBoost source value).query U) other =
      (scoreSource U (req.query U) other).map (rescored U ((req.withBoost source value).query U)) := by
  have hsome := isSome_scoreSource_withBoost U req source other value
  cases hold : scoreSource U (req.query U) other with
  | none =>
    rw [hold] at hsome
    simpa using hsome
  | some c =>
    rw [hold] at hsome
    obtain ⟨c', hc'⟩ := Option.isSome_iff_exists.mp hsome
    rw [Option.map_some, rescored, scoreSource_source hold, hc', Option.getD_some]

/-- The candidates are the same ones, scored anew. -/
theorem scoreCandidates_withBoost (sched : Schedule) (notes : List (Note (List α)))
    (chunks : List (KnowledgeChunk (List α))) :
    scoreCandidates U sched ((req.withBoost source value).query U) notes chunks =
      (scoreCandidates U sched (req.query U) notes chunks).map
        (rescored U ((req.withBoost source value).query U)) := by
  have hnotes : scoreNote U ((req.withBoost source value).query U) = fun note =>
      (scoreNote U (req.query U) note).map (rescored U ((req.withBoost source value).query U)) :=
    funext fun note => scoreSource_withBoost (.note note)
  have hchunks : scoreChunk U ((req.withBoost source value).query U) = fun chunk =>
      (scoreChunk U (req.query U) chunk).map (rescored U ((req.withBoost source value).query U)) :=
    funext fun chunk => scoreSource_withBoost (.chunk chunk)
  rw [scoreCandidates, hnotes, hchunks, scoreBatches_map, scoreBatches_map, ← List.map_append]
  rfl

/-- Of different sources, those not raised keep their scores. -/
theorem scoreCandidates_withBoost_of_mem [MonotoneArithmetic α] {sched : Schedule} {notes : List (Note (List α))}
    {chunks : List (KnowledgeChunk (List α))} {x : ScoredCandidate α}
    (hkeys : ((notes.map CandidateSource.note ++ chunks.map CandidateSource.chunk).map CandidateSource.key).Nodup)
    (hle : req.boost x.source ≤ value) (h : x ∈ scoreCandidates U sched (req.query U) notes chunks) :
    ∃ before behind score, x.fusedScore ≤ score ∧
      scoreCandidates U sched (req.query U) notes chunks = before ++ x :: behind ∧
      scoreCandidates U sched ((req.withBoost x.source value).query U) notes chunks =
        before ++ x.withScore score :: behind := by
  have hperm := scoreCandidates_perm U sched (req.query U) notes chunks
  have hself : ∀ c ∈ scoreCandidates U sched (req.query U) notes chunks,
      scoreSource U (req.query U) c.source = some c := fun c hc => by
    obtain ⟨source, -, hs⟩ := List.mem_filterMap.mp (hperm.mem_iff.mp hc)
    rw [scoreSource_source hs, hs]
  have hnodup : ((scoreCandidates U sched (req.query U) notes chunks).map (CandidateSource.key ∘ _)).Nodup :=
    (hperm.map _).nodup_iff.mpr ((sublist_map_filterMap (fun source c hs =>
      congrArg CandidateSource.key (scoreSource_source hs)) _).nodup hkeys)
  obtain ⟨score, hscore, hself'⟩ := scoreSource_withBoost_self hle (hself x h)
  obtain ⟨before, behind, hsplit⟩ := List.append_of_mem h
  have hother : ∀ c ∈ before ++ behind, rescored U ((req.withBoost x.source value).query U) c = c := by
    rw [hsplit, (List.perm_middle.map _).nodup_iff, List.map_cons, List.nodup_cons] at hnodup
    intro c hc
    have hne : c.source.key ≠ x.source.key := fun heq =>
      hnodup.1 (List.mem_map.mpr ⟨c, hc, heq⟩)
    have hmem : c ∈ scoreCandidates U sched (req.query U) notes chunks := by
      rw [hsplit]
      exact (List.mem_append.mp hc).elim (List.mem_append_left _) fun hc =>
        List.mem_append_right _ (List.mem_cons_of_mem _ hc)
    rw [rescored, scoreSource_withBoost_of_ne hne, hself c hmem, Option.getD_some]
  refine ⟨before, behind, score, hscore, hsplit, ?_⟩
  have hx : rescored U ((req.withBoost x.source value).query U) x = x.withScore score := by
    rw [rescored, hself', Option.getD_some]
  rw [scoreCandidates_withBoost, hsplit, List.map_append, List.map_cons, hx,
    List.map_congr_left fun c hc => hother c (List.mem_append_left _ hc),
    List.map_congr_left fun c hc => hother c (List.mem_append_right _ hc), List.map_id', List.map_id']

/-- For every request, all sources with different identifiers and texts and any
schedule, in arithmetic that follows the order: a source that is returned is
still returned when its boost alone is raised. -/
theorem mem_sources_withBoost [MonotoneArithmetic α] (U : Unicode) (sched : Schedule) (req : Request α)
    (notes : List (Note (List α))) (chunks : List (KnowledgeChunk (List α)))
    (hnotes : (notes.map Note.id).Nodup) (hchunks : (chunks.map KnowledgeChunk.id).Nodup)
    (htexts : ((notes.map CandidateSource.note ++ chunks.map CandidateSource.chunk).map
      (CandidateSource.fingerprint U)).Nodup)
    {source : CandidateSource α} {value : α} (hle : req.boost source ≤ value)
    (h : source ∈ (retrieveContext U sched req notes chunks).sources) :
    source ∈ (retrieveContext U sched (req.withBoost source value) notes chunks).sources := by
  obtain ⟨-, he⟩ | ⟨embeddingEnabled, hquery, -, he⟩ := retrieveContext_cases U sched req notes chunks
  · rw [he] at h
    cases h
  rw [he] at h
  obtain ⟨x, hx, rfl⟩ := List.mem_map.mp ((assemble_sources_perm embeddingEnabled _).mem_iff.mp h)
  have hcandidate : x ∈ scoreCandidates U sched (req.query U) notes chunks := (List.perm_insertionSort _ _).mem_iff.mp
    ((activeCandidates_sublist req.profile _).subset (mem_of_mem_diversifyAndBalance hx))
  obtain ⟨before, behind, score, hscore, hsplit, hsplit'⟩ :=
    scoreCandidates_withBoost_of_mem (nodup_keys hnotes hchunks) hle hcandidate
  have hfp : ((before ++ x :: behind).map ScoredCandidate.fingerprint).Nodup := by
    rw [← hsplit, ((scoreCandidates_perm U sched (req.query U) notes chunks).map _).nodup_iff]
    exact (sublist_map_filterMap (fun _ _ hs => fingerprint_of_scoreSource hs) _).nodup htexts
  have hselected : x.withScore score ∈ selection U sched (req.withBoost x.source value) notes chunks := by
    rw [selection, withBoost_profile, hsplit']
    rw [selection, hsplit] at hx
    exact mem_selected_of_raised hscore hfp hx
  obtain ⟨hnone, -⟩ | ⟨embeddingEnabled', -, -, he'⟩ :=
    retrieveContext_cases U sched (req.withBoost x.source value) notes chunks
  · rcases hnone with hblank | hnil
    · rw [withBoost_queryText] at hblank
      exact absurd hblank hquery
    · rw [hnil] at hselected
      cases hselected
  · rw [he']
    exact (assemble_sources_perm embeddingEnabled' _).mem_iff.mpr
      (List.mem_map.mpr ⟨x.withScore score, hselected, rfl⟩)

end Boost

/-- The chunk beside a note, praised: both are returned as before. -/
theorem alphaChunk_praised :
    CandidateSource.chunk alphaChunk ∈ (retrieveContext .ascii .inOrder twoWords [tripNote] [alphaChunk]).sources ∧
      twoWords.boost (.chunk alphaChunk) < 0.2 ∧
      CandidateSource.chunk alphaChunk ∈
        (retrieveContext .ascii .inOrder (twoWords.withBoost (.chunk alphaChunk) 0.2) [tripNote] [alphaChunk]).sources :=
  ⟨by decide +kernel, by decide +kernel, mem_sources_withBoost .ascii .inOrder twoWords [tripNote] [alphaChunk]
    (by decide +kernel) (by decide +kernel) (by decide +kernel) (by decide +kernel) (by decide +kernel)⟩

end SynapsNotes.Retrieval
