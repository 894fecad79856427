import SynapsNotes.Retrieval.Arrival
import SynapsNotes.Retrieval.Groups

/-!
# Retrieval on any schedule

`retrieveContext` returns what it returns with one processor, on every
schedule, exactly if the groups of candidates with the same scores are
`Settled` (`retrieveContext_sequential_iff`), as they are where no candidates
tie (`retrieveContext_of_no_ties`). Two notes with the same words are enough
for the schedules to differ (`reversed_workers_swap_notes`).
-/

namespace SynapsNotes.Retrieval

open Framework

variable {α : Type} [FloatLike α]

/-- What is returned depends on the schedule only through the order of the
ranked candidates. -/
theorem retrieveContext_eq {U : Unicode} {req : Request α} (hquery : Text.trimmingCharacters req.queryText.toList ≠ [])
    (sched : Schedule) (notes : List (Note (List α))) (chunks : List (KnowledgeChunk (List α))) :
    retrieveContext U sched req notes chunks = outcomeOf (req.queryEmbedding.any fun v => !v.isEmpty) req.profile
      (sortedBy ranksBefore (scoreCandidates U sched (req.query U) notes chunks)) := by
  rw [retrieveContext, if_neg (by rwa [List.isEmpty_iff]), outcomeOf]
  dsimp only
  split
  · rename_i hnone
    have hactive : activeOf req.profile (sortedBy (ranksBefore (α := α)) []) = [] := by simp [activeOf, sortedBy]
    rw [List.isEmpty_iff.mp hnone, hactive]
    rfl
  · rw [activeCandidates_eq]

/-! ## The groups -/

section Groups

variable {U : Unicode} {q : Query α} {notes : List (Note (List α))} {chunks : List (KnowledgeChunk (List α))}

theorem exists_source_of_mem_scoredBatches {β γ : Type} {scorer : β → Option γ} {sources : List β} {batch : List γ}
    {c : γ} (h : batch ∈ scoredBatches scorer sources) (hc : c ∈ batch) : ∃ source, scorer source = some c := by
  obtain ⟨i, -, rfl⟩ := List.mem_map.mp h
  obtain ⟨source, -, hscore⟩ := List.mem_filterMap.mp hc
  exact ⟨source, hscore⟩

/-- A batch is of notes or of chunks. -/
theorem isNote_candidateBatches : ∀ batch ∈ candidateBatches U q notes chunks, ∀ a ∈ batch, ∀ b ∈ batch,
    a.source.isNote = b.source.isNote := by
  have hnote : ∀ {note : Note (List α)} {c}, scoreNote U q note = some c → c.source.isNote = true :=
    fun {note} _ h => by rw [scoreSource_source (show scoreSource U q (.note note) = some _ from h)]; rfl
  have hchunk : ∀ {chunk : KnowledgeChunk (List α)} {c}, scoreChunk U q chunk = some c → c.source.isNote = false :=
    fun {chunk} _ h => by rw [scoreSource_source (show scoreSource U q (.chunk chunk) = some _ from h)]; rfl
  intro batch hbatch a ha b hb
  rcases List.mem_append.mp hbatch with hbatch | hbatch
  · obtain ⟨_, ha⟩ := exists_source_of_mem_scoredBatches hbatch ha
    obtain ⟨_, hb⟩ := exists_source_of_mem_scoredBatches hbatch hb
    rw [hnote ha, hnote hb]
  · obtain ⟨_, ha⟩ := exists_source_of_mem_scoredBatches hbatch ha
    obtain ⟨_, hb⟩ := exists_source_of_mem_scoredBatches hbatch hb
    rw [hchunk ha, hchunk hb]

/-- The candidates of a group have one rank and come from one batch. -/
theorem uniform_tieGroups : Uniform (tieGroups U q notes chunks) := by
  have hgroup : ∀ group ∈ tieGroups U q notes chunks, ∃ k, ∃ batch ∈ candidateBatches U q notes chunks,
      withKey rank k batch = group := by
    intro group hgroup
    obtain ⟨k, -, hgroup⟩ := List.mem_flatMap.mp hgroup
    exact ⟨k, List.mem_map.mp hgroup⟩
  constructor
  · intro group hg a ha b hb
    obtain ⟨k, batch, -, rfl⟩ := hgroup group hg
    have hrank : rank a = rank b := (mem_withKey.mp ha).2.trans (mem_withKey.mp hb).2.symm
    exact congrArg Prod.fst (toLex.injective (OrderDual.toDual.injective hrank))
  · intro group hg a ha b hb
    obtain ⟨k, batch, hbatch, rfl⟩ := hgroup group hg
    exact isNote_candidateBatches batch hbatch a (mem_withKey.mp ha).1 b (mem_withKey.mp hb).1

theorem descending_tieGroups : Descending (tieGroups U q notes chunks).flatten := by
  rw [← ranked_sequential]
  exact descending_sortedBy_ranksBefore _

theorem scoreSource_of_mem_tieGroups :
    ∀ c ∈ (tieGroups U q notes chunks).flatten, scoreSource U q c.source = some c := by
  intro c hc
  rw [← ranked_sequential] at hc
  have hcand := (List.perm_insertionSort _ _).mem_iff.mp hc
  obtain ⟨source, -, hs⟩ := List.mem_filterMap.mp ((scoreCandidates_perm U .sequential q notes chunks).mem_iff.mp hcand)
  rw [scoreSource_source hs, hs]

end Groups

theorem settled_iff {U : Unicode} {req : Request α} (hquery : Text.trimmingCharacters req.queryText.toList ≠ [])
    (notes : List (Note (List α))) (chunks : List (KnowledgeChunk (List α))) :
    (∀ sched, retrieveContext U sched req notes chunks = retrieveContext U .sequential req notes chunks) ↔
      Settled req.profile (tieGroups U (req.query U) notes chunks) := by
  rw [← outcome_settled_iff uniform_tieGroups descending_tieGroups scoreSource_of_mem_tieGroups]
  have heq := fun sched => retrieveContext_eq (U := U) hquery sched notes chunks
  constructor
  · intro h groups hs
    obtain ⟨sched, hranked⟩ := (ranked_iff U (req.query U) notes chunks).mpr ⟨groups, hs, rfl⟩
    rw [← hranked, ← ranked_sequential, ← heq, ← heq, h]
  · intro h sched
    obtain ⟨groups, hs, hranked⟩ := (ranked_iff U (req.query U) notes chunks).mp ⟨sched, rfl⟩
    rw [heq, heq, ranked_sequential, ← hranked, h groups hs]

/-- For every request and all sources: every schedule returns what one
processor does if and only if the query is blank or the groups of candidates
with the same scores are settled. -/
theorem retrieveContext_sequential_iff (U : Unicode) (req : Request α) (notes : List (Note (List α)))
    (chunks : List (KnowledgeChunk (List α))) :
    (∀ sched, retrieveContext U sched req notes chunks = retrieveContext U .sequential req notes chunks) ↔
      Text.trimmingCharacters req.queryText.toList = [] ∨
        Settled req.profile (tieGroups U (req.query U) notes chunks) := by
  by_cases hquery : Text.trimmingCharacters req.queryText.toList = []
  · have hblank : ∀ sched, retrieveContext U sched req notes chunks = .empty := fun sched => by
      rw [retrieveContext, if_pos (List.isEmpty_iff.mpr hquery)]
    exact iff_of_true (fun sched => (hblank sched).trans (hblank .sequential).symm) (.inl hquery)
  · rw [or_iff_right hquery, settled_iff hquery]

/-- Sources with different scores are returned alike on every schedule. -/
theorem retrieveContext_of_no_ties {U : Unicode} {req : Request α} {notes : List (Note (List α))}
    {chunks : List (KnowledgeChunk (List α))} (h : ∀ group ∈ tieGroups U (req.query U) notes chunks, AllSame group)
    (hquery : Text.trimmingCharacters req.queryText.toList ≠ []) (sched : Schedule) :
    retrieveContext U sched req notes chunks = retrieveContext U .sequential req notes chunks :=
  (settled_iff hquery notes chunks).mpr (settled_of_allSame req.profile h) sched

/-- Two processors whose workers finish in the opposite order. -/
def Schedule.reversed : Schedule := ⟨2, fun _ _ workers => workers.reverse, fun _ _ workers => workers.reverse_perm⟩

/-- A note with both words, like `tripNote`. -/
def flightNote : Note (List ℚ) :=
  ⟨2, "Flight", "beta, alpha", 0, 0, [], none, none, none, none, none, none⟩

/-- The two notes score the same. The worker of the second finishes first, and
so that note is returned and cited first. -/
theorem reversed_workers_swap_notes :
    (retrieveContext .ascii .sequential twoWords [tripNote, flightNote] []).selectedNotes.map Note.id = [1, 2] ∧
      (retrieveContext .ascii .reversed twoWords [tripNote, flightNote] []).selectedNotes.map Note.id = [2, 1] ∧
      (retrieveContext .ascii .reversed twoWords [tripNote, flightNote] []).citations ≠
        (retrieveContext .ascii .sequential twoWords [tripNote, flightNote] []).citations ∧
      ¬ ∀ sched, retrieveContext .ascii sched twoWords [tripNote, flightNote] [] =
        retrieveContext .ascii .sequential twoWords [tripNote, flightNote] [] := by
  have hcitations : (retrieveContext .ascii .reversed twoWords [tripNote, flightNote] []).citations ≠
      (retrieveContext .ascii .sequential twoWords [tripNote, flightNote] []).citations := by decide +kernel
  refine ⟨by decide +kernel, by decide +kernel, hcitations, fun h => hcitations ?_⟩
  rw [h .reversed]

end SynapsNotes.Retrieval
