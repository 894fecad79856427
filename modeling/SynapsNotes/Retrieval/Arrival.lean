import SynapsNotes.Framework.Ties
import SynapsNotes.Retrieval.Pipeline

/-!
# The orders the candidates arrive in

The candidates of a batch arrive in the order in which its workers finish; the
batches come one after another. With a processor for each source the workers
can put the candidates of a batch in any order, so the candidates arrive as
the batches do, each in some order: `exists_schedule_iff`. Ranked, they are
the groups of the candidates of a batch with the same scores, each group in
some order: `ranked_iff`.
-/

namespace SynapsNotes.Retrieval

open Framework

/-! ## One batch -/

section Batch

variable {β γ : Type} {scorer : β → Option γ}

/-- What is collected from a list in another order is collected from another
order of the list. -/
theorem exists_perm_filterMap {f : β → Option γ} {l : List β} {found : List γ} (h : (l.filterMap f).Perm found) :
    ∃ l' : List β, l'.Perm l ∧ l'.filterMap f = found := by
  induction found generalizing l with
  | nil => exact ⟨l, .refl _, h.eq_nil⟩
  | cons y found ih =>
    obtain ⟨a, ha, hy⟩ := List.mem_filterMap.mp (h.mem_iff.mpr List.mem_cons_self)
    obtain ⟨l₁, l₂, rfl⟩ := List.append_of_mem ha
    have hfront : (l₁ ++ a :: l₂).Perm (a :: (l₁ ++ l₂)) := List.perm_middle
    have hrest : ((l₁ ++ l₂).filterMap f).Perm found := by
      have := (hfront.filterMap f).symm.trans h
      rwa [List.filterMap_cons_some hy, List.perm_cons] at this
    obtain ⟨l', hl', rfl⟩ := ih hrest
    exact ⟨a :: l', (hl'.cons a).trans hfront.symm, List.filterMap_cons_some hy⟩

theorem piece_one_filterMap (batch : List β) (worker : ℕ) :
    (piece 1 batch worker).filterMap scorer = (batch[worker]?.bind scorer).toList := by
  rw [piece, Nat.mul_one, List.take_one, List.head?_drop]
  cases batch[worker]? with
  | none => rfl
  | some source => cases h : scorer source <;> simp [h]

theorem flatMap_piece_one (batch : List β) (workers : List ℕ) :
    workers.flatMap (fun worker => (piece 1 batch worker).filterMap scorer) =
      workers.filterMap fun worker => batch[worker]?.bind scorer := by
  rw [List.filterMap_eq_flatMap_toList]
  exact List.flatMap_congr fun worker _ => piece_one_filterMap batch worker

/-- The workers, one for each source, in an order that finds the candidates in
the given one. -/
theorem exists_workers {batch : List β} {found : List γ} (h : (batch.filterMap scorer).Perm found) :
    ∃ workers : List ℕ, workers.Perm (List.range batch.length) ∧
      workers.flatMap (fun worker => (piece 1 batch worker).filterMap scorer) = found := by
  have hrange : (List.range batch.length).filterMap (fun worker => batch[worker]?.bind scorer) =
      batch.filterMap scorer := by
    rw [← flatMap_piece_one, ← List.filterMap_flatMap, flatMap_piece (by rw [Nat.mul_one])]
  obtain ⟨workers, hperm, hfound⟩ := exists_perm_filterMap (hrange ▸ h)
  exact ⟨workers, hperm, (flatMap_piece_one batch workers).trans hfound⟩

/-- A processor for each source of a batch. -/
theorem parallelScoreBatch_of_workers {sched : Schedule} {kind : SourceType} {batchStart : ℕ} {batch : List β}
    {found : List γ} (hcount : batch.length ≤ sched.processorCount) (hfound : (batch.filterMap scorer).Perm found)
    (h : (sched.completion kind batchStart (List.range batch.length)).flatMap
      (fun worker => (piece 1 batch worker).filterMap scorer) = found) :
    parallelScoreBatch sched kind batchStart scorer batch = found := by
  simp only [parallelScoreBatch]
  split
  · rename_i hzero
    obtain rfl := List.eq_nil_of_length_eq_zero hzero
    exact hfound.symm.eq_nil.symm
  · have hworkers : min (max 1 sched.processorCount) batch.length = batch.length := by omega
    rw [hworkers]
    split
    · -- one source has one order
      have hlength : (batch.filterMap scorer).length ≤ 1 := (List.length_filterMap_le ..).trans ‹_›
      rcases hl : batch.filterMap scorer with _ | ⟨y, _ | ⟨z, rest⟩⟩
      · exact (hl ▸ hfound).symm.eq_nil.symm
      · exact (List.perm_singleton.mp (hl ▸ hfound).symm).symm
      · simp [hl] at hlength
    · have hsize : (batch.length + batch.length - 1) / batch.length = 1 :=
        Nat.div_eq_of_lt_le (by omega) (by omega)
      rw [hsize]
      exact h

end Batch

/-! ## All batches -/

/-- The candidates of each batch of one kind of source, in the order of the
sources. -/
def scoredBatches {β γ : Type} (scorer : β → Option γ) (sources : List β) : List (List γ) :=
  (List.range ((sources.length + scoringBatchSize - 1) / scoringBatchSize)).map fun i =>
    (piece scoringBatchSize sources i).filterMap scorer

section Batches

variable {β γ : Type} (sched : Schedule) (kind : SourceType) (scorer : β → Option γ) (sources : List β)

/-- The batches as they arrive. -/
def arrivingBatches : List (List γ) :=
  (List.range ((sources.length + scoringBatchSize - 1) / scoringBatchSize)).map fun i =>
    parallelScoreBatch sched kind (i * scoringBatchSize) scorer (piece scoringBatchSize sources i)

theorem scoreBatches_eq :
    scoreBatches sched kind scorer sources = (arrivingBatches sched kind scorer sources).flatten := by
  rw [scoreBatches, arrivingBatches, List.flatMap_def]

theorem shuffled_arrivingBatches :
    Shuffled (scoredBatches scorer sources) (arrivingBatches sched kind scorer sources) := by
  rw [scoredBatches, arrivingBatches, Shuffled, List.forall₂_map_left_iff, List.forall₂_map_right_iff]
  exact List.forall₂_same.mpr fun i _ => (parallelScoreBatch_perm sched kind scorer _ _).symm

variable {sched kind scorer sources}

/-- One processor takes the sources in their order. -/
theorem arrivingBatches_of_one (h : sched.processorCount ≤ 1) :
    arrivingBatches sched kind scorer sources = scoredBatches scorer sources := by
  refine List.map_congr_left fun i _ => ?_
  simp only [parallelScoreBatch]
  split
  · rename_i hzero
    rw [List.eq_nil_of_length_eq_zero hzero]
    rfl
  · rw [if_pos (by omega)]

/-- The orders of the workers that make the batches arrive as given. -/
theorem exists_orders (kind : SourceType) {batches : List (List γ)}
    (h : Shuffled (scoredBatches scorer sources) batches) :
    ∃ order : ℕ → List ℕ, ∀ sched : Schedule, scoringBatchSize ≤ sched.processorCount →
      (∀ start workers, (order start).Perm workers → sched.completion kind start workers = order start) →
      arrivingBatches sched kind scorer sources = batches := by
  have hlength := h.length_eq
  have hworkers (i : ℕ) : ∃ workers : List ℕ, ∀ hi : i < batches.length,
      workers.Perm (List.range (piece scoringBatchSize sources i).length) ∧
        workers.flatMap (fun worker => (piece 1 (piece scoringBatchSize sources i) worker).filterMap scorer) =
          batches[i] := by
    by_cases hi : i < batches.length
    · have hperm : ((piece scoringBatchSize sources i).filterMap scorer).Perm batches[i] := by
        simpa [scoredBatches] using h.get (hlength ▸ hi) hi
      obtain ⟨workers, hworkers⟩ := exists_workers hperm
      exact ⟨workers, fun _ => hworkers⟩
    · exact ⟨[], fun hi' => absurd hi' hi⟩
  choose order horder using hworkers
  refine ⟨fun start => order (start / scoringBatchSize), fun sched hcount hcompletion => ?_⟩
  refine List.ext_getElem ?_ fun i hi hi' => ?_
  · rw [← hlength, scoredBatches, arrivingBatches, List.length_map, List.length_map]
  · obtain ⟨hperm, hfound⟩ := horder i hi'
    have hstart : i * scoringBatchSize / scoringBatchSize = i := Nat.mul_div_cancel i (by decide)
    have hpiece : (piece scoringBatchSize sources i).length ≤ scoringBatchSize := List.length_take_le _ _
    have hscored : ((piece scoringBatchSize sources i).filterMap scorer).Perm batches[i] := by
      simpa [scoredBatches] using h.get (hlength ▸ hi') hi'
    simp only [arrivingBatches, List.getElem_map, List.getElem_range]
    refine parallelScoreBatch_of_workers (hpiece.trans hcount) hscored ?_
    have horder : (order (i * scoringBatchSize / scoringBatchSize)).Perm
        (List.range (piece scoringBatchSize sources i).length) := by rwa [hstart]
    rw [hcompletion _ _ horder]
    simpa only [hstart] using hfound

end Batches

section Candidates

variable {α : Type} [FloatLike α]

/-- A processor for each source of a batch, whose workers finish in the orders
given for the batches of each kind, where these are orders of them. -/
def Schedule.ofOrders (noteOrder chunkOrder : ℕ → List ℕ) : Schedule where
  processorCount := scoringBatchSize
  completion kind start workers :=
    let order := match kind with
      | .note => noteOrder start
      | .knowledgeChunk => chunkOrder start
    if order.Perm workers then order else workers
  completion_perm kind start workers := by
    dsimp only
    split_ifs with h
    · exact h
    · exact .refl _

/-- One processor: the sources are scored in their order. -/
def Schedule.sequential : Schedule := ⟨1, fun _ _ workers => workers, fun _ _ _ => .refl _⟩

/-- The candidates of each batch, in the order of the sources. -/
def candidateBatches (U : Unicode) (q : Query α) (notes : List (Note (List α)))
    (chunks : List (KnowledgeChunk (List α))) : List (List (ScoredCandidate α)) :=
  scoredBatches (scoreNote U q) notes ++ scoredBatches (scoreChunk U q) chunks

variable (U : Unicode) (q : Query α) (notes : List (Note (List α))) (chunks : List (KnowledgeChunk (List α)))

theorem scoreCandidates_eq (sched : Schedule) : scoreCandidates U sched q notes chunks =
    (arrivingBatches sched .note (scoreNote U q) notes ++
      arrivingBatches sched .knowledgeChunk (scoreChunk U q) chunks).flatten := by
  rw [scoreCandidates, scoreBatches_eq, scoreBatches_eq, List.flatten_append]

theorem scoreCandidates_sequential :
    scoreCandidates U .sequential q notes chunks = (candidateBatches U q notes chunks).flatten := by
  rw [scoreCandidates_eq, arrivingBatches_of_one le_rfl, arrivingBatches_of_one le_rfl, candidateBatches]

/-- The candidates can arrive as their batches do, each in any order, and in no
other way. -/
theorem exists_schedule_iff {candidates : List (ScoredCandidate α)} :
    (∃ sched, scoreCandidates U sched q notes chunks = candidates) ↔
      ∃ batches, Shuffled (candidateBatches U q notes chunks) batches ∧ batches.flatten = candidates := by
  constructor
  · rintro ⟨sched, rfl⟩
    refine ⟨_, ?_, (scoreCandidates_eq U q notes chunks sched).symm⟩
    exact List.rel_append (shuffled_arrivingBatches ..) (shuffled_arrivingBatches ..)
  · rintro ⟨batches, h, rfl⟩
    obtain ⟨noteBatches, chunkBatches, rfl, hnotes, hchunks⟩ := exists_append_of_shuffled h
    obtain ⟨noteOrder, hnoteOrder⟩ := exists_orders .note hnotes
    obtain ⟨chunkOrder, hchunkOrder⟩ := exists_orders .knowledgeChunk hchunks
    refine ⟨.ofOrders noteOrder chunkOrder, ?_⟩
    rw [scoreCandidates_eq, hnoteOrder _ le_rfl fun _ _ h => if_pos h, hchunkOrder _ le_rfl fun _ _ h => if_pos h]

/-- What the candidates are ranked by. -/
def rank (c : ScoredCandidate α) : (α ×ₗ α)ᵒᵈ := OrderDual.toDual (toLex (c.fusedScore, c.lexicalScore))

theorem sortedBy_ranksBefore (candidates : List (ScoredCandidate α)) :
    sortedBy ranksBefore candidates = sortOn rank candidates := sortedBy_eq_sortOn ranksBefore_iff candidates

/-- The candidates of a batch with the same scores, group by group, ranked. -/
def tieGroups : List (List (ScoredCandidate α)) := ties rank (candidateBatches U q notes chunks)

theorem ranked_sequential :
    sortedBy ranksBefore (scoreCandidates U .sequential q notes chunks) = (tieGroups U q notes chunks).flatten := by
  rw [sortedBy_ranksBefore, scoreCandidates_sequential]
  exact sortOn_flatten rank _

/-- The candidates are ranked as the groups are, each in any order. -/
theorem ranked_iff {ranked : List (ScoredCandidate α)} :
    (∃ sched, sortedBy ranksBefore (scoreCandidates U sched q notes chunks) = ranked) ↔
      ∃ groups, Shuffled (tieGroups U q notes chunks) groups ∧ groups.flatten = ranked := by
  rw [tieGroups, ← sortOn_shuffled_iff]
  constructor
  · rintro ⟨sched, rfl⟩
    obtain ⟨batches, h, heq⟩ := (exists_schedule_iff U q notes chunks).mp ⟨sched, rfl⟩
    exact ⟨batches, h, by rw [heq, sortedBy_ranksBefore]⟩
  · rintro ⟨batches, h, rfl⟩
    obtain ⟨sched, heq⟩ := (exists_schedule_iff U q notes chunks).mpr ⟨batches, h, rfl⟩
    exact ⟨sched, by rw [heq, sortedBy_ranksBefore]⟩

end Candidates

end SynapsNotes.Retrieval
