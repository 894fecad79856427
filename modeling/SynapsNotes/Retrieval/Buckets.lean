import SynapsNotes.Retrieval.Scoring

/-!
# Batches and buckets, by their indices

The batches of `scoreCandidates` and the buckets of `parallelScoreBatch` as
the code takes them apart: by a stride over the starts, ends that are clamped
to the count, and subscripts, each of which traps (`none`) where it is out of
range. None does (`parallelScoreBatch_eq`, `scoreBatches_eq`): the two come to
the pieces that the batches and buckets are taken to be elsewhere.
-/

namespace SynapsNotes.Retrieval.Indexed

variable {α : Type} [FloatLike α] {β γ : Type}

open Framework

/-! ## What may trap -/

/-- `start..<end`. -/
def range? (start end_ : Nat) : Option (List Nat) :=
  if start ≤ end_ then some (List.range' start (end_ - start)) else none

/-- `Array(sources[start..<end])`. -/
def slice? (sources : List β) (start end_ : Nat) : Option (List β) :=
  if start ≤ end_ ∧ end_ ≤ sources.length then some ((sources.drop start).take (end_ - start)) else none

def stride (to_ by_ : Nat) : Nat → Nat → List Nat
  | 0, _ => []
  | fuel + 1, start => if start < to_ then start :: stride to_ by_ fuel (start + by_) else []

/-- `stride(from: 0, to:by:)`: a step of at least one takes at most `to_`
steps. -/
def stride? (to_ by_ : Nat) : Option (List Nat) := if by_ = 0 then none else some (stride to_ by_ to_ 0)

/-- `compactMap(scorer)`, and the loop of a worker: a scorer may trap. -/
def compactMap (scorer : Nat → Option (Option γ)) (indices : List Nat) : Option (List γ) :=
  (indices.mapM scorer).map List.reduceOption

/-! ## The batches -/

/-- What a worker finds. -/
def workerBucket (count bucketSize : Nat) (scorer : Nat → Option (Option γ)) (worker : Nat) : Option (List γ) :=
  let start := worker * bucketSize
  if start < count then (range? start (min count (start + bucketSize))).bind (compactMap scorer) else some []

/-- `parallelScoreBatch`: what the workers find is merged in the order in
which they finish. -/
def parallelScoreBatch (sched : Schedule) (kind : SourceType) (batchStart count : Nat)
    (scorer : Nat → Option (Option γ)) : Option (List γ) :=
  if count = 0 then some []
  else
    let cpuCount := max 1 sched.processorCount
    let workerCount := min cpuCount count
    if workerCount ≤ 1 then (range? 0 count).bind (compactMap scorer)
    else
      let bucketSize := (count + workerCount - 1) / workerCount
      ((sched.completion kind batchStart (List.range workerCount)).mapM (workerBucket count bucketSize scorer)).map
        List.flatten

/-- The indices of the batches, one batch after another. -/
def batchIndices (count batchSize : Nat) : Option (List (List Nat)) :=
  (stride? count batchSize).bind fun starts => starts.mapM fun start => range? start (min count (start + batchSize))

/-- A loop of `scoreCandidates`, with `scoreNoteBatch` or `scoreChunkBatch`
in it. -/
def scoreBatches (sched : Schedule) (kind : SourceType) (batchSize : Nat) (scorer : β → Option γ)
    (sources : List β) : Option (List γ) :=
  (stride? sources.length batchSize).bind fun starts =>
    (starts.mapM fun start =>
      (slice? sources start (min sources.length (start + batchSize))).bind fun batch =>
        parallelScoreBatch sched kind start batch.length fun index => batch[index]?.map scorer).map List.flatten

def scoreCandidates (U : Unicode) (sched : Schedule) (batchSize : Nat) (q : Query α) (notes : List (Note (List α)))
    (chunks : List (KnowledgeChunk (List α))) : Option (List (ScoredCandidate α)) :=
  (scoreBatches sched .note batchSize (scoreNote U q) notes).bind fun fromNotes =>
    (scoreBatches sched .knowledgeChunk batchSize (scoreChunk U q) chunks).map fun fromChunks => fromNotes ++ fromChunks

/-! ## Nothing traps -/

theorem range?_of_le {start end_ : Nat} (h : start ≤ end_) :
    range? start end_ = some (List.range' start (end_ - start)) := if_pos h

/-- The starts are as many as there are batches, the last of which may be
short. -/
theorem stride_eq {by_ : Nat} (h : 0 < by_) (to_ : Nat) {fuel start : Nat} (hfuel : to_ ≤ start + fuel) :
    stride to_ by_ fuel start = List.range' start ((to_ - start + by_ - 1) / by_) by_ := by
  have hzero : (by_ - 1) / by_ = 0 := Nat.div_eq_of_lt (by omega)
  induction fuel generalizing start with
  | zero =>
    have hend : to_ - start + by_ - 1 = by_ - 1 := by omega
    rw [hend, hzero]
    rfl
  | succ fuel ih =>
    unfold stride
    split
    · rename_i hstart
      have hcount : to_ - start + by_ - 1 = to_ - start - 1 + by_ := by omega
      have hrest : (to_ - (start + by_) + by_ - 1) / by_ = (to_ - start - 1) / by_ := by
        rcases Nat.lt_or_ge (to_ - start) by_ with hlast | hmore
        · rw [Nat.div_eq_of_lt (by omega), Nat.div_eq_of_lt (by omega)]
        · congr 1
          omega
      rw [ih (by omega), hrest, hcount, Nat.add_div_right _ h, List.range'_succ]
    · have hend : to_ - start + by_ - 1 = by_ - 1 := by omega
      rw [hend, hzero]
      rfl

theorem stride?_eq {batchSize : Nat} (h : 0 < batchSize) (count : Nat) :
    stride? count batchSize = some ((List.range ((count + batchSize - 1) / batchSize)).map (· * batchSize)) := by
  have hstarts : stride count batchSize count 0 = List.range' 0 ((count + batchSize - 1) / batchSize) batchSize :=
    stride_eq h count (by omega)
  rw [stride?, if_neg (by omega), hstarts]
  refine congrArg some (List.ext_getElem (by simp) fun i _ _ => ?_)
  simp [Nat.mul_comm]

theorem compactMap_eq {scorer : Nat → Option (Option γ)} {g : Nat → Option γ} {indices : List Nat}
    (h : ∀ i ∈ indices, scorer i = some (g i)) : compactMap scorer indices = some (indices.filterMap g) := by
  rw [compactMap, mapM_of_forall h]
  show some ((indices.map g).filterMap id) = some (indices.filterMap g)
  rw [List.filterMap_map]
  rfl

section Batch

variable {count : Nat} {scorer : Nat → Option (Option γ)} {g : Nat → Option γ} (h : ∀ i < count, scorer i = some (g i))

include h

/-- A worker's bucket is a piece of the indices; the trailing ones may be
short, or empty. -/
theorem workerBucket_eq (bucketSize worker : Nat) :
    workerBucket count bucketSize scorer worker = some ((piece bucketSize (List.range count) worker).filterMap g) := by
  rw [piece_range]
  unfold workerBucket
  dsimp only
  split
  · rename_i hstart
    rw [range?_of_le (by omega), Option.bind_some]
    refine compactMap_eq fun i hi => h i ?_
    have := List.mem_range'_1.mp hi
    omega
  · rename_i hstart
    rw [Nat.sub_eq_zero_of_le (by omega)]
    rfl

/-- The buckets of a batch come to the pieces of its indices. -/
theorem parallelScoreBatch_indices (sched : Schedule) (kind : SourceType) (batchStart : Nat) :
    parallelScoreBatch sched kind batchStart count scorer =
      some (Retrieval.parallelScoreBatch sched kind batchStart g (List.range count)) := by
  unfold parallelScoreBatch Retrieval.parallelScoreBatch
  simp only [List.length_range]
  split
  · rfl
  split
  · rw [range?_of_le (Nat.zero_le _), Option.bind_some, Nat.sub_zero, ← List.range_eq_range']
    exact compactMap_eq fun i hi => h i (List.mem_range.mp hi)
  · rw [mapM_of_forall fun worker _ => workerBucket_eq h _ worker]
    rfl

end Batch

variable (sched : Schedule) (kind : SourceType)

/-- The elements of a batch are scored as they are elsewhere. -/
theorem parallelScoreBatch_eq (batchStart : Nat) (scorer : β → Option γ) (batch : List β) :
    parallelScoreBatch sched kind batchStart batch.length (fun index => batch[index]?.map scorer) =
      some (Retrieval.parallelScoreBatch sched kind batchStart scorer batch) := by
  have hscorer : ∀ i < batch.length, batch[i]?.map scorer = some (batch[i]?.bind scorer) := by
    intro i hi
    rw [List.getElem?_eq_getElem hi]
    rfl
  have hall := congrArg (List.filterMap (·.bind scorer)) (map_getElem?_range batch)
  have hpieces (k worker : Nat) :
      (piece k (List.range batch.length) worker).filterMap (fun i => batch[i]?.bind scorer) =
        (piece k batch worker).filterMap scorer := by
    have hmap := congrArg (fun l => (piece k l worker).filterMap (·.bind scorer)) (map_getElem?_range batch)
    simp only [piece_map, List.filterMap_map] at hmap
    exact hmap
  rw [List.filterMap_map, List.filterMap_map] at hall
  rw [parallelScoreBatch_indices hscorer]
  unfold Retrieval.parallelScoreBatch
  simp only [List.length_range, hpieces]
  split
  · rfl
  split
  · exact congrArg some hall
  · rfl

theorem slice?_eq_piece (batchSize : Nat) (sources : List β) {i : Nat} (h : i * batchSize ≤ sources.length) :
    slice? sources (i * batchSize) (min sources.length (i * batchSize + batchSize)) =
      some (piece batchSize sources i) := by
  rw [slice?, if_pos (by omega), piece_eq_take_min]

/-- A start that the stride reaches is before the end. -/
theorem start_lt {batchSize count i : Nat} (h : i < (count + batchSize - 1) / batchSize) : i * batchSize < count := by
  have := Nat.div_mul_le_self (count + batchSize - 1) batchSize
  have := Nat.mul_le_mul_right batchSize (Nat.succ_le_of_lt h)
  have := Nat.pos_of_ne_zero fun he : batchSize = 0 => by simp [he] at h
  rw [Nat.succ_mul] at *
  omega

/-- Each batch but the last is a piece of the indices, and the last is what is
left. -/
theorem batchIndices_eq {batchSize : Nat} (h : 0 < batchSize) (count : Nat) :
    batchIndices count batchSize =
      some ((List.range ((count + batchSize - 1) / batchSize)).map (piece batchSize (List.range count))) := by
  rw [batchIndices, stride?_eq h, Option.bind_some, List.mapM_map]
  refine mapM_of_forall fun i hi => ?_
  have := start_lt (List.mem_range.mp hi)
  show range? (i * batchSize) (min count (i * batchSize + batchSize)) = _
  rw [range?_of_le (by omega), piece_range]

/-- The batches of sources are scored one after another. -/
theorem scoreBatches_eq {batchSize : Nat} (h : 0 < batchSize) (scorer : β → Option γ) (sources : List β) :
    scoreBatches sched kind batchSize scorer sources =
      some ((List.range ((sources.length + batchSize - 1) / batchSize)).flatMap fun i =>
        Retrieval.parallelScoreBatch sched kind (i * batchSize) scorer (piece batchSize sources i)) := by
  rw [scoreBatches, stride?_eq h, Option.bind_some, List.mapM_map, mapM_of_forall fun i hi => ?_]
  · rfl
  · have := start_lt (List.mem_range.mp hi)
    show (slice? sources (i * batchSize) (min sources.length (i * batchSize + batchSize))).bind _ = _
    rw [slice?_eq_piece batchSize sources (by omega), Option.bind_some, parallelScoreBatch_eq]

theorem scoreBatches_perm {batchSize : Nat} (h : 0 < batchSize) (scorer : β → Option γ) (sources : List β) :
    ∃ found, scoreBatches sched kind batchSize scorer sources = some found ∧
      found.Perm (sources.filterMap scorer) := by
  refine ⟨_, scoreBatches_eq sched kind h scorer sources, ?_⟩
  refine (List.Perm.flatMap_left _ fun i _ => parallelScoreBatch_perm sched kind scorer _ _).trans ?_
  exact filterMap_pieces_perm scorer (.refl _) (length_le_ceil_mul h _)

/-- With the batch size of the code, the candidates are those of
`Retrieval.scoreCandidates`. -/
theorem scoreCandidates_eq (U : Unicode) (q : Query α) (notes : List (Note (List α)))
    (chunks : List (KnowledgeChunk (List α))) : scoreCandidates U sched scoringBatchSize q notes chunks =
      some (Retrieval.scoreCandidates U sched q notes chunks) := by
  have h : 0 < scoringBatchSize := by decide
  rw [scoreCandidates, scoreBatches_eq sched .note h, scoreBatches_eq sched .knowledgeChunk h]
  rfl

/-- For every number of items, every batch size and every number of
processors, and in whatever order the workers finish: the batches take the
indices in order, each once; the buckets of a batch take each of its indices
once, and none that is out of range; and so nothing traps, and the candidates
are those of the sequential loop in some order. -/
theorem indices_visited_once (sched : Schedule) {batchSize : Nat} (h : 0 < batchSize) :
    (∀ count, ∃ batches, batchIndices count batchSize = some batches ∧ batches.flatten = List.range count) ∧
    (∀ kind batchStart count, ∃ visited, parallelScoreBatch sched kind batchStart count
        (fun index => if index < count then some (some index) else none) = some visited ∧
      visited.Perm (List.range count)) ∧
    ∀ (U : Unicode) (q : Query α) (notes : List (Note (List α))) (chunks : List (KnowledgeChunk (List α))),
      ∃ candidates, scoreCandidates U sched batchSize q notes chunks = some candidates ∧
        candidates.Perm (notes.filterMap (scoreNote U q) ++ chunks.filterMap (scoreChunk U q)) := by
  refine ⟨fun count => ?_, fun kind batchStart count => ?_, fun U q notes chunks => ?_⟩
  · refine ⟨_, batchIndices_eq h count, ?_⟩
    rw [← List.flatMap_def]
    exact flatMap_piece (by rw [List.length_range]; exact length_le_ceil_mul h count)
  · refine ⟨_, parallelScoreBatch_indices (g := some) (fun i hi => if_pos hi) sched kind batchStart, ?_⟩
    have hperm := Retrieval.parallelScoreBatch_perm sched kind some batchStart (List.range count)
    rwa [List.filterMap_some] at hperm
  · obtain ⟨fromNotes, hnotes, hnotesPerm⟩ := scoreBatches_perm sched .note h (scoreNote U q) notes
    obtain ⟨fromChunks, hchunks, hchunksPerm⟩ := scoreBatches_perm sched .knowledgeChunk h (scoreChunk U q) chunks
    refine ⟨fromNotes ++ fromChunks, ?_, hnotesPerm.append hchunksPerm⟩
    rw [scoreCandidates, hnotes, hchunks]
    rfl

/-- Four processors, whose workers finish the last one first. -/
def lastFirst : Schedule := ⟨4, fun _ _ workers => workers.reverse, fun _ _ workers => workers.reverse_perm⟩

theorem visited_lastFirst : 0 < scoringBatchSize ∧
    (∃ batches, batchIndices 1201 scoringBatchSize = some batches ∧ batches.flatten = List.range 1201) ∧
    ∃ visited, parallelScoreBatch lastFirst .note 0 9
      (fun index => if index < 9 then some (some index) else none) = some visited ∧ visited.Perm (List.range 9) :=
  have h := indices_visited_once (α := ℚ) lastFirst (h := by decide)
  ⟨by decide, h.1 1201, h.2.1 .note 0 9⟩

/-- The last of four workers finds its bucket empty. -/
example : parallelScoreBatch lastFirst .note 0 9 (fun index => some (some index)) =
    some [6, 7, 8, 3, 4, 5, 0, 1, 2] := by decide

end SynapsNotes.Retrieval.Indexed
