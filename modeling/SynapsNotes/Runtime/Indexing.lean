import SynapsNotes.Framework.Locks
import SynapsNotes.Runtime.Segments

/-!
# One bulk indexing run at a time

`indexAllNotes` and `reindexKnowledgeBase` put `isIndexing` up before they
start their task, `ensureIndexedForRAG` and
`ensureKnowledgeChunksIndexedForRAG` after the awaits of whoever called them;
each looks at it in the same segment, and no loop takes it down but at its own
end. So the flag is held by the round that the loop goes on with
(`locking_indexing`), and `oneIndexing` follows for every schedule.
-/

namespace SynapsNotes.Runtime

open Framework

variable {α : Type}

/-! ## The entry points -/

def indexAllNotes (notes : List UUID) : Input := .indexAll (notes.map .note)

def reindexKnowledgeBase (chunks : List UUID) : Input := .indexAll (chunks.map .chunk)

def startAutoIndexIfNeeded (notes : List UUID) : Input := .startAutoIndexIfNeeded (notes.map .note)

def startAutoIndexKnowledgeIfNeeded (chunks : List UUID) : Input := .startAutoIndexIfNeeded (chunks.map .chunk)

/-! ## Runs -/

/-- A loop over sources, from its start to its end, has a round to come. -/
def Op.isIndexing : Op α → Bool
  | .indexEach _ _ => true
  | _ => false

/-- The bulk indexing runs that are between their start and their end. -/
def State.indexingRuns (s : State α) : Nat := s.holders Op.isIndexing

/-- One bulk indexing run at most, and `isIndexing` is true exactly while
there is one. -/
structure OneIndexing (s : State α) : Prop where
  atMostOne : s.indexingRuns ≤ 1
  isIndexing : s.main.isIndexing = true ↔ s.indexingRuns = 1

namespace ViewModel

variable {P : Platform} {m : ViewModel α} {choice : Choice}

/-! ## The pieces of the program -/

/-- What a segment that begins with `own` rounds leaves: as many as the flag
has room for. -/
def Balanced (m : ViewModel α) (own : Nat) (seg : Segment (ViewModel α) (Op α) Call) : Prop :=
  seg.main.isIndexing.toNat + own = m.isIndexing.toNat + seg.next.countP Op.isIndexing

/-- A segment that leaves the flag and no round to come. -/
theorem balanced_of_same {seg : Segment (ViewModel α) (Op α) Call} (hflag : seg.main.isIndexing = m.isIndexing)
    (hnext : seg.next.countP Op.isIndexing = 0) : Balanced m 0 seg := by
  rw [Balanced, hflag, hnext]

theorem balanced_indexSingle (source : Source) (next : List (Op α)) :
    Balanced m (next.countP Op.isIndexing) (m.indexSingle P source next) := by
  rw [Balanced, indexSingle_main, indexSingle_next]

/-- A round of a loop ends the run and takes the flag down, or goes on. -/
theorem balanced_indexEach {hasDeadline : Bool} (sources : List Source) (h : m.isIndexing = true) :
    Balanced m 1 (m.indexEach P choice hasDeadline sources) := by
  have hend : Balanced m 1 ⟨{ m with isIndexing := false }, [], none⟩ := by
    rw [Balanced, h]
    rfl
  cases sources with
  | nil => exact hend
  | cons source rest =>
    simp only [indexEach]
    split
    · exact hend
    · exact balanced_indexSingle source [.indexEach rest hasDeadline]

/-- A run starts only where the flag is down, and puts it up. -/
theorem balanced_ensureIndexed (sources : List Source) (hasDeadline : Bool) :
    Balanced m 0 (m.ensureIndexed P sources hasDeadline) := by
  unfold ensureIndexed
  split
  case isTrue => exact balanced_of_same rfl rfl
  case isFalse hguard =>
    have hdown : m.isIndexing = false := by
      simp only [Bool.or_eq_true, not_or, Bool.not_eq_true] at hguard
      exact hguard.2
    dsimp only
    split
    · exact balanced_of_same rfl rfl
    · rw [Balanced, hdown]
      rfl

theorem balanced_start [FloatLike α] (isCancelled : Bool) (op : Op α) (h : op.isIndexing = true → m.isIndexing = true) :
    Balanced m op.isIndexing.toNat (m.start P choice isCancelled op) := by
  cases op
  case indexEach sources hasDeadline => exact balanced_indexEach sources (h rfl)
  case ensureIndexed sources hasDeadline => exact balanced_ensureIndexed sources hasDeadline
  case autoIndex id =>
    simp only [start, autoIndex]
    repeat' split
    · exact balanced_of_same rfl rfl
    · exact balanced_of_same rfl rfl
    · exact balanced_indexSingle _ _
  case importChunks document index chunks =>
    cases chunks with
    | nil => exact balanced_of_same rfl rfl
    | cons chunk rest =>
      simp only [start, importChunks]
      split
      · exact balanced_indexSingle _ _
      · exact balanced_of_same rfl rfl
  all_goals
    simp only [start, loadModelAsync, loadCurrent, retrieve, score]
    repeat' split
  all_goals exact balanced_of_same rfl rfl

theorem isIndexing_modelLoaded (k : Slot) (item : ModelCatalogItem) (persistSelection : Bool)
    (result : Except LlamaError Unit) : (m.modelLoaded k item persistSelection result).isIndexing = m.isIndexing := by
  cases result <;> rfl

/-- After a call no run starts or ends. -/
theorem balanced_resume (result : Return α) :
    (m.resume P choice result).1.isIndexing.toNat =
      m.isIndexing.toNat + (m.resume P choice result).2.countP Op.isIndexing := by
  cases result with
  | load k item persistSelection result => exact congrArg _ (isIndexing_modelLoaded k item persistSelection result)
  | unload => rfl
  | unloadAll => rfl
  | embed use result =>
    cases use with
    | index source id contentHash => cases result <;> rfl
    | query judgedBy eligible sources => rfl

/-- A call from outside starts one run at most, where the flag is down. -/
theorem balanced_input (n : Nat) (a : Input) :
    (m.input P n a).main.isIndexing.toNat =
      m.isIndexing.toNat + ((m.input P n a).started.map fun ops => ops.countP Op.isIndexing).sum := by
  cases a
  case indexAll sources =>
    simp only [input, indexAll]
    split
    · rfl
    case isFalse hguard =>
      have hdown : m.isIndexing = false := by
        simp only [Bool.or_eq_true, not_or, Bool.not_eq_true] at hguard
        exact hguard.1.2
      rw [hdown]
      rfl
  case deleteDownloaded item =>
    have hzero (slots : List Slot) :
        ((slots.map fun k => [Op.unload (α := α) k true]).map fun ops => ops.countP Op.isIndexing).sum = 0 := by
      induction slots with
      | nil => rfl
      | cons k slots ih => simpa [Op.isIndexing] using ih
    exact (congrArg (m.isIndexing.toNat + ·) (hzero _)).symm
  all_goals
    simp only [input, startAutoIndexIfNeeded]
    repeat' split
  all_goals rfl

end ViewModel

/-- Each piece of the program trades `isIndexing` for a run or a run for it. -/
theorem locking_indexing [FloatLike α] (P : Platform) :
    Locking (program (α := α) P) ViewModel.isIndexing Op.isIndexing where
  input a n _ := ViewModel.balanced_input n a
  start _ c op _ h := ViewModel.balanced_start c op h
  resume _ result _ := ViewModel.balanced_resume result

/-- On every schedule, whatever is loaded, edited, imported, sent and indexed
in whatever order: at most one bulk indexing run is between its start and its
end, and `isIndexing` is true exactly while one is. -/
theorem oneIndexing [FloatLike α] (P : Platform) (catalog : List ModelCatalogItem) (isLowPowerMode : Bool)
    (activeId : Slot → Option ModelId) (records : Records α) (as : List (Event α)) :
    (machine P).Always OneIndexing (State.launch catalog isLowPowerMode activeId records) as :=
  have hlaunch : Locked ViewModel.isIndexing Op.isIndexing (State.launch catalog isLowPowerMode activeId records) := rfl
  ((locking_indexing P).always hlaunch as).mono fun _ hs => ⟨hs.holders_le_one, hs.flag_iff⟩

/-- While the notes are indexed, the chunks and the message wait. -/
example :
    ((machine ⟨.ascii, id⟩).run firstLaunch
      [.input (.loadModel .embedding (modelItem "embed-a" .embedding)), .advance 0 promptly, .perform 0 answered,
        .advance 0 promptly, .input (startAutoIndexIfNeeded [0]), .input (startAutoIndexKnowledgeIfNeeded [0]),
        .input (indexAllNotes [0]), .input (reindexKnowledgeBase [0]), .advance 1 promptly, .advance 2 promptly,
        .advance 3 promptly]).map (fun s => (s.main.isIndexing, s.indexingRuns)) = some (true, 1) := by
  decide +kernel

end SynapsNotes.Runtime
