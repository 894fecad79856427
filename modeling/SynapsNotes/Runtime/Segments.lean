import SynapsNotes.Runtime.ViewModel

/-!
# What the pieces of the program do

Each segment, job and call from outside, by the part of the state it can
change and the call it can make. Everything about schedules is proved from
these lemmas and unfolds no operation again.
-/

namespace SynapsNotes.Runtime

open Framework

variable {α : Type}

def Op.isScore : Op α → Bool
  | .score _ _ _ _ => true
  | _ => false

namespace ViewModel

variable {P : Platform} {m : ViewModel α} {choice : Choice} {isCancelled : Bool} {op : Op α}

/-! ## Indexing a source -/

theorem indexSingle_main {source : Source} {next : List (Op α)} : (m.indexSingle P source next).main = m := by
  unfold indexSingle
  split <;> rfl

theorem indexSingle_next {source : Source} {next : List (Op α)} : (m.indexSingle P source next).next = next := by
  unfold indexSingle
  split <;> rfl

/-- The text and its hash are read together. -/
theorem indexSingle_call {source : Source} {next : List (Op α)} {text : String} {use : Use}
    (h : Call.embed text use ∈ (m.indexSingle P source next).call) :
    ∃ id, use = .index source id (P.sha256 text) := by
  unfold indexSingle at h
  split at h
  · cases h
  · rename_i id _
    cases h
    exact ⟨id, by rw [Records.contentHash_eq]⟩

/-! ## The segment of an operation -/

/-- A segment that leaves the records, the flags and the scores of `m`, does
not go on to score, and asks for an embedding only to index a source. -/
structure Plain (P : Platform) (m : ViewModel α) (seg : Segment (ViewModel α) (Op α) Call) : Prop where
  records : seg.main.records = m.records
  isLoaded : seg.main.isLoaded = m.isLoaded
  currentId : seg.main.currentId = m.currentId
  semanticScores : seg.main.semanticScores = m.semanticScores
  next : ∀ op ∈ seg.next, op.isScore = false
  call : ∀ text use, Call.embed text use ∈ seg.call → ∃ source id, use = .index source id (P.sha256 text)

/-- A segment that makes no call for an embedding. -/
theorem plain_of_call {seg : Segment (ViewModel α) (Op α) Call} (hrecords : seg.main.records = m.records)
    (hflags : seg.main.isLoaded = m.isLoaded ∧ seg.main.currentId = m.currentId)
    (hscores : seg.main.semanticScores = m.semanticScores) (hnext : ∀ op ∈ seg.next, op.isScore = false)
    (hcall : ∀ text use, seg.call ≠ some (.embed text use)) : Plain P m seg where
  records := hrecords
  isLoaded := hflags.1
  currentId := hflags.2
  semanticScores := hscores
  next := hnext
  call text use h := absurd h (hcall text use)

theorem plain_indexSingle {source : Source} {next : List (Op α)} (h : ∀ op ∈ next, op.isScore = false) :
    Plain P m (m.indexSingle P source next) where
  records := by rw [indexSingle_main]
  isLoaded := by rw [indexSingle_main]
  currentId := by rw [indexSingle_main]
  semanticScores := by rw [indexSingle_main]
  next := by
    rw [indexSingle_next]
    exact h
  call text use h := ⟨source, indexSingle_call h⟩

/-- Retrieval asks for the query's embedding, or has sources scored without
one. -/
theorem retrieve_spec (P : Platform) (m : ViewModel α) (request : Request) (ragReady : Bool) :
    let seg := m.retrieve P request ragReady
    seg.main = m ∧
      (∀ call ∈ seg.call, ∃ eligible,
        call = .embed request.text (.query (m.currentId .embedding) eligible request.sources)) ∧
      ∀ op ∈ seg.next, ∃ judgedBy eligible, op = .score none judgedBy eligible request.sources := by
  simp only [retrieve]
  split
  · refine ⟨rfl, fun call h => ⟨_, (Option.some.inj h).symm⟩, fun op h => ?_⟩
    cases h
  · refine ⟨rfl, fun call h => ?_, fun op h => ⟨_, _, List.mem_singleton.mp h⟩⟩
    cases h

section Start

variable [FloatLike α]

/-- What the segment of an operation can do: nothing but to the models, the
tasks and the index's own flag; or that, after a chunk without an embedding
has been inserted; or to ask for the sources of a message or to score one. -/
theorem start_cases (P : Platform) (m : ViewModel α) (choice : Choice) (isCancelled : Bool) (op : Op α) :
    Plain P m (m.start P choice isCancelled op) ∨
    (∃ id chunk, chunk.embedding = none ∧
      Plain P { m with records := m.records.setChunk id chunk } (m.start P choice isCancelled op)) ∨
    (∃ request ragReady, op = .retrieve request ragReady) ∨
    ∃ query judgedBy eligible remaining, op = .score query judgedBy eligible remaining := by
  cases op
  case importChunks document index chunks =>
    cases chunks with
    | nil => exact Or.inl (plain_of_call rfl ⟨rfl, rfl⟩ rfl (by simp [start, importChunks]) (by simp [start, importChunks]))
    | cons chunk rest =>
      refine Or.inr (Or.inl ⟨chunk.id, newChunk P choice.now document index chunk, rfl, ?_⟩)
      simp only [start, importChunks]
      split
      · exact plain_indexSingle (by simp [Op.isScore])
      · exact plain_of_call rfl ⟨rfl, rfl⟩ rfl (by simp [Op.isScore]) (by simp)
  case retrieve request ragReady => exact Or.inr (Or.inr (Or.inl ⟨request, ragReady, rfl⟩))
  case score query judgedBy eligible remaining =>
    exact Or.inr (Or.inr (Or.inr ⟨query, judgedBy, eligible, remaining, rfl⟩))
  all_goals
    left
    simp only [start, loadModelAsync, loadCurrent, autoIndex, ensureIndexed, indexEach]
    repeat' split
  all_goals first
    | exact plain_of_call rfl ⟨rfl, rfl⟩ rfl (by simp [Op.isScore]) (by simp)
    | exact plain_indexSingle (by simp [Op.isScore])

/-- Scoring changes the scores alone: it adds that of the source it picks. -/
theorem score_spec (m : ViewModel α) (choice : Choice) (query : Option (Embedding α)) (judgedBy : Option ModelId)
    (eligible remaining : List Source) :
    let seg := m.score choice query judgedBy eligible remaining
    seg.main = { m with semanticScores := seg.main.semanticScores } ∧ seg.call = none ∧
      (∀ op ∈ seg.next, ∃ remaining', op = .score query judgedBy eligible remaining') ∧
      ∀ x ∈ seg.main.semanticScores, x ∈ m.semanticScores ∨
        ∃ source ∈ remaining[choice.pick % remaining.length]?, m.scoreSource query eligible source = some x := by
  simp only [score]
  split
  · refine ⟨rfl, rfl, fun op h => ?_, fun _ => Or.inl⟩
    cases h
  · rename_i source hsource
    refine ⟨rfl, rfl, fun op h => ⟨_, List.mem_singleton.mp h⟩, fun x h => ?_⟩
    rcases List.mem_append.mp h with h | h
    · exact Or.inl h
    · exact Or.inr ⟨source, hsource, Option.mem_toList.mp h⟩

/-- A segment changes the records only by inserting a chunk without an
embedding. -/
theorem start_records (P : Platform) (m : ViewModel α) (choice : Choice) (isCancelled : Bool) (op : Op α) :
    (m.start P choice isCancelled op).main.records = m.records ∨
    ∃ id chunk, chunk.embedding = none ∧
      (m.start P choice isCancelled op).main.records = m.records.setChunk id chunk := by
  rcases start_cases P m choice isCancelled op with h | ⟨id, chunk, hchunk, h⟩ | ⟨request, ragReady, rfl⟩ |
    ⟨query, judgedBy, eligible, remaining, rfl⟩
  · exact Or.inl h.records
  · exact Or.inr ⟨id, chunk, hchunk, h.records⟩
  · left
    rw [start, (retrieve_spec P m request ragReady).1]
  · left
    rw [start, (score_spec m choice query judgedBy eligible remaining).1]

/-- The loaded flags and the current models change only after a call. -/
theorem start_flags (P : Platform) (m : ViewModel α) (choice : Choice) (isCancelled : Bool) (op : Op α) :
    (m.start P choice isCancelled op).main.isLoaded = m.isLoaded ∧
    (m.start P choice isCancelled op).main.currentId = m.currentId := by
  rcases start_cases P m choice isCancelled op with h | ⟨id, chunk, -, h⟩ | ⟨request, ragReady, rfl⟩ |
    ⟨query, judgedBy, eligible, remaining, rfl⟩
  · exact ⟨h.isLoaded, h.currentId⟩
  · exact ⟨h.isLoaded, h.currentId⟩
  · rw [start, (retrieve_spec P m request ragReady).1]
    exact ⟨rfl, rfl⟩
  · rw [start, (score_spec m choice query judgedBy eligible remaining).1]
    exact ⟨rfl, rfl⟩

/-- An embedding is asked for to index a source, by the text and its hash, or
for a query, with the model id by which its sources are fresh. -/
theorem start_call {text : String} {use : Use} (h : Call.embed text use ∈ (m.start P choice isCancelled op).call) :
    (∃ source id, use = .index source id (P.sha256 text)) ∨
      ∃ eligible sources, use = .query (m.currentId .embedding) eligible sources := by
  rcases start_cases P m choice isCancelled op with hp | ⟨id, chunk, -, hp⟩ | ⟨request, ragReady, rfl⟩ |
    ⟨query, judgedBy, eligible, remaining, rfl⟩
  · exact Or.inl (hp.call text use h)
  · exact Or.inl (hp.call text use h)
  · obtain ⟨eligible, he⟩ := (retrieve_spec P m request ragReady).2.1 _ h
    cases he
    exact Or.inr ⟨eligible, request.sources, rfl⟩
  · rw [start, (score_spec m choice query judgedBy eligible remaining).2.1] at h
    cases h

/-- A query's embedding is scored by the task that asked for it, and by no
other operation. -/
theorem start_next_score {query : Embedding α} {judgedBy : Option ModelId} {eligible remaining : List Source}
    (h : Op.score (some query) judgedBy eligible remaining ∈ (m.start P choice isCancelled op).next) :
    ∃ remaining', op = .score (some query) judgedBy eligible remaining' := by
  rcases start_cases P m choice isCancelled op with hp | ⟨id, chunk, -, hp⟩ | ⟨request, ragReady, rfl⟩ |
    ⟨query', judgedBy', eligible', remaining', rfl⟩
  · exact nomatch hp.next _ h
  · exact nomatch hp.next _ h
  · obtain ⟨_, _, he⟩ := (retrieve_spec P m request ragReady).2.2 _ h
    cases he
  · obtain ⟨_, he⟩ := (score_spec m choice query' judgedBy' eligible' remaining').2.2.1 _ h
    cases he
    exact ⟨remaining', rfl⟩

/-- Semantic scores are added only by a scoring operation, of the source it
picks. -/
theorem start_semanticScores {x : SemanticScore α} (h : x ∈ (m.start P choice isCancelled op).main.semanticScores) :
    x ∈ m.semanticScores ∨ ∃ query judgedBy eligible remaining, op = .score query judgedBy eligible remaining ∧
      ∃ source ∈ remaining[choice.pick % remaining.length]?, m.scoreSource query eligible source = some x := by
  rcases start_cases P m choice isCancelled op with hp | ⟨id, chunk, -, hp⟩ | ⟨request, ragReady, rfl⟩ |
    ⟨query, judgedBy, eligible, remaining, rfl⟩
  · rw [hp.semanticScores] at h
    exact Or.inl h
  · rw [hp.semanticScores] at h
    exact Or.inl h
  · rw [start, (retrieve_spec P m request ragReady).1] at h
    exact Or.inl h
  · refine ((score_spec m choice query judgedBy eligible remaining).2.2.2 x h).imp_right fun hpicked => ?_
    exact ⟨query, judgedBy, eligible, remaining, rfl, hpicked⟩

end Start

/-! ## The segment after a call -/

/-- What the segment after a call can do: to the flags of models only, to
store a source's embedding, or to go on to score what a query's embedding is
for. -/
theorem resume_cases (P : Platform) (m : ViewModel α) (choice : Choice) (result : Return α) :
    ((m.resume P choice result).1.records = m.records ∧ (m.resume P choice result).1.semanticScores = m.semanticScores ∧
      (m.resume P choice result).2 = []) ∨
    (∃ source id contentHash e, result = .embed (.index source id contentHash) (.ok e) ∧
      m.resume P choice result =
        ({ m with records := m.records.storeEmbedding P choice.now e id contentHash source }, [])) ∨
    ∃ judgedBy eligible sources embedded, result = .embed (.query judgedBy eligible sources) embedded ∧
      m.resume P choice result = (m, [.score (queryEmbedding embedded) judgedBy eligible sources]) := by
  cases result with
  | load k item persistSelection result => cases result <;> exact Or.inl ⟨rfl, rfl, rfl⟩
  | unload => exact Or.inl ⟨rfl, rfl, rfl⟩
  | unloadAll => exact Or.inl ⟨rfl, rfl, rfl⟩
  | embed use result =>
    cases use with
    | index source id contentHash =>
      cases result with
      | ok e => exact Or.inr (Or.inl ⟨source, id, contentHash, e, rfl, rfl⟩)
      | error => exact Or.inl ⟨rfl, rfl, rfl⟩
    | query judgedBy eligible sources => exact Or.inr (Or.inr ⟨judgedBy, eligible, sources, result, rfl, rfl⟩)

/-- After a call the records change only by the embedding of a source. -/
theorem resume_records (P : Platform) (m : ViewModel α) (choice : Choice) (result : Return α) :
    (m.resume P choice result).1.records = m.records ∨
      ∃ source id contentHash e, result = .embed (.index source id contentHash) (.ok e) ∧
        (m.resume P choice result).1.records = m.records.storeEmbedding P choice.now e id contentHash source := by
  rcases resume_cases P m choice result with ⟨h, -, -⟩ | ⟨source, id, contentHash, e, he, h⟩ |
    ⟨judgedBy, eligible, sources, embedded, -, h⟩
  · exact Or.inl h
  · exact Or.inr ⟨source, id, contentHash, e, he, by rw [h]⟩
  · exact Or.inl (by rw [h])

/-- After a call the task goes on to score what its query's embedding is
for, or with what it had to do. -/
theorem resume_next (P : Platform) (m : ViewModel α) (choice : Choice) (result : Return α) :
    (m.resume P choice result).2 = [] ∨
      ∃ judgedBy eligible sources embedded, result = .embed (.query judgedBy eligible sources) embedded ∧
        (m.resume P choice result).2 = [.score (queryEmbedding embedded) judgedBy eligible sources] := by
  rcases resume_cases P m choice result with ⟨-, -, h⟩ | ⟨source, id, contentHash, e, -, h⟩ |
    ⟨judgedBy, eligible, sources, embedded, he, h⟩
  · exact Or.inl h
  · exact Or.inl (by rw [h])
  · exact Or.inr ⟨judgedBy, eligible, sources, embedded, he, by rw [h]⟩

theorem resume_semanticScores (P : Platform) (m : ViewModel α) (choice : Choice) (result : Return α) :
    (m.resume P choice result).1.semanticScores = m.semanticScores := by
  rcases resume_cases P m choice result with ⟨-, h, -⟩ | ⟨_, _, _, _, -, h⟩ | ⟨_, _, _, _, -, h⟩
  · exact h
  · rw [h]
  · rw [h]

/-! ## Calls of the user interface -/

/-- A call that leaves the records, the current models and the scores of
`m`, takes flags down at most, and starts no scoring. -/
structure PlainCall (m : ViewModel α) (spawn : Spawn (ViewModel α) (Op α)) : Prop where
  records : spawn.main.records = m.records
  currentId : spawn.main.currentId = m.currentId
  isLoaded : ∀ k, spawn.main.isLoaded k = true → m.isLoaded k = true
  semanticScores : spawn.main.semanticScores = m.semanticScores
  started : ∀ ops ∈ spawn.started, ∀ op ∈ ops, op.isScore = false

/-- What a call of the user interface can do: no more than that, or that
after an edit of a note or after a note was made stale. -/
theorem input_cases (P : Platform) (m : ViewModel α) (nextTask : Nat) (a : Input) :
    PlainCall m (m.input P nextTask a) ∨
    ∃ id f, (f = markNoteEmbeddingStale ∨
        ∃ title content now, f = fun note => { note with title, content, updatedAt := now }) ∧
      PlainCall { m with records := m.records.modifyNote id f } (m.input P nextTask a) := by
  cases a
  case editNote id title content now =>
    refine Or.inr ⟨id, _, Or.inr ⟨title, content, now, rfl⟩, ?_⟩
    exact ⟨rfl, rfl, fun _ h => h, rfl, by simp [input]⟩
  case noteEdited id =>
    refine Or.inr ⟨id, _, Or.inl rfl, ?_⟩
    exact ⟨rfl, rfl, fun _ h => h, rfl, by simp [input, handleNoteEdited, Op.isScore]⟩
  case sceneDidEnterBackground =>
    refine Or.inl ⟨rfl, rfl, fun _ h => absurd h Bool.false_ne_true, rfl, ?_⟩
    simp [input, handleSceneDidEnterBackground, Op.isScore]
  case deleteDownloaded item =>
    refine Or.inl ⟨rfl, rfl, fun _ h => h, rfl, fun ops hops op hop => ?_⟩
    obtain ⟨k, -, rfl⟩ := List.mem_map.mp hops
    rw [List.mem_singleton.mp hop]
    rfl
  all_goals
    left
    simp only [input, indexAll, startAutoIndexIfNeeded]
    repeat' split
  all_goals exact ⟨rfl, rfl, fun _ h => h, rfl, by simp [Op.isScore]⟩

section Input

variable {a : Input} {nextTask : Nat}

/-- From outside, the records change only by an edit of a note or by a note
made stale. -/
theorem input_records (P : Platform) (m : ViewModel α) (nextTask : Nat) (a : Input) :
    (m.input P nextTask a).main.records = m.records ∨
    ∃ id f, (m.input P nextTask a).main.records = m.records.modifyNote id f ∧
      (f = markNoteEmbeddingStale ∨ ∃ title content now, f = fun note => { note with title, content, updatedAt := now }) := by
  rcases input_cases P m nextTask a with h | ⟨id, f, hf, h⟩
  · exact Or.inl h.records
  · exact Or.inr ⟨id, f, h.records, hf⟩

/-- The loaded flags change only when the scene goes to the background. -/
theorem input_flags (P : Platform) (m : ViewModel α) (nextTask : Nat) (a : Input) :
    (m.input P nextTask a).main.currentId = m.currentId ∧
    ∀ k, (m.input P nextTask a).main.isLoaded k → m.isLoaded k := by
  rcases input_cases P m nextTask a with h | ⟨id, f, -, h⟩
  · exact ⟨h.currentId, h.isLoaded⟩
  · exact ⟨h.currentId, h.isLoaded⟩

theorem input_semanticScores (P : Platform) (m : ViewModel α) (nextTask : Nat) (a : Input) :
    (m.input P nextTask a).main.semanticScores = m.semanticScores := by
  rcases input_cases P m nextTask a with h | ⟨id, f, -, h⟩
  · exact h.semanticScores
  · exact h.semanticScores

/-- No call starts a task that scores. -/
theorem input_started {ops : List (Op α)} (h : ops ∈ (m.input P nextTask a).started)
    (query : Option (Embedding α)) (judgedBy : Option ModelId) (eligible remaining : List Source) :
    Op.score query judgedBy eligible remaining ∉ ops := by
  intro hop
  rcases input_cases P m nextTask a with hp | ⟨id, f, -, hp⟩
  · exact nomatch hp.started ops h _ hop
  · exact nomatch hp.started ops h _ hop

end Input

end ViewModel

/-! ## The records -/

section Records

variable {Q : Entry α → Prop} (hQ : OfEmbedding Q) {P : Platform} {m : ViewModel α}
  (hm : ∀ source, Q (m.records.entry source))

include hQ hm

theorem forall_entry_input (n : Nat) (a : Input) (source : Source) :
    Q ((m.input P n a).main.records.entry source) := by
  rcases m.input_records P n a with h | ⟨id, f, h, rfl | ⟨title, content, now, rfl⟩⟩
  · rw [h]
    exact hm source
  · rw [h]
    exact hQ.markNoteEmbeddingStale hm id source
  · rw [h]
    exact hQ.editNote hm id title content now source

theorem forall_entry_start [FloatLike α] (choice : Choice) (isCancelled : Bool) (op : Op α) (source : Source) :
    Q ((m.start P choice isCancelled op).main.records.entry source) := by
  rcases m.start_records P choice isCancelled op with h | ⟨id, chunk, hchunk, h⟩
  · rw [h]
    exact hm source
  · rw [h]
    exact hQ.setChunk hm id hchunk source

end Records

/-- After a call only a source's embedding is stored, with the id and the
hash that its task has kept. -/
theorem forall_entry_resume {Q : Entry α → Prop} {P : Platform} {m : ViewModel α}
    (hm : ∀ source, Q (m.records.entry source)) (choice : Choice) (result : Return α)
    (h : ∀ source id contentHash e, result = .embed (.index source id contentHash) (.ok e) →
      ∀ text, Q ⟨text, some e, some id, some contentHash⟩) (source : Source) :
    Q ((m.resume P choice result).1.records.entry source) := by
  rcases m.resume_records P choice result with hsame | ⟨source', id, contentHash, e, he, hstored⟩
  · rw [hsame]
    exact hm source
  · rw [hstored]
    exact forall_entry_storeEmbedding hm (h source' id contentHash e he) source

/-- A job that computes an embedding leaves the actor as it is. -/
theorem LlamaContext.perform_embed (answer : Answer α) (text : String) (use : Use) (l : LlamaContext) :
    l.perform answer (.embed text use) = (l, .embed use (l.embedWithEmbeddingModel text answer.values)) := rfl

end SynapsNotes.Runtime
