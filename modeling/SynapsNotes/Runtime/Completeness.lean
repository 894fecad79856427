import SynapsNotes.Framework.Obligations
import SynapsNotes.Runtime.Indexing

/-!
# What a bulk indexing run leaves behind

A run of `indexAllNotes` or `reindexKnowledgeBase` owes each source that it
was given an embedding of its text. A round reads the text and goes on with
the rest, so what is owed is with the rounds to come or with the call that is
under way; another task may write the source too, but what it writes is read
from the same text. When `isIndexing` is down again, every source that nothing
has touched is fresh (`isFresh_of_indexAll`).

The flag does not stay up for want of anything but steps of its own task
(`indexing_ends`).
-/

namespace SynapsNotes.Runtime

open Framework

variable {α : Type}

/-- The user edits it. -/
def Input.edits (source : Source) : Input → Bool
  | .editNote id _ _ _ | .noteEdited id => decide (source = .note id)
  | _ => false

/-- An import inserts it. -/
def Op.inserts (source : Source) : Op α → Bool
  | .importChunks _ _ (chunk :: _) => decide (source = .chunk chunk.id)
  | _ => false

/-- Its embedding fails or has no value. -/
def Call.fails (source : Source) (answer : Answer α) (l : LlamaContext) : Call → Bool
  | .embed text (.index source' _ _) =>
    decide (source' = source) &&
      match l.embedWithEmbeddingModel text answer.values with
      | .ok e => e.values.isEmpty
      | .error _ => true
  | _ => false

/-- Another embedding model becomes the current one, or none. -/
def Return.replaces (embeddingModelId : ModelId) : Return α → Bool
  | .load .embedding item _ (.ok ()) => item.id != embeddingModelId
  | .unload .embedding true => true
  | _ => false

/-- Nothing of it happens. -/
def undisturbed (source : Source) (embeddingModelId : ModelId) :
    Conditions (ViewModel α) LlamaContext (Op α) Call (Return α) Input Choice (Answer α) where
  input a := a.edits source = false
  start _ _ op := op.inserts source = false
  perform answer l call := call.fails source answer l = false
  resume result := result.replaces embeddingModelId = false

instance (source : Source) (id : ModelId) (s : State α) (a : Event α) :
    Decidable ((undisturbed source id).Permit s a) :=
  match a with
  | .input a => inferInstanceAs (Decidable (a.edits source = false))
  | .advance i _ => inferInstanceAs (Decidable (∀ t ∈ s.tasks[i]?,
      t.Starts (fun op => op.inserts source = false) ∧
        t.at_.Holds (fun _ => True) fun result => result.replaces id = false))
  | .perform i answer => inferInstanceAs (Decidable (∀ t ∈ s.tasks[i]?,
      t.at_.Holds (fun call => call.fails source answer s.actor = false) fun _ => True))

/-- An embedding of the source that is asked for is asked for by this model id
and hash. -/
def Call.IsUpToDate (source : Source) (embeddingModelId : ModelId) (contentHash : String) : Call → Prop
  | .embed _ (.index source' embeddingModelId' contentHash') =>
    source' = source → embeddingModelId' = embeddingModelId ∧ contentHash' = contentHash
  | _ => True

def Return.IsUpToDate (source : Source) (embeddingModelId : ModelId) (contentHash : String) : Return α → Prop
  | .embed (.index source' embeddingModelId' contentHash') result =>
    source' = source → embeddingModelId' = embeddingModelId ∧ contentHash' = contentHash ∧
      ∃ e, result = .ok e ∧ e.values ≠ []
  | _ => True

/-- The rounds to come have the source, whatever the time. -/
def Op.Owes (source : Source) : Op α → Prop
  | .indexEach sources hasDeadline => hasDeadline = false ∧ source ∈ sources
  | _ => False

def Call.IsOf (source : Source) : Call → Prop
  | .embed _ (.index source' _ _) => source' = source
  | _ => False

def Return.IsOf (source : Source) : Return α → Prop
  | .embed (.index source' _ _) _ => source' = source
  | _ => False

namespace ViewModel

variable {P : Platform} {m : ViewModel α} {choice : Choice} {isCancelled : Bool} {op : Op α} {source : Source}
  {id : ModelId} {contentHash : String}

theorem isFresh_iff : m.isFresh P source = true ↔
    (∃ e, (m.records.entry source).embedding = some e ∧ e.values ≠ []) ∧
      (∃ id, (m.records.entry source).embeddingModelId = some id ∧ m.currentId .embedding = some id) ∧
        (m.records.entry source).embeddingContentHash = some (m.records.contentHash P source) := by
  rw [Records.contentHash_eq]
  exact Records.isFresh_iff

/-- What the source has and the current embedding model, as before. -/
structure SameSource (source : Source) (m m' : ViewModel α) : Prop where
  entry : m'.records.entry source = m.records.entry source
  currentId : m'.currentId .embedding = m.currentId .embedding

theorem SameSource.contentHash_eq {m' : ViewModel α} (h : SameSource source m m') (P : Platform) :
    m'.records.contentHash P source = m.records.contentHash P source := by
  rw [Records.contentHash_eq, Records.contentHash_eq, h.entry]

theorem SameSource.isFresh {m' : ViewModel α} (h : SameSource source m m') (hfresh : m.isFresh P source = true) :
    m'.isFresh P source = true := by
  rw [isFresh_iff] at hfresh ⊢
  rwa [h.entry, h.currentId, h.contentHash_eq]

/-! ## The pieces of the program -/

theorem sameSource_input {a : Input} (n : Nat) (h : a.edits source = false) :
    SameSource source m (m.input P n a).main := by
  cases a
  case editNote id' title content now =>
    have hne : source ≠ .note id' := of_decide_eq_false h
    constructor
    · exact Records.entry_modifyNote_of_ne (f := fun note => { note with title, content, updatedAt := now }) hne
    · rfl
  case noteEdited id' =>
    have hne : source ≠ .note id' := of_decide_eq_false h
    constructor
    · exact Records.entry_modifyNote_of_ne (f := markNoteEmbeddingStale) hne
    · rfl
  all_goals
    simp only [input, indexAll, startAutoIndexIfNeeded]
    repeat' split
  all_goals exact ⟨rfl, rfl⟩

theorem sameSource_indexSingle {source' : Source} {next : List (Op α)} :
    SameSource source m (m.indexSingle P source' next).main := by
  rw [indexSingle_main]
  exact ⟨rfl, rfl⟩

section Start

variable [FloatLike α]

theorem sameSource_start (h : op.inserts source = false) :
    SameSource source m (m.start P choice isCancelled op).main := by
  cases op
  case importChunks document index chunks =>
    cases chunks with
    | nil => exact ⟨rfl, rfl⟩
    | cons chunk rest =>
      have hne : source ≠ .chunk chunk.id := of_decide_eq_false h
      have hinsert : SameSource source m
          { m with records := m.records.setChunk chunk.id (newChunk P choice.now document index chunk) } :=
        ⟨Records.entry_setChunk_of_ne hne, rfl⟩
      simp only [start, importChunks]
      split
      · rw [indexSingle_main]
        exact hinsert
      · exact hinsert
  all_goals
    simp only [start, loadModelAsync, loadCurrent, autoIndex, ensureIndexed, indexEach, retrieve, score]
    repeat' split
  all_goals first
    | exact ⟨rfl, rfl⟩
    | exact sameSource_indexSingle

omit [FloatLike α] in
/-- The call of a round is by the current model id and of the current text. -/
theorem indexSingle_call_eq {source' : Source} {next : List (Op α)} {text : String} {id : ModelId}
    (h : Call.embed text (.index source id contentHash) ∈ (m.indexSingle P source' next).call) :
    m.currentId .embedding = some id ∧ contentHash = m.records.contentHash P source := by
  unfold indexSingle at h
  split at h
  · cases h
  · rename_i id' hid
    cases h
    exact ⟨hid, rfl⟩

/-- Every embedding of a source is asked for by the current model id and the
hash of the text that it has after the segment. -/
theorem start_index_call {text : String} {id : ModelId}
    (h : Call.embed text (.index source id contentHash) ∈ (m.start P choice isCancelled op).call) :
    m.currentId .embedding = some id ∧
      contentHash = (m.start P choice isCancelled op).main.records.contentHash P source := by
  cases op
  case importChunks document index chunks =>
    cases chunks with
    | nil => exact absurd h (Option.not_mem_none _)
    | cons chunk rest =>
      simp only [start, importChunks] at h ⊢
      split at h
      · rename_i hloaded
        rw [if_pos hloaded, indexSingle_main]
        exact indexSingle_call_eq h
      · exact absurd h (Option.not_mem_none _)
  case autoIndex id' =>
    simp only [start, autoIndex] at h ⊢
    repeat' split at h
    · exact absurd h (Option.not_mem_none _)
    · exact absurd h (Option.not_mem_none _)
    · rename_i hcancelled hloaded
      rw [if_neg hcancelled, if_neg hloaded, indexSingle_main]
      exact indexSingle_call_eq h
  case indexEach sources hasDeadline =>
    cases sources with
    | nil => exact absurd h (Option.not_mem_none _)
    | cons source' rest =>
      simp only [start, indexEach] at h ⊢
      split at h
      · exact absurd h (Option.not_mem_none _)
      · rename_i hdeadline
        rw [if_neg hdeadline, indexSingle_main]
        exact indexSingle_call_eq h
  all_goals
    simp only [start, loadModelAsync, loadCurrent, ensureIndexed, retrieve, score] at h
    repeat' split at h
  all_goals simp at h

/-- A round embeds its source, and leaves the others to the next. -/
theorem owes_start (hid : m.currentId .embedding = some id) (h : op.Owes source) :
    (∃ op' ∈ (m.start P choice isCancelled op).next, op'.Owes source) ∨
      (∃ call ∈ (m.start P choice isCancelled op).call, call.IsOf source) ∧
        ∃ op' ∈ (m.start P choice isCancelled op).next, op'.isIndexing = true := by
  cases op with
  | indexEach sources hasDeadline =>
    obtain ⟨rfl, hmem⟩ := h
    cases sources with
    | nil => exact nomatch hmem
    | cons source' rest =>
      have hround : m.start P choice isCancelled (.indexEach (source' :: rest) false) =
          ⟨m, [.indexEach rest false], some (.embed (m.records.entry source').text
            (.index source' id (m.records.contentHash P source')))⟩ := by
        simp only [start, indexEach, Bool.false_and, Bool.false_eq_true, if_false, indexSingle, hid]
      rw [hround]
      rcases List.mem_cons.mp hmem with rfl | hmem
      · exact .inr ⟨⟨_, rfl, rfl⟩, _, List.mem_singleton_self _, rfl⟩
      · exact .inl ⟨_, List.mem_singleton_self _, rfl, hmem⟩
  | _ => exact h.elim

end Start

/-- After a call the current embedding model is as it was. -/
theorem currentId_resume {result : Return α} (hid : m.currentId .embedding = some id)
    (h : result.replaces id = false) :
    (m.resume P choice result).1.currentId .embedding = some id := by
  cases result with
  | load k item persistSelection result =>
    cases result with
    | error => exact hid
    | ok =>
      show Function.update m.currentId k (some item.id) .embedding = some id
      cases k with
      | chat => rwa [Function.update_of_ne (by decide)]
      | embedding =>
        have hitem : item.id = id := by simpa [Return.replaces] using h
        rw [Function.update_self, hitem]
  | unload k clearSelection =>
    cases clearSelection with
    | false => exact hid
    | true =>
      cases k with
      | chat =>
        show Function.update m.currentId .chat none .embedding = some id
        rwa [Function.update_of_ne (by decide)]
      | embedding => exact nomatch h
  | unloadAll => exact hid
  | embed use result =>
    cases use with
    | index => cases result <;> exact hid
    | query => exact hid

/-- After a call the source's text is as it was; its embedding too, if it was
not embedded. -/
theorem entry_resume {result : Return α} (h : ¬ result.IsOf source) :
    (m.resume P choice result).1.records.entry source = m.records.entry source := by
  rcases m.resume_records P choice result with hrecords | ⟨source', id', contentHash', e, rfl, hrecords⟩
  · rw [hrecords]
  · have hne : source ≠ source' := fun he => h he.symm
    rw [hrecords, Records.entry_storeEmbedding, if_neg hne]

/-- An embedding that was asked for by the current model id and the hash of
the current text makes its source fresh. -/
theorem resume_isOf {result : Return α} (hid : m.currentId .embedding = some id)
    (h : result.IsUpToDate source id (m.records.contentHash P source)) (hof : result.IsOf source) :
    (m.resume P choice result).1.records.contentHash P source = m.records.contentHash P source ∧
      (m.resume P choice result).1.isFresh P source = true := by
  cases result with
  | embed use result =>
    cases use with
    | index source' id' contentHash' =>
      obtain rfl : source' = source := hof
      obtain ⟨rfl, rfl, e, rfl, he⟩ := h rfl
      have hentry : (m.resume P choice (.embed (.index source' id' (m.records.contentHash P source')) (.ok e))).1.records.entry
          source' = ⟨(m.records.entry source').text, some e, some id', some (m.records.contentHash P source')⟩ := by
        show (m.records.storeEmbedding P choice.now e id' (m.records.contentHash P source') source').entry source' = _
        rw [Records.entry_storeEmbedding, if_pos rfl]
      have hhash : (m.resume P choice (.embed (.index source' id' (m.records.contentHash P source'))
          (.ok e))).1.records.contentHash P source' = m.records.contentHash P source' := by
        rw [Records.contentHash_eq, hentry, Records.contentHash_eq]
      refine ⟨hhash, isFresh_iff.mpr ?_⟩
      rw [hhash, hentry]
      exact ⟨⟨e, rfl, he⟩, ⟨id', rfl, hid⟩, rfl⟩
    | query => exact hof.elim
  | _ => exact hof.elim

end ViewModel

/-- Each piece of the program, where nothing disturbs the source. -/
theorem discharging_indexing [FloatLike α] (P : Platform) (source : Source) (id : ModelId) (contentHash : String) :
    Discharging (program (α := α) P) (undisturbed source id)
      (fun m => m.currentId .embedding = some id ∧ m.records.contentHash P source = contentHash)
      (Call.IsUpToDate source id contentHash) (Return.IsUpToDate source id contentHash)
      (fun m => m.isFresh P source = true) Op.isIndexing (Op.Owes source) (Call.IsOf source) (Return.IsOf source) where
  holds_of_owes op h := by
    cases op with
    | indexEach => rfl
    | _ => exact h.elim
  input a n m hm ha := by
    have hsame : ViewModel.SameSource source m (m.input P n a).main := ViewModel.sameSource_input n ha
    exact ⟨⟨hsame.currentId.trans hm.1, (hsame.contentHash_eq P).trans hm.2⟩, hsame.isFresh⟩
  start choice b op m hm hop := by
    have hsame : ViewModel.SameSource source m (m.start P choice b op).main := ViewModel.sameSource_start hop
    refine ⟨⟨hsame.currentId.trans hm.1, (hsame.contentHash_eq P).trans hm.2⟩, fun call hcall => ?_, hsame.isFresh,
      ViewModel.owes_start hm.1⟩
    cases call with
    | embed text use =>
      cases use with
      | index source' id' contentHash' =>
        rintro rfl
        obtain ⟨hid, hhash⟩ := ViewModel.start_index_call hcall
        refine ⟨Option.some.inj (hid.symm.trans hm.1), ?_⟩
        rw [hhash, hsame.contentHash_eq P, hm.2]
      | query => trivial
    | _ => trivial
  perform answer call l hcall hok := by
    cases call with
    | embed text use =>
      cases use with
      | index source' id' contentHash' =>
        refine ⟨fun hsource => ⟨(hcall hsource).1, (hcall hsource).2, ?_⟩, fun h => h⟩
        have hok : (Call.embed text (.index source' id' contentHash')).fails source answer l = false := hok
        show ∃ e, l.embedWithEmbeddingModel text answer.values = .ok e ∧ e.values ≠ []
        rw [Call.fails, decide_eq_true hsource, Bool.true_and] at hok
        split at hok
        · rename_i e he
          exact ⟨e, he, List.isEmpty_eq_false_iff.mp hok⟩
        · exact nomatch hok
      | query => exact ⟨trivial, False.elim⟩
    | _ => exact ⟨trivial, False.elim⟩
  resume choice result m hm hresult hok := by
    have hid : (m.resume P choice result).1.currentId .embedding = some id := ViewModel.currentId_resume hm.1 hok
    obtain ⟨hcurrent, rfl⟩ := hm
    by_cases hof : result.IsOf source
    · obtain ⟨hhash, hfresh⟩ := ViewModel.resume_isOf hcurrent hresult hof
      exact ⟨⟨hid, hhash⟩, fun _ => hfresh, fun _ => hfresh⟩
    · have hsame : ViewModel.SameSource source m (m.resume P choice result).1 :=
        ⟨ViewModel.entry_resume hof, hid.trans hcurrent.symm⟩
      exact ⟨⟨hid, hsame.contentHash_eq P⟩, hsame.isFresh, fun h => absurd h hof⟩

/-- In a state that can be reached, `indexAllNotes` or `reindexKnowledgeBase`
is called while a model is loaded and no run is under way. On every schedule
that leaves a source alone, whatever else it does: whenever `isIndexing` is
down again, the source is fresh. -/
theorem isFresh_of_indexAll [FloatLike α] (P : Platform) (catalog : List ModelCatalogItem) (isLowPowerMode : Bool)
    (activeId : Slot → Option ModelId) (records : Records α) {before after : List (Event α)} {s : State α}
    (hr : (machine P).run (State.launch catalog isLowPowerMode activeId records) before = some s)
    {sources : List Source} {source : Source} {id : ModelId} (hmem : source ∈ sources)
    (hloaded : s.main.isLoaded .embedding = true) (hid : s.main.currentId .embedding = some id)
    (hidle : s.main.isIndexing = false)
    (hflight : ∀ t ∈ s.tasks, t.at_.Holds (Call.IsUpToDate source id (s.main.records.contentHash P source))
      (Return.IsUpToDate source id (s.main.records.contentHash P source)))
    (hok : (machine P).Meets (undisturbed source id).Permit ((program P).receive (.indexAll sources) s) after) :
    (machine P).Always (fun s => s.main.isIndexing = false → s.main.isFresh P source = true)
      ((program P).receive (.indexAll sources) s) after := by
  have hlaunch : Locked ViewModel.isIndexing Op.isIndexing (State.launch catalog isLowPowerMode activeId records) := rfl
  have hlocked : Locked ViewModel.isIndexing Op.isIndexing s :=
    ((locking_indexing P).always hlaunch before).last hr
  have hne : sources ≠ [] := List.ne_nil_of_mem hmem
  have hreceive : (program P).receive (.indexAll sources) s =
      { s with
        main := { s.main with isIndexing := true }
        tasks := cancelTasks [] s.tasks ++ [Task.new [.indexEach sources false]] } := by
    simp [Program.receive, program, ViewModel.input, ViewModel.indexAll, hloaded, hidle, hne]
  refine (discharging_indexing P source id (s.main.records.contentHash P source)).always (locking_indexing P) ?_
    ((locking_indexing P).step (a := .input (.indexAll sources)) hlocked rfl) hok
  rw [hreceive]
  refine ⟨⟨⟨hid, rfl⟩, fun t ht => ?_, fun _ _ _ _ => trivial⟩, .inr ⟨Task.new [.indexEach sources false], ?_, ?_⟩⟩
  · rcases List.mem_append.mp ht with ht | ht
    · obtain ⟨t', ht', hat, -⟩ := exists_of_mem_cancelTasks ht
      rw [hat]
      exact hflight t' ht'
    · rw [List.mem_singleton.mp ht]
      trivial
  · exact List.mem_append_right _ (List.mem_singleton_self _)
  · exact .inl ⟨_, List.mem_singleton_self _, rfl, hmem⟩

/-- The embedding model `embed-a` is loaded. -/
def loadsEmbedding : List (Event ℚ) :=
  [.input (.loadModel .embedding (modelItem "embed-a" .embedding)), .advance 0 promptly, .perform 0 answered,
    .advance 0 promptly]

/-- A note and a chunk are indexed, and the note is edited meanwhile. -/
def indexesBoth : List (Event ℚ) :=
  [.advance 1 promptly, .input (.editNote 0 "Trip" "Pack both tents" 1), .perform 1 answered, .advance 1 promptly,
    .advance 1 promptly, .perform 1 answered, .advance 1 promptly, .advance 1 promptly]

theorem isFresh_indexesBoth : ∃ s, (machine ⟨.ascii, id⟩).run firstLaunch loadsEmbedding = some s ∧
    (machine ⟨.ascii, id⟩).Always (fun s => s.main.isIndexing = false → s.main.isFresh ⟨.ascii, id⟩ (.chunk 0) = true)
      ((program ⟨.ascii, id⟩).receive (.indexAll [.note 0, .chunk 0]) s) indexesBoth := by
  have hruns : (((machine ⟨.ascii, id⟩).run firstLaunch loadsEmbedding).any fun s =>
      decide (s.main.isLoaded .embedding = true ∧ s.main.currentId .embedding = some "embed-a" ∧
        s.main.isIndexing = false ∧ s.Quiet ∧ (machine ⟨.ascii, id⟩).Meets (undisturbed (.chunk 0) "embed-a").Permit
          ((program ⟨.ascii, id⟩).receive (.indexAll [.note 0, .chunk 0]) s) indexesBoth)) = true := by
    decide +kernel
  obtain ⟨s, hr, hs⟩ := (Option.any_eq_true _ _).mp hruns
  obtain ⟨hloaded, hid, hidle, hquiet, hok⟩ := of_decide_eq_true hs
  refine ⟨s, hr, isFresh_of_indexAll _ _ _ _ _ hr (by simp) hloaded hid hidle (fun t ht => ?_) hok⟩
  have hready := hquiet t ht
  cases hat : t.at_ with
  | ready => trivial
  | calling =>
    rw [hat] at hready
    exact nomatch hready
  | returned =>
    rw [hat] at hready
    exact nomatch hready

/-! ## How long `isIndexing` stays up -/

def Call.IsIndex : Call → Prop
  | .embed _ (.index _ _ _) => True
  | _ => False

def Return.IsIndex : Return α → Prop
  | .embed (.index _ _ _) _ => True
  | _ => False

/-- The next round is the task's next operation, and what it waits for is an
embedding of a round before. -/
def HoldsIndexing (x : Point Call (Return α)) (rest : List (Op α)) : Prop :=
  x.Holds Call.IsIndex Return.IsIndex ∧
    ∃ sources hasDeadline rest', rest = .indexEach sources hasDeadline :: rest' ∧ ∀ op ∈ rest', op.isIndexing = false

/-- The steps that the rounds to come take at most: a segment, a job and the
segment after it for each source. -/
def stepsToEnd (x : Point Call (Return α)) : List (Op α) → Nat
  | .indexEach sources _ :: _ =>
    3 * sources.length + match x with
      | .ready => 0
      | .calling _ => 2
      | .returned _ => 1
  | _ => 0

theorem stepsToEnd_le (x : Point Call (Return α)) (sources : List Source) (hasDeadline : Bool) (rest : List (Op α)) :
    stepsToEnd x (.indexEach sources hasDeadline :: rest) ≤ 3 * sources.length + 2 := by
  cases x <;> simp [stepsToEnd]

section Ends

variable [FloatLike α] {P : Platform} {m : ViewModel α} {choice : Choice} {isCancelled : Bool} {op : Op α}
  {rest : List (Op α)}

/-- An operation that is no round goes on with no round, or with one alone. -/
theorem ViewModel.start_next (h : op.isIndexing = false) :
    (∀ op' ∈ (m.start P choice isCancelled op).next, op'.isIndexing = false) ∨
      (m.start P choice isCancelled op).call = none ∧
        ∃ sources hasDeadline, (m.start P choice isCancelled op).next = [.indexEach sources hasDeadline] := by
  cases op
  case indexEach => exact nomatch h
  case ensureIndexed sources hasDeadline =>
    simp only [start, ensureIndexed]
    repeat' split
    · exact .inl (List.forall_mem_nil _)
    · exact .inl (List.forall_mem_nil _)
    · exact .inr ⟨rfl, _, _, rfl⟩
  case autoIndex id =>
    left
    simp only [start, autoIndex]
    repeat' split
    · exact List.forall_mem_nil _
    · exact List.forall_mem_nil _
    · rw [indexSingle_next]
      simp [Op.isIndexing]
  case importChunks document index chunks =>
    left
    cases chunks with
    | nil => exact List.forall_mem_nil _
    | cons chunk rest =>
      simp only [start, importChunks]
      split
      · rw [indexSingle_next]
        simp [Op.isIndexing]
      · simp [Op.isIndexing]
  all_goals
    left
    simp only [start, loadModelAsync, loadCurrent, retrieve, score]
    repeat' split
  all_goals simp [Op.isIndexing]

/-- A round takes the flag down, or goes on to a round with fewer sources. -/
theorem start_holdsIndexing (h : HoldsIndexing .ready (op :: rest)) :
    let seg := m.start P choice isCancelled op
    seg.main.isIndexing = false ∧ (∀ op' ∈ seg.next ++ rest, op'.isIndexing = false) ∨
      HoldsIndexing seg.at_ (seg.next ++ rest) ∧ stepsToEnd seg.at_ (seg.next ++ rest) < stepsToEnd .ready (op :: rest) := by
  obtain ⟨-, sources, hasDeadline, rest', heq, hrest⟩ := h
  obtain ⟨rfl, rfl⟩ := List.cons.inj heq
  cases sources with
  | nil => exact .inl ⟨rfl, hrest⟩
  | cons source sources =>
    simp only [ViewModel.start, ViewModel.indexEach]
    split
    · exact .inl ⟨rfl, hrest⟩
    · right
      rw [ViewModel.indexSingle_next]
      refine ⟨⟨?_, sources, hasDeadline, rest, rfl, hrest⟩, ?_⟩
      · unfold ViewModel.indexSingle
        split <;> trivial
      · unfold ViewModel.indexSingle
        split
        · show 3 * sources.length + 0 < 3 * (sources.length + 1) + 0
          omega
        · show 3 * sources.length + 2 < 3 * (sources.length + 1) + 0
          omega

omit [FloatLike α] in
theorem perform_isIndex {answer : Answer α} {call : Call} {l : LlamaContext} (h : call.IsIndex) :
    (l.perform answer call).2.IsIndex := by
  cases call with
  | embed text use =>
    cases use with
    | index => trivial
    | query => exact h.elim
  | _ => exact h.elim

omit [FloatLike α] in
theorem resume_isIndex {result : Return α} (h : result.IsIndex) : (m.resume P choice result).2 = [] := by
  cases result with
  | embed use result =>
    cases use with
    | index => rfl
    | query => exact h.elim
  | _ => exact h.elim

theorem finishing_indexing (P : Platform) :
    Finishing (program (α := α) P) ViewModel.isIndexing HoldsIndexing stepsToEnd where
  ne_nil x rest h := by
    obtain ⟨-, sources, hasDeadline, rest', rfl, -⟩ := h
    exact List.cons_ne_nil _ _
  start choice b op rest m h := (start_holdsIndexing h).imp_left And.left
  perform answer call rest l h := by
    obtain ⟨hcall, sources, hasDeadline, rest', rfl, hrest⟩ := h
    exact ⟨⟨perform_isIndex hcall, _, _, _, rfl, hrest⟩, Nat.lt_succ_self _⟩
  resume choice result rest m h := by
    obtain ⟨hresult, sources, hasDeadline, rest', rfl, hrest⟩ := h
    have hnext : ((program P).resume choice result m).2 = [] := resume_isIndex hresult
    dsimp only
    rw [hnext]
    exact .inr ⟨⟨trivial, _, _, _, rfl, hrest⟩, Nat.lt_succ_self _⟩

/-- In every task the only round is the one to come next. -/
theorem keeping_indexing (P : Platform) : Keeping (program (α := α) P) fun x rest =>
    (∀ op ∈ rest, op.isIndexing = false) ∨ HoldsIndexing x rest where
  input a n m ops hops := by
    have hops : ops ∈ (m.input P n a).started := hops
    cases a
    case indexAll sources =>
      simp only [ViewModel.input, ViewModel.indexAll] at hops
      split at hops
      · exact absurd hops List.not_mem_nil
      · rw [List.mem_singleton.mp hops]
        exact .inr ⟨trivial, _, _, _, rfl, List.forall_mem_nil _⟩
    case deleteDownloaded item =>
      obtain ⟨k, -, rfl⟩ := List.mem_map.mp hops
      exact .inl (by simp [Op.isIndexing])
    all_goals
      left
      simp only [ViewModel.input, ViewModel.startAutoIndexIfNeeded, ViewModel.handleNoteEdited,
        ViewModel.handleSceneDidEnterBackground] at hops
      repeat' split at hops
    all_goals simp at hops
    all_goals simp [hops, Op.isIndexing]
  start choice b op rest m h := by
    rcases h with h | h
    · obtain ⟨hop, hrest⟩ := List.forall_mem_cons.mp h
      rcases m.start_next hop with hnext | ⟨hcall, sources, hasDeadline, hnext⟩
      · exact .inl (List.forall_mem_append.mpr ⟨hnext, hrest⟩)
      · right
        have hcall : ((program P).start choice b op m).call = none := hcall
        have hnext : ((program P).start choice b op m).next = [.indexEach sources hasDeadline] := hnext
        rw [hnext, Segment.at_, hcall]
        exact ⟨trivial, _, _, _, rfl, hrest⟩
    · rcases start_holdsIndexing h with ⟨-, hnext⟩ | ⟨hnext, -⟩
      · exact .inl hnext
      · exact .inr hnext
  perform answer call rest l h := h.imp_right fun h => ((finishing_indexing P).perform answer call rest l h).1
  resume choice result rest m h := by
    rcases h with h | ⟨hresult, hold⟩
    · refine .inl (List.forall_mem_append.mpr ⟨?_, h⟩)
      show ∀ op ∈ (m.resume P choice result).2, op.isIndexing = false
      rcases m.resume_next P choice result with hnext | ⟨judgedBy, eligible, sources, embedded, -, hnext⟩
      · rw [hnext]
        exact List.forall_mem_nil _
      · rw [hnext]
        simp [Op.isIndexing]
    · have hnext : ((program P).resume choice result m).2 = [] := resume_isIndex hresult
      rw [hnext]
      exact .inr ⟨trivial, hold⟩

instance : Inhabited Choice := ⟨⟨fun _ => true, false, 0, 0⟩⟩

instance : Inhabited (Answer α) := ⟨⟨⟨true, true, true, true, true⟩, .ok []⟩⟩

/-- Whenever `isIndexing` is up, one task holds it, with the sources that are
left as its next operation, and no other does. On every schedule from there on, that task can go
on, and the flag is down before it has taken more than three steps for each
source and two for the call that may be under way. -/
theorem indexing_ends (P : Platform) (catalog : List ModelCatalogItem) (isLowPowerMode : Bool)
    (activeId : Slot → Option ModelId) (records : Records α) {before : List (Event α)} {s : State α}
    (hr : (machine P).run (State.launch catalog isLowPowerMode activeId records) before = some s)
    (hup : s.main.isIndexing = true) :
    ∃ i t sources hasDeadline rest, s.tasks[i]? = some t ∧ t.rest = .indexEach sources hasDeadline :: rest ∧
      (∀ j t', s.tasks[j]? = some t' → (∃ op ∈ t'.rest, op.isIndexing = true) → j = i) ∧
      ∀ after s', (machine P).run s after = some s' →
        (machine P).Always (fun s => s.main.isIndexing = true) s after →
          after.countP (fun a => a.task? == some i) ≤ 3 * sources.length + 2 ∧
            ∃ a : Event α, a.task? = some i ∧ ((machine P).step s' a).isSome = true := by
  have hlaunch : Locked ViewModel.isIndexing Op.isIndexing (State.launch catalog isLowPowerMode activeId records) := rfl
  have hlocked : Locked ViewModel.isIndexing Op.isIndexing s :=
    ((locking_indexing P).always hlaunch before).last hr
  have hkept := ((keeping_indexing P).always (w := State.launch catalog isLowPowerMode activeId records)
    (List.forall_mem_nil _) before).last hr
  obtain ⟨t, ht, op, hop, hindexing⟩ := hlocked.exists_holder hup
  have hold : HoldsIndexing t.at_ t.rest := (hkept t ht).resolve_left fun hnone =>
    Bool.false_ne_true ((hnone op hop).symm.trans hindexing)
  obtain ⟨i, hi, rfl⟩ := List.mem_iff_getElem.mp ht
  obtain ⟨sources, hasDeadline, rest, hrest, -⟩ := hold.2
  have hsome : s.tasks[i]? = some s.tasks[i] := List.getElem?_eq_getElem hi
  refine ⟨i, _, sources, hasDeadline, rest, hsome, hrest,
    fun j t' ht' h' => hlocked.eq_of_holds ht' hsome h' ⟨op, hop, hindexing⟩, fun after s' hrun halways => ?_⟩
  obtain ⟨t', ht', hold', hle⟩ := (finishing_indexing P).run hsome hold hrun halways
  refine ⟨?_, (finishing_indexing P).exists_step ht' hold'⟩
  have hrank : stepsToEnd s.tasks[i].at_ s.tasks[i].rest ≤ 3 * sources.length + 2 := by
    rw [hrest]
    exact stepsToEnd_le _ sources hasDeadline rest
  exact (Nat.le_add_left _ _).trans (hle.trans hrank)

end Ends

theorem indexing_ends_loadsEmbedding : ∃ s,
    (machine ⟨.ascii, id⟩).run firstLaunch (loadsEmbedding ++ [.input (.indexAll [.note 0, .chunk 0])]) = some s ∧
    ∃ i t sources hasDeadline rest, s.tasks[i]? = some t ∧ t.rest = .indexEach sources hasDeadline :: rest ∧
      (∀ j t', s.tasks[j]? = some t' → (∃ op ∈ t'.rest, op.isIndexing = true) → j = i) ∧
      ∀ after s', (machine ⟨.ascii, id⟩).run s after = some s' →
        (machine ⟨.ascii, id⟩).Always (fun s => s.main.isIndexing = true) s after →
          after.countP (fun a => a.task? == some i) ≤ 3 * sources.length + 2 ∧
            ∃ a : Event ℚ, a.task? = some i ∧ ((machine ⟨.ascii, id⟩).step s' a).isSome = true := by
  have hruns : ((machine ⟨.ascii, id⟩).run firstLaunch
      (loadsEmbedding ++ [.input (.indexAll [.note 0, .chunk 0])])).any (fun s => s.main.isIndexing) = true := by
    decide +kernel
  obtain ⟨s, hr, hup⟩ := (Option.any_eq_true _ _).mp hruns
  exact ⟨s, hr, indexing_ends _ _ _ _ _ hr hup⟩

end SynapsNotes.Runtime
