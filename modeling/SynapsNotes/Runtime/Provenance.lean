import SynapsNotes.Runtime.Segments

/-!
# Which model computed the vectors that are compared

The model id recorded with a source's embedding is read before the call that
computes it, and the sources of a query are judged fresh before the call
that computes its vector. The actor may hold another model by the time it
performs either call, since `currentEmbeddingModelId` follows a load only
after the load has returned.

`sameModel_of_captured` gives the schedules on which this does no harm:
every embedding is computed while the actor holds the model that was current
when it was asked for, and a source is scored while it is still recorded
under the model by which it was found fresh.
-/

namespace SynapsNotes.Runtime

open Framework

variable {α : Type}

/-- Every semantic score so far is of two vectors of one model. -/
def SameModel (s : State α) : Prop := ∀ x ∈ s.main.semanticScores, x.query.model = x.stored.model

instance (s : State α) : Decidable (SameModel s) :=
  inferInstanceAs (Decidable (∀ x ∈ s.main.semanticScores, x.query.model = x.stored.model))

/-- The recorded model id is that of the model that computed the embedding. -/
def Entry.Labelled (x : Entry α) : Prop := ∀ e ∈ x.embedding, ∀ id ∈ x.embeddingModelId, id = e.model

theorem ofEmbedding_labelled : OfEmbedding fun x : Entry α => x.Labelled where
  of_none x h e he := by
    rw [h] at he
    cases he
  of_text _ _ h := h

/-- No task is under way, nothing has been scored, and the stored records are
consistent. -/
structure Labelled (s : State α) : Prop where
  tasks : s.tasks = []
  semanticScores : s.main.semanticScores = []
  labelled : ∀ source, (s.main.records.entry source).Labelled

/-! ## The condition -/

/-- An embedding model that is held when an embedding is computed is the one
that was current when the embedding was asked for. -/
def ComputedAsAsked (l : LlamaContext) : Call → Prop
  | .embed _ (.index _ embeddingModelId _) =>
    (l .embedding).context = true → (l .embedding).model = some embeddingModelId
  | .embed _ (.query judgedBy _ _) => (l .embedding).context = true → (l .embedding).model = judgedBy
  | _ => True

/-- A source that is given a semantic score is recorded under the model by
which it was found fresh. -/
def ScoredAsJudged [FloatLike α] (choice : Choice) (m : ViewModel α) : Op α → Prop
  | .score query judgedBy eligible remaining =>
    ∀ source ∈ remaining[choice.pick % remaining.length]?, (m.scoreSource query eligible source).isSome = true →
      (m.records.entry source).embeddingModelId = judgedBy
  | _ => True

instance (l : LlamaContext) : DecidablePred (ComputedAsAsked l)
  | .embed _ (.index _ id _) =>
    inferInstanceAs (Decidable ((l .embedding).context = true → (l .embedding).model = some id))
  | .embed _ (.query judgedBy _ _) =>
    inferInstanceAs (Decidable ((l .embedding).context = true → (l .embedding).model = judgedBy))
  | .load _ _ _ _ => isTrue trivial
  | .unload _ _ => isTrue trivial
  | .unloadAll => isTrue trivial

instance [FloatLike α] (choice : Choice) (m : ViewModel α) : DecidablePred (ScoredAsJudged choice m) := fun op =>
  match op with
  | .score query judgedBy eligible remaining =>
    inferInstanceAs (Decidable (∀ source ∈ remaining[choice.pick % remaining.length]?,
      (m.scoreSource query eligible source).isSome = true → (m.records.entry source).embeddingModelId = judgedBy))
  | .load _ _ _ | .loadCurrent _ | .unload _ _ | .unloadAll | .rehydrate | .rehydrated | .autoIndex _
  | .autoIndexed _ | .ensureIndexed _ _ | .indexEach _ _ | .importChunks _ _ _ | .ragLoad _ | .ragLoadFallback _
  | .ragLoaded _ | .ragIndex _ | .ragWait _ | .ragPrepare _ | .ragPrepared _ | .retrieve _ _ => isTrue trivial

/-! ## What travels with a call -/

def Return.Labelled : Return α → Prop
  | .embed (.index _ embeddingModelId _) (.ok e) => embeddingModelId = e.model
  | .embed (.query judgedBy _ _) (.ok e) => judgedBy = some e.model
  | _ => True

/-- A query's vector is of the model by which its sources were judged. -/
def Op.Labelled : Op α → Prop
  | .score (some query) judgedBy _ _ => judgedBy = some query.model
  | _ => True

/-- The vectors of a semantic score are the query's and the stored one. -/
theorem scoreSource_eq_some [FloatLike α] {m : ViewModel α} {query : Option (Embedding α)} {eligible : List Source}
    {source : Source} {x : SemanticScore α} (h : m.scoreSource query eligible source = some x) :
    query = some x.query ∧ (m.records.entry source).embedding = some x.stored := by
  unfold ViewModel.scoreSource at h
  split at h
  · rename_i hstored
    obtain ⟨score, -, rfl⟩ := Option.map_eq_some_iff.mp h
    exact ⟨rfl, hstored⟩
  · cases h

/-- Scoring a source that is recorded under the model it was judged by. -/
theorem sameModel_of_scoreSource [FloatLike α] {m : ViewModel α} {query : Option (Embedding α)}
    {judgedBy : Option ModelId} {eligible remaining : List Source} {source : Source} {x : SemanticScore α}
    (hm : (m.records.entry source).Labelled) (hop : (Op.score query judgedBy eligible remaining).Labelled)
    (hjudged : (m.records.entry source).embeddingModelId = judgedBy)
    (h : m.scoreSource query eligible source = some x) : x.query.model = x.stored.model := by
  obtain ⟨rfl, hstored⟩ := scoreSource_eq_some h
  have hquery : judgedBy = some x.query.model := hop
  rw [hquery] at hjudged
  exact hm x.stored hstored _ hjudged

/-- The result of a call that was computed as asked. -/
theorem labelled_perform {answer : Answer α} {call : Call} {l : LlamaContext} (h : ComputedAsAsked l call) :
    (l.perform answer call).2.Labelled := by
  cases call with
  | embed text use =>
    rw [LlamaContext.perform_embed]
    cases he : l.embedWithEmbeddingModel text answer.values with
    | error => cases use <;> trivial
    | ok e =>
      obtain ⟨hheld, -⟩ := LlamaContext.holds_of_embed he
      have hcontext : (l .embedding).context = true := by rw [show l .embedding = _ from hheld]
      have hmodel : (l .embedding).model = some e.model := by rw [show l .embedding = _ from hheld]
      cases use with
      | index source id contentHash =>
        have hid : (l .embedding).model = some id := h hcontext
        exact Option.some.inj (hid.symm.trans hmodel)
      | query judgedBy eligible sources =>
        have hjudged : (l .embedding).model = judgedBy := h hcontext
        exact hjudged.symm.trans hmodel
  | _ => trivial

/-- What a query's embedding, if it has a value, is scored with. -/
theorem labelled_score {embedded : Except LlamaError (Embedding α)} {judgedBy : Option ModelId}
    {eligible sources : List Source} (h : (Return.embed (.query judgedBy eligible sources) embedded).Labelled) :
    (Op.score (ViewModel.queryEmbedding embedded) judgedBy eligible sources).Labelled := by
  cases embedded with
  | error => trivial
  | ok e =>
    show Op.Labelled (.score (if e.values.isEmpty then none else some e) judgedBy eligible sources)
    split
    · trivial
    · exact h

/-- A segment goes on to score only what it was given to score. -/
theorem labelled_start_next [FloatLike α] {P : Platform} {m : ViewModel α} {choice : Choice} {isCancelled : Bool}
    {op op' : Op α} (hop : op.Labelled) (h : op' ∈ (m.start P choice isCancelled op).next) : op'.Labelled := by
  cases op' with
  | score query judgedBy eligible remaining =>
    cases query with
    | none => trivial
    | some query =>
      obtain ⟨remaining', rfl⟩ := ViewModel.start_next_score h
      exact hop
  | _ => trivial

/-! ## Every schedule that meets the condition -/

theorem local_labelled [FloatLike α] (P : Platform) :
    Local (program P)
      (fun m : ViewModel α => (∀ source, (m.records.entry source).Labelled) ∧
        ∀ x ∈ m.semanticScores, x.query.model = x.stored.model)
      Op.Labelled (fun _ => True) Return.Labelled ScoredAsJudged ComputedAsAsked where
  input a n m hm := by
    refine ⟨⟨forall_entry_input ofEmbedding_labelled hm.1 n a, ?_⟩, fun ops hops op hop => ?_⟩
    · show ∀ x ∈ (m.input P n a).main.semanticScores, _
      rw [m.input_semanticScores P n a]
      exact hm.2
    · cases op with
      | score => exact absurd hop (ViewModel.input_started hops _ _ _ _)
      | _ => trivial
  start choice c op m hm hop hok := by
    refine ⟨⟨forall_entry_start ofEmbedding_labelled hm.1 choice c op, fun x hx => ?_⟩,
      fun op' hop' => labelled_start_next hop hop', fun _ _ => trivial⟩
    rcases ViewModel.start_semanticScores hx with hx | ⟨query, judgedBy, eligible, remaining, rfl, source, hsource, hx⟩
    · exact hm.2 x hx
    · have hjudged := hok source hsource (by rw [hx]; rfl)
      exact sameModel_of_scoreSource (hm.1 source) hop hjudged hx
  perform answer call l _ hok := labelled_perform hok
  resume choice result m hm hresult := by
    refine ⟨⟨forall_entry_resume hm.1 choice result ?_, ?_⟩, fun op hop => ?_⟩
    · rintro source id contentHash e rfl text e' he' id' hid'
      cases he'
      cases hid'
      exact hresult
    · show ∀ x ∈ (m.resume P choice result).1.semanticScores, _
      rw [m.resume_semanticScores P choice result]
      exact hm.2
    · have hop : op ∈ (m.resume P choice result).2 := hop
      rcases m.resume_next P choice result with h | ⟨judgedBy, eligible, sources, embedded, rfl, h⟩
      · rw [h] at hop
        cases hop
      · rw [h] at hop
        rw [List.mem_singleton.mp hop]
        exact labelled_score hresult

/-- From consistent records on, on every schedule on which embeddings are
computed as asked and sources scored as judged: the vectors of every semantic
score are of one model. -/
theorem sameModel_of_captured [FloatLike α] {P : Platform} {s : State α} (h₀ : Labelled s) {as : List (Event α)}
    (h : (machine P).Meets (Allowed ScoredAsJudged ComputedAsAsked) s as) : (machine P).Always SameModel s as := by
  have hcoupled : Coupled (fun m : ViewModel α => (∀ source, (m.records.entry source).Labelled) ∧
      ∀ x ∈ m.semanticScores, x.query.model = x.stored.model) Op.Labelled (fun _ => True) Return.Labelled s :=
    { main := ⟨h₀.labelled, by rw [h₀.semanticScores]; exact fun _ hx => nomatch hx⟩
      at_ := by
        rw [h₀.tasks]
        exact fun _ ht => nomatch ht
      rest := by
        rw [h₀.tasks]
        exact fun _ ht => nomatch ht }
  exact ((local_labelled P).always hcoupled h).mono fun s hs => hs.main.2

theorem labelled_firstLaunch : Labelled firstLaunch where
  tasks := rfl
  semanticScores := rfl
  labelled source := by cases source <;> exact ofEmbedding_labelled.of_none _ rfl

/-- The chat model and the embedding model `embed-a` are loaded and a note is
indexed. -/
def indexed : List (Event ℚ) :=
  [.input (.loadModel .chat (modelItem "chat" .chat)), .advance 0 promptly, .perform 0 answered,
    .advance 0 promptly, .input (.loadModel .embedding (modelItem "embed-a" .embedding)), .advance 1 promptly,
    .perform 1 answered, .advance 1 promptly, .input (.indexAll [.note 0]), .advance 2 promptly,
    .perform 2 answered, .advance 2 promptly, .advance 2 promptly]

/-- A message asks for the note, up to the call for its embedding. -/
def asked (task : Nat) : List (Event ℚ) :=
  [.input (.sendMessage ⟨"Pack what?", [.note 0]⟩), .advance task promptly, .advance task promptly,
    .advance task promptly, .advance task promptly, .advance task promptly]

/-- The query is embedded and the note scored. -/
def scored (task : Nat) : List (Event ℚ) :=
  [.perform task answered, .advance task promptly, .advance task promptly]

/-- No load comes between. -/
theorem sameModel_indexed :
    (machine ⟨.ascii, id⟩).Always SameModel firstLaunch (indexed ++ asked 3 ++ scored 3) :=
  sameModel_of_captured labelled_firstLaunch (by decide +kernel)

/-- Another embedding model is being loaded when the message is sent: the
note is found fresh for `embed-a`, and the query is embedded by `embed-b`. -/
theorem not_sameModel_indexed :
    ¬ (machine ⟨.ascii, id⟩).Always SameModel firstLaunch
      (indexed ++ [.input (.loadModel .embedding (modelItem "embed-b" .embedding)), .advance 3 promptly] ++
        asked 4 ++ [.perform 3 answered] ++ scored 4) :=
  Machine.not_always_of_run (by decide +kernel)

end SynapsNotes.Runtime
