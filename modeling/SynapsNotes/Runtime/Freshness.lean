import SynapsNotes.Runtime.Segments

/-!
# A fresh embedding is of the current text

Several tasks may index one source at once, cancelled ones included, and the
source may be edited while its embedding is being computed. What keeps the
recorded hash and the embedding together is that both are taken from one
reading of the text, travel together and are written together: a late write
may record an old text, but never the hash of another one.
-/

namespace SynapsNotes.Runtime

open Framework

variable {α : Type}

/-- The recorded hash is of the text the embedding was computed from. -/
def Entry.Hashed (P : Platform) (x : Entry α) : Prop :=
  ∀ e ∈ x.embedding, ∀ contentHash ∈ x.embeddingContentHash, contentHash = P.sha256 e.text

/-- No task is under way, and the stored records are consistent. -/
structure Stored (P : Platform) (s : State α) : Prop where
  tasks : s.tasks = []
  hashed : ∀ source, (s.main.records.entry source).Hashed P

/-- A note or chunk that is found fresh has an embedding that was computed
from its current text. -/
structure Coherent (P : Platform) (s : State α) : Prop where
  note : ∀ id, isNoteEmbeddingFresh P (s.main.currentId .embedding) (s.main.records.notes id) = true →
    ∃ e, (s.main.records.notes id).embedding = some e ∧
      e.text = (s.main.records.notes id).title ++ "\n" ++ (s.main.records.notes id).content
  chunk : ∀ id, isKnowledgeChunkEmbeddingFresh P (s.main.currentId .embedding) (s.main.records.chunks id) = true →
    ∃ e, (s.main.records.chunks id).embedding = some e ∧ e.text = (s.main.records.chunks id).text

/-! ## What travels with a call -/

variable {P : Platform}

def Call.Hashed (P : Platform) : Call → Prop
  | .embed text (.index _ _ contentHash) => contentHash = P.sha256 text
  | _ => True

def Return.Hashed (P : Platform) : Return α → Prop
  | .embed (.index _ _ contentHash) (.ok e) => contentHash = P.sha256 e.text
  | _ => True

theorem ofEmbedding_hashed (P : Platform) : OfEmbedding (fun x : Entry α => x.Hashed P) where
  of_none x h e he := by
    rw [h] at he
    cases he
  of_text _ _ h := h

/-- The result of a call carries the hash of the text that was embedded. -/
theorem hashed_perform {answer : Answer α} {call : Call} {l : LlamaContext} (h : call.Hashed P) :
    (l.perform answer call).2.Hashed P := by
  cases call with
  | embed text use =>
    rw [LlamaContext.perform_embed]
    cases use with
    | index source id contentHash =>
      cases he : l.embedWithEmbeddingModel text answer.values with
      | error => trivial
      | ok e =>
        obtain ⟨-, htext⟩ := LlamaContext.holds_of_embed he
        show contentHash = P.sha256 e.text
        rw [htext]
        exact h
    | query => trivial
  | _ => trivial

/-- An embedding is asked for with the hash of its text. -/
theorem hashed_start [FloatLike α] {m : ViewModel α} {choice : Choice} {isCancelled : Bool} {op : Op α} {call : Call}
    (h : call ∈ (m.start P choice isCancelled op).call) : call.Hashed P := by
  cases call with
  | embed text use =>
    rcases ViewModel.start_call h with ⟨source, id, rfl⟩ | ⟨eligible, sources, rfl⟩
    · rfl
    · trivial
  | _ => trivial

/-! ## Every schedule -/

/-- Each piece of the program keeps hash and text together. -/
theorem local_hashed [FloatLike α] (P : Platform) :
    Local (program P) (fun m : ViewModel α => ∀ source, (m.records.entry source).Hashed P) (fun _ => True)
      (Call.Hashed P) (Return.Hashed P) (fun _ _ _ => True) (fun _ _ => True) where
  input a n m hm := ⟨forall_entry_input (ofEmbedding_hashed P) hm n a, fun _ _ _ _ => trivial⟩
  start choice c op m hm _ _ :=
    ⟨forall_entry_start (ofEmbedding_hashed P) hm choice c op, fun _ _ => trivial, fun _ => hashed_start⟩
  perform answer call l hcall _ := hashed_perform hcall
  resume choice result m hm hresult := by
    refine ⟨forall_entry_resume hm choice result ?_, fun _ _ => trivial⟩
    rintro source id contentHash e rfl text e' he' hash hhash
    cases he'
    cases hhash
    exact hresult

/-- A fresh source's embedding is of its text, where no two texts have one
hash. -/
theorem text_of_isFresh (hsha : Function.Injective P.sha256) {r : Records α} {current : Option ModelId}
    (source : Source) (hr : (r.entry source).Hashed P) (h : r.isFresh P current source = true) :
    ∃ e, (r.entry source).embedding = some e ∧ e.text = (r.entry source).text := by
  obtain ⟨⟨e, he, -⟩, -, hhash⟩ := Records.isFresh_iff.mp h
  exact ⟨e, he, (hsha (hr e he _ hhash)).symm⟩

/-- From consistent records on, whatever is edited, indexed and retrieved in
whatever order: what is found fresh is of the current text. -/
theorem coherent_of_stored [FloatLike α] (hsha : Function.Injective P.sha256) {s : State α} (h₀ : Stored P s)
    (as : List (Event α)) : (machine P).Always (Coherent P) s as := by
  have hcoupled : Coupled (fun m => ∀ source, (m.records.entry source).Hashed P) (fun _ => True) (Call.Hashed P)
      (Return.Hashed P) s :=
    { main := h₀.hashed
      at_ := by
        rw [h₀.tasks]
        exact fun _ h => nomatch h
      rest := fun _ _ _ _ => trivial }
  refine ((local_hashed P).always_of_unrestricted hcoupled as).mono fun s hs => ⟨fun id h => ?_, fun id h => ?_⟩
  · exact text_of_isFresh hsha (.note id) (hs.main (.note id)) h
  · exact text_of_isFresh hsha (.chunk id) (hs.main (.chunk id)) h

/-- A library that "embed-a" has indexed. -/
def indexedLaunch : State ℚ :=
  let indexed (text : String) : Option (Embedding ℚ) := some { values := [3, 4], model := "embed-a", text }
  .launch firstLaunch.main.catalog false (fun _ => some "embed-a")
    { notes := fun id =>
        { firstLaunch.main.records.notes id with
          embedding := indexed "Trip\nPack the tent"
          embeddingModelId := some "embed-a"
          embeddingContentHash := some "Trip\nPack the tent" }
      chunks := fun id =>
        { firstLaunch.main.records.chunks id with
          embedding := indexed "Tents are packed dry"
          embeddingModelId := some "embed-a"
          embeddingContentHash := some "Tents are packed dry" } }

/-- The model is loaded, and the note is edited while all is being indexed
again. -/
def editedWhileIndexed : List (Event ℚ) :=
  [.input (.loadModel .embedding (modelItem "embed-a" .embedding)), .advance 0 promptly, .perform 0 answered,
    .advance 0 promptly, .input (.indexAll [.note 0, .chunk 0]), .advance 1 promptly,
    .input (.editNote 0 "Trip" "Pack both tents" 1), .perform 1 answered, .advance 1 promptly]

/-- Note and chunk are fresh at launch, and the chunk stays so; the note is not
while its embedding is of the old text, and is again once its own task has
indexed it. -/
theorem coherent_indexedLaunch :
    let fresh (source : Source) (s : State ℚ) : Bool :=
      s.main.records.isFresh ⟨.ascii, id⟩ (s.main.currentId .embedding) source
    let reindexed := [.input (.noteEdited 0), .advance 2 promptly, .perform 2 answered, .advance 2 promptly]
    (machine ⟨.ascii, id⟩).Always (Coherent ⟨.ascii, id⟩) indexedLaunch (editedWhileIndexed ++ reindexed) ∧
      fresh (.note 0) indexedLaunch = true ∧ fresh (.chunk 0) indexedLaunch = true ∧
      ((machine ⟨.ascii, id⟩).run indexedLaunch editedWhileIndexed).map (fresh (.note 0)) = some false ∧
      ((machine ⟨.ascii, id⟩).run indexedLaunch (editedWhileIndexed ++ reindexed)).map
        (fun s => (fresh (.note 0) s, fresh (.chunk 0) s)) = some (true, true) := by
  refine ⟨coherent_of_stored (fun _ _ h => h) { tasks := rfl, hashed := fun source => ?_ } _, by decide +kernel,
    by decide +kernel, by decide +kernel, by decide +kernel⟩
  cases source <;> rintro e ⟨⟩ contentHash ⟨⟩ <;> rfl

end SynapsNotes.Runtime
