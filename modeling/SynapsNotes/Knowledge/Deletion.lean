import SynapsNotes.Knowledge.Library

/-!
# Deletion while a document is imported

A document is in the store before its chunks are, and can be deleted while one
of them is being embedded. The chunks inserted so far go with it; the loop
does not look whether its document is still there, and goes on. So a library
never has a chunk of a deleted document exactly if no document is gone when
the loop comes back to insert another of its chunks: `noOrphans_iff`.
-/

namespace SynapsNotes.Knowledge.Library

open SynapsNotes.Runtime

variable {E : Type} {S : Services} {s s' : Library E} {a : Action E}

/-- The document of each chunk is in the store. -/
def NoOrphans (s : Library E) : Prop :=
  ∀ chunk ∈ s.store.chunks, ∀ document ∈ chunk.document, document ∈ s.store.documents

/-- Where the import comes back from an embedding with chunks still to insert,
their document has not been deleted meanwhile. -/
def documentKept (s : Library E) : Action E → Bool
  | .resume (.embedded _ _) =>
    match s.task with
    | some (.embedding document _ chunks _ _ _ _) => chunks.isEmpty || document ∈ s.store.documents
    | _ => true
  | _ => true

/-! ## The loop over the chunks -/

theorem insertChunks_documents (now : Date) (document : KnowledgeDocument) (queue : ImportQueue) (s : Library E)
    (index : ℕ) (chunks : List ChunkedTextUnit) :
    (insertChunks S now document queue s index chunks).store.documents = s.store.documents := by
  induction chunks generalizing s index with
  | nil => rw [insertChunks, nextSource_store]
  | cons chunkData chunks ih =>
    simp only [insertChunks]
    split
    · rfl
    · exact ih _ (index + 1)

/-- The loop inserts chunks of the document, one at least if there is any. -/
theorem insertChunks_chunks (now : Date) (document : KnowledgeDocument) (queue : ImportQueue) (s : Library E)
    (index : ℕ) (chunks : List ChunkedTextUnit) :
    ∃ inserted, (insertChunks S now document queue s index chunks).store.chunks = s.store.chunks ++ inserted ∧
      (∀ chunk ∈ inserted, chunk.document = some document) ∧ (inserted = [] ↔ chunks = []) := by
  induction chunks generalizing s index with
  | nil =>
    refine ⟨[], ?_, fun _ h => (nomatch h), iff_of_true rfl rfl⟩
    rw [insertChunks, nextSource_store, List.append_nil]
  | cons chunkData chunks ih =>
    have hcons {chunk : KnowledgeChunk E} {inserted : List (KnowledgeChunk E)} :
        chunk :: inserted = [] ↔ chunkData :: chunks = [] :=
      iff_of_false (List.cons_ne_nil _ _) (List.cons_ne_nil _ _)
    simp only [insertChunks]
    split
    · refine ⟨[_], rfl, fun chunk h => ?_, hcons⟩
      rw [List.mem_singleton.mp h]
      rfl
    · obtain ⟨inserted, hchunks, hdocument, -⟩ :=
        ih (s.insertChunk (newKnowledgeChunk S s.nextId now document index chunkData)) (index + 1)
      refine ⟨_ :: inserted, hchunks.trans (List.append_cons _ _ _).symm, fun chunk h => ?_, hcons⟩
      rcases List.mem_cons.mp h with rfl | h
      · rfl
      · exact hdocument chunk h

/-- The loop leaves no orphan exactly if it inserts no chunk or its document
is in the store. -/
theorem noOrphans_insertChunks_iff (h : NoOrphans s) (now : Date) (document : KnowledgeDocument)
    (queue : ImportQueue) (index : ℕ) (chunks : List ChunkedTextUnit) :
    NoOrphans (insertChunks S now document queue s index chunks) ↔
      chunks = [] ∨ document ∈ s.store.documents := by
  obtain ⟨inserted, hchunks, hdocument, hempty⟩ := insertChunks_chunks (S := S) now document queue s index chunks
  simp only [NoOrphans, hchunks, insertChunks_documents, List.mem_append]
  constructor
  · intro hno
    cases inserted with
    | nil => exact .inl (hempty.mp rfl)
    | cons chunk inserted =>
      exact .inr (hno chunk (.inr List.mem_cons_self) document (hdocument chunk List.mem_cons_self))
  · rintro hcase chunk (hold | hnew) other hother
    · exact h chunk hold other hother
    · obtain rfl := Option.some.inj ((hdocument chunk hnew).symm.trans hother)
      exact hcase.resolve_left fun hnil => List.ne_nil_of_mem hnew (hempty.mpr hnil)

/-! ## Steps -/

theorem NoOrphans.of_store (h : NoOrphans s) (hstore : s'.store = s.store) : NoOrphans s' := by
  rwa [NoOrphans, hstore]

theorem noOrphans_insertDocument (h : NoOrphans s) (document : KnowledgeDocument) :
    NoOrphans (s.insertDocument document) := fun chunk hchunk other hother =>
  List.mem_append_left _ (h chunk hchunk other hother)

/-- Indexing a chunk leaves it with its document. -/
theorem noOrphans_updateChunk (h : NoOrphans s) (chunkId : UUID) {f : KnowledgeChunk E → KnowledgeChunk E}
    (hf : ∀ chunk, (f chunk).document = chunk.document) : NoOrphans (s.updateChunk chunkId f) := by
  intro chunk hchunk document hdocument
  obtain ⟨old, hold, rfl⟩ := List.mem_map.mp hchunk
  refine h old hold document ?_
  split at hdocument
  · rwa [hf] at hdocument
  · exact hdocument

/-- The chunks of a document are deleted with it. -/
theorem noOrphans_deleteKnowledgeDocument (h : NoOrphans s) (document : KnowledgeDocument) (removed : Bool) :
    NoOrphans (s.deleteKnowledgeDocument document removed) := by
  intro chunk hchunk other hother
  obtain ⟨hmem, hne⟩ := List.mem_filter.mp hchunk
  refine List.mem_filter.mpr ⟨h chunk hmem other hother, ?_⟩
  rw [decide_eq_true_eq] at hne ⊢
  rintro rfl
  exact hne hother

theorem documentKept_embedded {document : KnowledgeDocument} {index : ℕ} {chunks : List ChunkedTextUnit}
    {queue : ImportQueue} {chunkId : UUID} {modelId contentHash : String} {result : Except LlamaError E} {now : Date}
    (htask : s.task = some (.embedding document index chunks queue chunkId modelId contentHash)) :
    documentKept s (.resume (.embedded result now)) = true ↔ chunks = [] ∨ document ∈ s.store.documents := by
  simp [documentKept, htask]

theorem noOrphans_resume_iff {stage : Stage} {answer : Answer E} (hs : NoOrphans s) (htask : s.task = some stage)
    (h : s.resume S stage answer = some s') : NoOrphans s' ↔ documentKept s (.resume answer) = true := by
  cases resume_cases h with
  | prepare => exact iff_of_true (hs.of_store rfl) rfl
  | start => exact iff_of_true (hs.of_store (begin_store _ false)) rfl
  | refused => exact iff_of_true (hs.of_store rfl) rfl
  | prepared => exact iff_of_true (hs.of_store (begin_store _ _)) rfl
  | downloaded => exact iff_of_true (hs.of_store (nextSource_store _)) rfl
  | notDownloaded => exact iff_of_true (hs.of_store (nextSource_store _)) rfl
  | stored => exact iff_of_true (hs.of_store rfl) rfl
  | notStored => exact iff_of_true (hs.of_store (nextSource_store _)) rfl
  | extracted => exact iff_of_true (hs.of_store rfl) rfl
  | notExtracted => exact iff_of_true (hs.of_store (nextSource_store _)) rfl
  | @persisted ingested queue now =>
    have hinserted := noOrphans_insertDocument hs (newDocument s.nextId now ingested)
    refine iff_of_true ((noOrphans_insertChunks_iff hinserted now _ queue 0 ingested.chunks).mpr (.inr ?_)) rfl
    exact List.mem_append_right _ List.mem_cons_self
  | @indexed document index chunks queue chunkId modelId contentHash embedding now =>
    rw [documentKept_embedded htask]
    have hindexed := noOrphans_updateChunk hs chunkId
      fun chunk => show (indexedChunk S modelId contentHash embedding now chunk).document = _ from rfl
    exact noOrphans_insertChunks_iff hindexed now document queue index chunks
  | notIndexed =>
    rw [documentKept_embedded htask]
    exact noOrphans_insertChunks_iff hs _ _ _ _ _
  | finished => exact iff_of_true (hs.of_store rfl) rfl

theorem noOrphans_step_iff (hs : NoOrphans s) (h : s.step S a = some s') : NoOrphans s' ↔ documentKept s a = true := by
  cases a with
  | importKnowledge request =>
    obtain rfl := Option.some.inj h
    refine iff_of_true (hs.of_store ?_) rfl
    rw [importKnowledge]
    split <;> rfl
  | resume answer =>
    obtain ⟨stage, htask, h⟩ := Option.bind_eq_some_iff.mp h
    exact noOrphans_resume_iff hs htask h
  | deleteKnowledgeDocument document removed =>
    obtain ⟨-, h⟩ := Option.ite_none_right_eq_some.mp h
    obtain rfl := Option.some.inj h
    exact iff_of_true (noOrphans_deleteKnowledgeDocument hs document removed) rfl
  | setUseModelOCRForImports value =>
    obtain rfl := Option.some.inj h
    exact iff_of_true (hs.of_store rfl) rfl
  | setEmbeddingModel isLoaded currentId =>
    obtain rfl := Option.some.inj h
    exact iff_of_true (hs.of_store rfl) rfl

/-- No state has a chunk of a deleted document exactly if no document is gone
when its import comes back to insert a chunk. -/
theorem noOrphans_iff (h₀ : NoOrphans s) (as : List (Action E)) :
    (machine E S).Always NoOrphans s as ↔ (machine E S).Meets (fun s a => documentKept s a = true) s as := by
  refine Framework.Machine.always_iff_meets (fun s hs => (hs : NoOrphans s)) ?_ ?_ h₀ as
  · intro s a s' hs hkept h
    exact (noOrphans_step_iff hs h).mpr hkept
  · intro s a s' hs h hs'
    exact (noOrphans_step_iff hs h).mp hs'

theorem noOrphans_fresh (embeddingModelId : Option String) : NoOrphans (fresh E embeddingModelId) :=
  fun _ h => nomatch h

/-- The import of a PDF of two pages, up to the embedding of its first chunk. -/
def importTwoPages : List (Action ℚ) :=
  [.importKnowledge (.files [⟨"ab.pdf", "pdf".toList, "ab"⟩] .localFile none), .resume .begun,
    .resume (.copied (.ok ())),
    .resume (.extracted ⟨.ok [], some [some ⟨some ['a'], none⟩, some ⟨some ['b'], none⟩], none⟩),
    .resume (.returned 0)]

/-- The document of the import, as it is inserted. -/
def twoPages : KnowledgeDocument where
  id := 1
  title := "ab"
  sourceType := "local_file"
  mimeType := "application/pdf"
  localRelativePath := "00000000-0000-0000-0000-000000000000.pdf"
  driveFileId := none
  extractionStatus := "ready"
  extractionError := none
  extractionEngine := some "pdf_text"
  contentHash := some (Services.ascii.sha256 "a\n\nb")
  createdAt := 0
  updatedAt := 0

/-- The document is deleted once both chunks are inserted. -/
theorem noOrphans_importTwoPages : (machine ℚ Services.ascii).Always NoOrphans (fresh ℚ (some "model"))
    (importTwoPages ++ [.resume (.embedded (.ok 0) 1), .resume (.embedded (.ok 0) 2),
      .deleteKnowledgeDocument twoPages true]) :=
  (noOrphans_iff (noOrphans_fresh _) _).mpr (by decide +kernel)

instance : DecidablePred (NoOrphans (E := E)) := fun s =>
  inferInstanceAs (Decidable (∀ chunk ∈ s.store.chunks, ∀ document ∈ chunk.document, document ∈ s.store.documents))

/-- The document is deleted while its first chunk is being embedded, and its
second chunk is inserted. -/
theorem chunk_after_deletion : ¬ (machine ℚ Services.ascii).Always NoOrphans (fresh ℚ (some "model"))
    (importTwoPages ++ [.deleteKnowledgeDocument twoPages true, .resume (.embedded (.ok 0) 1)]) :=
  Framework.Machine.not_always_of_run (by decide +kernel)

end SynapsNotes.Knowledge.Library
