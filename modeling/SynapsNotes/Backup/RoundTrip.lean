import SynapsNotes.Backup.Payload

/-!
# A backup restores the store

The payload that `exportZip` builds, imported into an empty store, gives the
records of the exported store with their relations, all fields as they were
and the dates to the second (`importZip_exportZip`). The relations survive
the flattening to ids where every reference stays within the store
(`Consistent`).
-/

namespace SynapsNotes

open Backup

variable {E : Type}

/-! ## The store to the second -/

def Note.truncated (n : Note E) : Note E :=
  { n with
    createdAt := wholeSeconds n.createdAt
    updatedAt := wholeSeconds n.updatedAt
    embeddingUpdatedAt := n.embeddingUpdatedAt.map wholeSeconds }

def ChatSession.truncated (s : ChatSession) : ChatSession :=
  { s with createdAt := wholeSeconds s.createdAt, updatedAt := wholeSeconds s.updatedAt }

def ChatMessage.truncated (m : ChatMessage) : ChatMessage :=
  { m with createdAt := wholeSeconds m.createdAt }

def KnowledgeDocument.truncated (d : KnowledgeDocument) : KnowledgeDocument :=
  { d with createdAt := wholeSeconds d.createdAt, updatedAt := wholeSeconds d.updatedAt }

/-- The chunk, in its document to the second. -/
def KnowledgeChunk.truncated (c : KnowledgeChunk E) : KnowledgeChunk E :=
  { c with
    embeddingUpdatedAt := c.embeddingUpdatedAt.map wholeSeconds
    createdAt := wholeSeconds c.createdAt
    updatedAt := wholeSeconds c.updatedAt
    document := c.document.map KnowledgeDocument.truncated }

namespace Store

def truncated (s : Store E) : Store E :=
  { notes := s.notes.map Note.truncated
    documents := s.documents.map KnowledgeDocument.truncated
    chunks := s.chunks.map KnowledgeChunk.truncated
    sessions := s.sessions.map ChatSession.truncated
    messages := s.messages.map ChatMessage.truncated }

/-- The same records, in any order. -/
structure Same (s t : Store E) : Prop where
  notes : s.notes.Perm t.notes
  documents : s.documents.Perm t.documents
  chunks : s.chunks.Perm t.chunks
  sessions : s.sessions.Perm t.sessions
  messages : s.messages.Perm t.messages

theorem Same.truncated {s t : Store E} (h : s.Same t) : s.truncated.Same t.truncated :=
  ⟨h.notes.map _, h.documents.map _, h.chunks.map _, h.sessions.map _, h.messages.map _⟩

/-- Documents are told apart by their ids, a chunk's document is in the store,
and each message has a session of the store. -/
structure Consistent (s : Store E) : Prop where
  documentIds : (s.documents.map KnowledgeDocument.id).Nodup
  document : ∀ c ∈ s.chunks, ∀ d ∈ c.document, d ∈ s.documents
  session : ∀ m ∈ s.messages, ∃ x ∈ s.sessions, m.session = some x.id

theorem Consistent.of_same {s t : Store E} (h : t.Same s) (hs : s.Consistent) : t.Consistent where
  documentIds := (h.documents.map _).nodup_iff.mpr hs.documentIds
  document c hc d hd := h.documents.mem_iff.mpr (hs.document c (h.chunks.mem_iff.mp hc) d hd)
  session m hm := by
    obtain ⟨x, hx, hsess⟩ := hs.session m (h.messages.mem_iff.mp hm)
    exact ⟨x, h.sessions.mem_iff.mpr hx, hsess⟩

end Store

end SynapsNotes

namespace SynapsNotes.Backup

open Framework

variable {E J : Type}

/-! ## Record by record -/

theorem importNote_exportNote (n : Note E) : importNote (exportNote n).truncated = n.truncated := rfl

theorem importDocument_exportDocument (d : KnowledgeDocument) :
    importDocument (exportDocument d).truncated = d.truncated := rfl

theorem importSession_exportSession (s : ChatSession) :
    importSession (exportSession s).truncated = s.truncated := rfl

/-- A chunk comes back in its document, if that is found under its id. -/
theorem importChunk_exportChunk {documentsById : AList fun _ : UUID => KnowledgeDocument}
    {c : KnowledgeChunk E} (h : ∀ d ∈ c.document, documentsById.lookup d.id = some d.truncated) :
    importChunk documentsById (exportChunk c).truncated = c.truncated := by
  have hdoc : ((c.document.map KnowledgeDocument.id).bind fun id => documentsById.lookup id) =
      c.document.map KnowledgeDocument.truncated := by
    cases hc : c.document with
    | none => rfl
    | some d => exact h d hc
  show KnowledgeChunk.mk .. = KnowledgeChunk.mk ..
  rw [KnowledgeChunk.mk.injEq]
  exact ⟨rfl, rfl, rfl, rfl, rfl, rfl, rfl, rfl, rfl, rfl, rfl, rfl, rfl, rfl, hdoc⟩

/-- The session a message comes back to: the one found under its session's
id, or the fallback. -/
theorem importMessage_exportMessage {sessionsById : AList fun _ : UUID => ChatSession}
    {fallbackSession : Option ChatSession} {m : ChatMessage} {x y : ChatSession} (hm : m.session = some x.id)
    (hy : sessionsById.lookup x.id = some y) (hid : y.id = x.id) :
    importMessage sessionsById fallbackSession (exportMessage m).truncated = m.truncated := by
  show ChatMessage.mk .. = ChatMessage.mk ..
  rw [ChatMessage.mk.injEq]
  refine ⟨rfl, rfl, rfl, rfl, rfl, rfl, rfl, ?_⟩
  show ((m.session.bind fun id => sessionsById.lookup id).or fallbackSession).map ChatSession.id = m.session
  rw [hm, Option.bind_some, hy, Option.some_or, Option.map_some, hid]

/-! ## The whole payload -/

/-- The sessions by id, as the import of an exported payload has them. -/
theorem lookup_sessionsById {s : Store E} {x : ChatSession} (hx : x ∈ s.sessions) :
    ∃ y, (indexed ChatSession.id ((s.sessions.map exportSession).map
      ExportChatSessionV1.truncated |>.map importSession)).lookup x.id = some y ∧ y.id = x.id := by
  have hmem : importSession (exportSession x).truncated ∈
      ((s.sessions.map exportSession).map ExportChatSessionV1.truncated).map importSession :=
    List.mem_map_of_mem (List.mem_map_of_mem (List.mem_map_of_mem hx))
  exact exists_lookup_indexed ChatSession.id (x := importSession (exportSession x).truncated) hmem

/-- The import of an exported payload into a store without records. -/
theorem importPayload_exportPayload (c : ImportContext) (now : Date) {s : Store E} (hs : s.Consistent) :
    importPayload c (exportPayload now s).truncated (Store.empty E) = s.truncated := by
  have hlegacy : (!((s.messages.map exportMessage).map ExportChatMessageV1.truncated).isEmpty &&
      (indexed ChatSession.id (((s.sessions.map exportSession).map
        ExportChatSessionV1.truncated).map importSession)).entries.isEmpty) = false := by
    rcases hm : s.messages with _ | ⟨m, ms⟩
    · rfl
    · obtain ⟨x, hx, -⟩ := hs.session m (by rw [hm]; exact List.mem_cons_self)
      obtain ⟨y, hy, -⟩ := lookup_sessionsById hx
      rw [isEmpty_eq_false_of_lookup hy, Bool.and_false]
  simp only [importPayload, exportPayload, ExportPayloadV1.truncated, Option.map_some, Option.getD_some,
    hlegacy, Store.empty, List.nil_append, Store.truncated, Bool.false_eq_true, ↓reduceIte,
    Option.toList_none, List.append_nil, Store.mk.injEq]
  refine ⟨?_, ?_, ?_, ?_, ?_⟩
  · rw [List.map_map, List.map_map]
    exact List.map_congr_left fun n _ => importNote_exportNote n
  · rw [List.map_map, List.map_map]
    exact List.map_congr_left fun d _ => importDocument_exportDocument d
  · rw [List.map_map, List.map_map]
    refine List.map_congr_left fun ch hch => importChunk_exportChunk fun d hd => ?_
    rw [List.map_map, List.map_map]
    exact lookup_indexed_map (fun _ => rfl) hs.documentIds (hs.document ch hch d hd)
  · rw [List.map_map, List.map_map]
    exact List.map_congr_left fun x _ => importSession_exportSession x
  · rw [List.map_map, List.map_map]
    refine List.map_congr_left fun m hm => ?_
    obtain ⟨x, hx, hsess⟩ := hs.session m hm
    obtain ⟨y, hy, hid⟩ := lookup_sessionsById hx
    exact importMessage_exportMessage hsess hy hid

/-- A computation that returns has returned from its first part. -/
theorem bind_eq_ok {ε α β : Type} {x : Except ε α} {f : α → Except ε β} {b : β} :
    (x >>= f) = .ok b ↔ ∃ a, x = .ok a ∧ f a = .ok b := by
  cases x with
  | error e => exact ⟨fun h => (nomatch h), fun ⟨_, h, _⟩ => (nomatch h)⟩
  | ok a => exact ⟨fun h => ⟨a, rfl, h⟩, fun ⟨_, h, hf⟩ => by cases h; exact hf⟩

/-- What is fetched is what is stored. -/
theorem fetchStore_same {c : BackupContext} {s t : Store E} (h : fetchStore c s = .ok t) : t.Same s := by
  simp only [fetchStore, bind_eq_ok] at h
  obtain ⟨notes, hn, documents, hd, chunks, hc, sessions, hs, messages, hm, h⟩ := h
  cases h
  exact ⟨c.fetch_perm hn, c.fetch_perm hd, c.fetch_perm hc, c.fetch_perm hs, c.fetch_perm hm⟩

/-- What `exportZip` wrote, imported into an empty store: the same records. -/
theorem importZip_exportZip (codec : PayloadCodec E J) (c : BackupContext) (ci : ImportContext)
    (now : Date) {s fetched : Store E} (hs : s.Consistent) (hf : fetchStore c s = .ok fetched) :
    ∃ archive restored, exportZip codec c now true s = .ok archive ∧
      importZip codec ci (some archive) (Store.empty E) = .ok restored ∧ restored.Same s.truncated := by
  have hsame := fetchStore_same hf
  obtain ⟨data, hencode, hdecode⟩ := codec.roundTrip (exportPayload now fetched)
  refine ⟨⟨some data⟩, fetched.truncated, ?_, ?_, hsame.truncated⟩
  · exact bind_eq_ok.mpr ⟨fetched, hf, bind_eq_ok.mpr ⟨data, hencode, rfl⟩⟩
  · simp only [importZip, hdecode]
    exact congrArg Except.ok (importPayload_exportPayload ci now (hs.of_same hsame))

/-! ## A small backup -/

/-- The codec that keeps payloads as they are, to the second. -/
def PayloadCodec.plain (E : Type) : PayloadCodec E (ExportPayloadV1 E) where
  encode p := .ok p.truncated
  decode := .ok
  roundTrip p := ⟨p.truncated, rfl, rfl⟩

/-- The context that never fails and returns the records as they were stored. -/
def BackupContext.plain : BackupContext where
  fetch := .ok
  fetch_perm := by rintro α l l' ⟨⟩; rfl

def ImportContext.plain (newId : UUID) (now : Date) : ImportContext where
  newId
  now
  first := List.head?
  first_mem := List.mem_of_mem_head?
  first_isSome := List.isSome_head?.mpr

/-- A note, a document with a chunk, and a session with a message. -/
def smallStore : Store Unit :=
  let document : KnowledgeDocument :=
    ⟨1, "Manual", "file", "text/plain", "manual.txt", none, "ready", none, none, none, 1 / 2, 3 / 2⟩
  { notes := [⟨0, "Ideas", "A list", 5 / 2, 7 / 2, ["todo"], some (), some "m", some (9 / 2), some "h", none, none⟩]
    documents := [document]
    chunks := [⟨2, 0, none, "Text", none, none, none, none, none, none, none, none, 1 / 2, 3 / 2, some document⟩]
    sessions := [⟨3, "Plans", 1 / 3, 2 / 3⟩]
    messages := [⟨4, "user", "Hello", none, [0], [2], 4 / 3, some 3⟩] }

theorem restores_smallStore :
    ∃ archive restored, exportZip (PayloadCodec.plain Unit) .plain 10 true smallStore = .ok archive ∧
      importZip (PayloadCodec.plain Unit) (.plain 5 20) (some archive) (Store.empty Unit) = .ok restored ∧
      restored.Same smallStore.truncated :=
  importZip_exportZip (.plain Unit) .plain (.plain 5 20) 10
    ⟨by decide, by decide +kernel, by decide⟩ rfl

end SynapsNotes.Backup
