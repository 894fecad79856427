import SynapsNotes.Retrieval.Groups

/-!
# What a retrieval returns is well formed

Whatever the sources, their scores and their identifiers, a result cites each
source once, stays within the limits of the profile, and numbers its citations
in the order of the scores (`retrieveContext_wellFormed`). The limits hold of
the variables of `diversifyAndBalance` at each of its three places where a
candidate is taken (`Selection.Valid`); sorting what is selected and splitting
it by kind keeps them.
-/

namespace SynapsNotes.Retrieval

open Framework FloatLike

variable {α : Type}

/-! ## The selection -/

/-- A chunk of the document. -/
def ScoredCandidate.isChunkOf (document : UUID) (c : ScoredCandidate α) : Bool :=
  !c.source.isNote && c.documentId == some document

theorem ScoredCandidate.isChunkOf_note {c : ScoredCandidate α} (h : c.source.isNote) (document : UUID) :
    c.isChunkOf document = false := by
  rw [isChunkOf, h, Bool.not_true, Bool.false_and]

theorem ScoredCandidate.isChunkOf_chunk {c : ScoredCandidate α} (h : c.source.isNote = false) (document : UUID) :
    c.isChunkOf document = decide (c.documentId = some document) := by
  rw [isChunkOf, h, Bool.not_false, Bool.true_and, beq_eq_decide]

namespace Selection

/-- No source is selected twice, the limits are kept, and the chunks of each
document are counted. -/
structure Valid (profile : RAGRetrievalProfile) (s : Selection α) : Prop where
  distinct : s.selected.Pairwise fun a b => sameSource a b = false
  length_le : s.selected.length ≤ profile.maxResults
  count_eq : ∀ document, s.selected.countP (·.isChunkOf document) = s.chunkPerDocumentCount document
  count_le : ∀ document, s.chunkPerDocumentCount document ≤ profile.maxChunksPerDocument

variable {profile : RAGRetrievalProfile} {s : Selection α} {c : ScoredCandidate α}

@[simp] theorem select_selected (s : Selection α) (c : ScoredCandidate α) :
    (s.select c).selected = s.selected ++ [c] := rfl

@[simp] theorem select_count (s : Selection α) (c : ScoredCandidate α) :
    (s.select c).chunkPerDocumentCount = s.chunkPerDocumentCount := rfl

theorem setCount_count (s : Selection α) (d : Option UUID) (count : UUID → Nat) (document : UUID) :
    (s.setCount d count).chunkPerDocumentCount document =
      if d = some document then count document else s.chunkPerDocumentCount document := by
  cases d with
  | none => rfl
  | some own =>
    by_cases h : own = document
    · simp [setCount, h]
    · simp [setCount, h, Function.update_of_ne (Ne.symm h)]

theorem valid_empty (profile : RAGRetrievalProfile) : (empty : Selection α).Valid profile :=
  ⟨.nil, Nat.zero_le _, fun _ => rfl, fun _ => Nat.zero_le _⟩

theorem pairwise_append_singleton {R : ScoredCandidate α → ScoredCandidate α → Prop} {l : List (ScoredCandidate α)}
    (h : l.Pairwise R) (hc : ∀ d ∈ l, R d c) : (l ++ [c]).Pairwise R := by
  refine List.pairwise_append.mpr ⟨h, List.pairwise_singleton R c, fun d hd e he => ?_⟩
  rw [List.mem_singleton.mp he]
  exact hc d hd

/-- Taking a note that is not selected. -/
theorem Valid.select_note (h : s.Valid profile) (hroom : s.selected.length < profile.maxResults)
    (hnew : ∀ d ∈ s.selected, sameSource d c = false) (hnote : c.source.isNote) : (s.select c).Valid profile where
  distinct := pairwise_append_singleton h.distinct hnew
  length_le := by
    rw [select_selected, List.length_append, List.length_singleton]
    omega
  count_eq document := by
    rw [select_selected, List.countP_append, h.count_eq, List.countP_singleton, c.isChunkOf_note hnote]
    rfl
  count_le := h.count_le

/-- Taking a chunk that is not selected, of a document with room for one more. -/
theorem Valid.select_chunk (h : s.Valid profile) (hroom : s.selected.length < profile.maxResults)
    (hnew : ∀ d ∈ s.selected, sameSource d c = false) (hchunk : c.source.isNote = false)
    (hcount : ∀ document ∈ c.documentId, s.chunkPerDocumentCount document < profile.maxChunksPerDocument) :
    ((s.select c).setCount c.documentId fun document => s.chunkPerDocumentCount document + 1).Valid profile where
  distinct := by
    rw [setCount_selected]
    exact pairwise_append_singleton h.distinct hnew
  length_le := by
    rw [setCount_selected, select_selected, List.length_append, List.length_singleton]
    omega
  count_eq document := by
    rw [setCount_selected, setCount_count, select_selected, List.countP_append, h.count_eq, List.countP_singleton,
      c.isChunkOf_chunk hchunk]
    by_cases hd : c.documentId = some document <;> simp [hd]
  count_le document := by
    have hold := h.count_le document
    rw [setCount_count]
    split
    · rename_i hd
      have := hcount document hd
      omega
    · exact hold

/-- The loop keeps the limits. -/
theorem Valid.offer (h : s.Valid profile) (hroom : s.selected.length < profile.maxResults) :
    (s.offer profile c).Valid profile := by
  unfold Selection.offer
  cases hskip : s.skips profile c with
  | true => exact h
  | false =>
    simp only [skips, Bool.or_eq_false_iff, List.any_eq_false, Bool.not_eq_true] at hskip
    obtain ⟨⟨hnew, -⟩, hfull⟩ := hskip
    rw [if_neg Bool.false_ne_true]
    split
    · rename_i hnote
      exact h.select_note hroom hnew hnote
    · rename_i hchunk
      refine h.select_chunk hroom hnew (by simpa using hchunk) fun document hd => ?_
      rw [Option.mem_def.mp hd] at hfull
      simpa [hchunk] using hfull

/-- Taking the first chunk, beside notes. -/
theorem Valid.select_first_chunk (h : s.Valid profile) (hroom : s.selected.length < profile.maxResults)
    (hnotes : ∀ d ∈ s.selected, d.source.isNote) (hcount : s.chunkPerDocumentCount = fun _ => 0)
    (hchunk : c.source.isNote = false) : ((s.select c).setCount c.documentId fun _ => 1).Valid profile := by
  have hnew : ∀ d ∈ s.selected, sameSource d c = false := fun d hd => by
    have := hnotes d hd
    unfold sameSource
    split <;> simp_all [CandidateSource.isNote]
  have hvalid := h.select_chunk hroom hnew hchunk fun document _ => by
    rw [hcount]
    exact profile.maxChunksPerDocument_pos
  rwa [hcount] at hvalid

section Seed

variable [FloatLike α] {candidates : List (ScoredCandidate α)}

/-- The best note and the best chunk are within the limits. -/
theorem valid_seed (profile : RAGRetrievalProfile) (candidates : List (ScoredCandidate α)) :
    (seed profile candidates).Valid profile := by
  have hroom := profile.two_le_maxResults
  have hempty : (empty : Selection α).Valid profile := valid_empty profile
  have hfirst : ∀ note ∈ candidates.find? (·.source.isNote), (empty.select note).Valid profile := fun note hn =>
    hempty.select_note (Nat.zero_lt_two.trans_le hroom) (fun _ hd => by cases hd) (by simpa using List.find?_some hn)
  have hchunk : ∀ chunk ∈ candidates.find? (!·.source.isNote), chunk.source.isNote = false := fun chunk hc => by
    simpa using List.find?_some hc
  obtain h | ⟨chunk, hc, -, h⟩ | ⟨note, hn, -, h⟩ | ⟨note, hn, chunk, hc, -, h⟩ := seed_cases profile candidates
  · rwa [h]
  · rw [h]
    exact hempty.select_first_chunk (Nat.zero_lt_two.trans_le hroom) (fun _ hd => by cases hd) rfl (hchunk chunk hc)
  · rw [h]
    exact hfirst note hn
  · rw [h]
    refine (hfirst note hn).select_first_chunk hroom (fun d hd => ?_) rfl (hchunk chunk hc)
    rw [List.mem_singleton.mp hd]
    simpa using List.find?_some hn

/-- Everything taken together is within the limits. -/
theorem valid_fill (profile : RAGRetrievalProfile) (candidates : List (ScoredCandidate α)) :
    (fill profile candidates (seed profile candidates)).Valid profile :=
  fill_induction (valid_seed profile candidates) fun _ _ _ hroom h => h.offer hroom

end Seed

end Selection

/-! ## The result -/

section Citations

@[simp] theorem citation_id (index : ℕ) (source : CandidateSource α) :
    (citation index source).id = "S" ++ toString (index + 1) := by
  cases source <;> rfl

@[simp] theorem citation_noteId (index : ℕ) (source : CandidateSource α) :
    (citation index source).noteId = source.note?.map Note.id := by
  cases source <;> rfl

@[simp] theorem citation_chunkId (index : ℕ) (source : CandidateSource α) :
    (citation index source).chunkId = source.chunk?.map KnowledgeChunk.id := by
  cases source <;> rfl

/-- What is read off the citations is read off the sources. -/
theorem filterMap_citation {γ : Type} {f : CitationRef → Option γ} {g : CandidateSource α → Option γ}
    (h : ∀ index source, f (citation index source) = g source) (sources : List (CandidateSource α)) :
    (sources.mapIdx citation).filterMap f = sources.filterMap g := by
  rw [List.mapIdx_eq_zipIdx_map, List.filterMap_map]
  have hfun : (f ∘ fun x : CandidateSource α × ℕ => citation x.2 x.1) = g ∘ Prod.fst := funext fun x => h x.2 x.1
  rw [hfun, ← List.filterMap_map, List.zipIdx_map_fst]

/-- Of a list without the same source twice, the identifiers of a kind differ. -/
theorem nodup_filterMap_id {γ : Type} {f : CandidateSource α → Option γ} {selected : List (ScoredCandidate α)}
    (hdistinct : selected.Pairwise fun a b => sameSource a b = false)
    (hsame : ∀ a b id, f a.source = some id → f b.source = some id → sameSource a b = true) :
    ((selected.map ScoredCandidate.source).filterMap f).Nodup := by
  rw [List.filterMap_map]
  refine List.pairwise_filterMap.mpr (hdistinct.imp fun {a b} hab x hx y hy => ?_)
  rintro rfl
  rw [hsame a b x hx hy] at hab
  exact absurd hab.symm Bool.false_ne_true

end Citations

section Result

variable [FloatLike α] {U : Unicode} {q : Query α}

/-- The candidates a request selects. -/
def selection (U : Unicode) (sched : Schedule) (req : Request α) (notes : List (Note (List α)))
    (chunks : List (KnowledgeChunk (List α))) : List (ScoredCandidate α) :=
  diversifyAndBalance (activeCandidates req.profile (scoreCandidates U sched (req.query U) notes chunks)) req.profile

/-- Nothing is returned, for a blank query or because nothing is selected, or
what is selected. -/
theorem retrieveContext_cases (U : Unicode) (sched : Schedule) (req : Request α) (notes : List (Note (List α)))
    (chunks : List (KnowledgeChunk (List α))) :
    (Text.trimmingCharacters req.queryText.toList = [] ∨ selection U sched req notes chunks = []) ∧
        retrieveContext U sched req notes chunks = .empty ∨
      ∃ embeddingEnabled, Text.trimmingCharacters req.queryText.toList ≠ [] ∧ selection U sched req notes chunks ≠ [] ∧
        retrieveContext U sched req notes chunks = assemble embeddingEnabled (selection U sched req notes chunks) := by
  unfold retrieveContext
  dsimp only
  split
  · rename_i hquery
    exact .inl ⟨.inl (List.isEmpty_iff.mp hquery), rfl⟩
  rename_i hquery
  split
  · rename_i hnone
    refine .inl ⟨.inr ?_, rfl⟩
    have hactive : activeCandidates req.profile ([] : List (ScoredCandidate α)) = [] := by
      simp [activeCandidates, sortedBy]
    rw [selection, List.isEmpty_iff.mp hnone, hactive]
    rfl
  split
  · rename_i hsel
    exact .inl ⟨.inr (List.isEmpty_iff.mp hsel), rfl⟩
  · rename_i hsel
    exact .inr ⟨_, fun h => hquery (List.isEmpty_iff.mpr h), fun h => hsel (List.isEmpty_iff.mpr h), rfl⟩

/-- The citations of a result are of different sources, within the limits of
the profile, numbered in the order of the scores, and one for each source
returned. -/
structure RetrievalResult.WellFormed (U : Unicode) (q : Query α) (r : RetrievalResult (List α) α) : Prop where
  noteIds_nodup : (r.citations.filterMap CitationRef.noteId).Nodup
  chunkIds_nodup : (r.citations.filterMap CitationRef.chunkId).Nodup
  length_le : r.citations.length ≤ q.profile.maxResults
  perDocument_le : ∀ document, r.selectedChunks.countP (fun chunk =>
    decide (chunk.document.map KnowledgeDocument.id = some document)) ≤ q.profile.maxChunksPerDocument
  numbered : r.citations.map CitationRef.id = (List.range r.citations.length).map fun i => "S" ++ toString (i + 1)
  cites : ∃ candidates : List (ScoredCandidate α), Descending candidates ∧
    (∀ c ∈ candidates, scoreSource U q c.source = some c) ∧
    r.citations = (candidates.map ScoredCandidate.source).mapIdx citation ∧
    r.selectedNotes = (candidates.map ScoredCandidate.source).filterMap CandidateSource.note? ∧
    r.selectedChunks = (candidates.map ScoredCandidate.source).filterMap CandidateSource.chunk?

theorem wellFormed_empty (U : Unicode) (q : Query α) :
    (RetrievalResult.empty : RetrievalResult (List α) α).WellFormed U q :=
  ⟨.nil, .nil, Nat.zero_le _, fun _ => Nat.zero_le _, rfl, [], .nil, fun _ h => (by cases h), rfl, rfl, rfl⟩

theorem isChunkOf_eq {c : ScoredCandidate α} (h : scoreSource U q c.source = some c) (document : UUID) :
    c.isChunkOf document =
      ((c.source.chunk?.map fun chunk => decide (chunk.document.map KnowledgeDocument.id = some document)).getD
        false) := by
  cases hs : c.source with
  | note note =>
    rw [c.isChunkOf_note (by rw [hs]; rfl)]
    rfl
  | chunk chunk =>
    rw [c.isChunkOf_chunk (by rw [hs]; rfl)]
    rw [hs] at h
    obtain ⟨_, _, rfl⟩ := Option.map_eq_some_iff.mp h
    rfl

theorem descending_ordered (selected : List (ScoredCandidate α)) : Descending (ordered selected) := by
  rw [ordered_eq]
  have hsorted := sortOn_sorted (fun c : ScoredCandidate α => OrderDual.toDual c.fusedScore) selected
  exact hsorted.imp fun {a b} h => OrderDual.toDual_le_toDual.mp h

/-- A selection within the limits makes a well formed result. -/
theorem wellFormed_assemble {s : Selection α} (embeddingEnabled : Bool) (h : s.Valid q.profile)
    (hs : ∀ c ∈ s.selected, scoreSource U q c.source = some c) :
    (assemble embeddingEnabled s.selected).WellFormed U q := by
  have hperm : (ordered s.selected).Perm s.selected := List.perm_insertionSort _ _
  have hcitations : (assemble embeddingEnabled s.selected).citations =
      ((ordered s.selected).map ScoredCandidate.source).mapIdx citation := rfl
  have hlength : (assemble embeddingEnabled s.selected).citations.length = s.selected.length := by
    rw [hcitations, List.length_mapIdx, List.length_map, length_ordered]
  refine ⟨?_, ?_, ?_, ?_, ?_, ordered s.selected, descending_ordered _, ?_, hcitations, rfl, rfl⟩
  · rw [hcitations, filterMap_citation citation_noteId, ((hperm.map _).filterMap _).nodup_iff]
    refine nodup_filterMap_id h.distinct fun a b id ha hb => ?_
    unfold sameSource
    cases has : a.source <;> cases hbs : b.source <;> simp_all [CandidateSource.note?]
  · rw [hcitations, filterMap_citation citation_chunkId, ((hperm.map _).filterMap _).nodup_iff]
    refine nodup_filterMap_id h.distinct fun a b id ha hb => ?_
    unfold sameSource
    cases has : a.source <;> cases hbs : b.source <;> simp_all [CandidateSource.chunk?]
  · rw [hlength]
    exact h.length_le
  · intro document
    calc (((ordered s.selected).map ScoredCandidate.source).filterMap CandidateSource.chunk?).countP
          (fun chunk => decide (chunk.document.map KnowledgeDocument.id = some document))
        = ((s.selected.map ScoredCandidate.source).filterMap CandidateSource.chunk?).countP
          (fun chunk => decide (chunk.document.map KnowledgeDocument.id = some document)) :=
        ((hperm.map _).filterMap _).countP_eq _
      _ = s.selected.countP (·.isChunkOf document) := by
        rw [List.countP_filterMap, List.countP_map]
        refine List.countP_congr fun c hc => ?_
        rw [isChunkOf_eq (hs c hc)]
        rfl
      _ ≤ q.profile.maxChunksPerDocument := (h.count_eq document).trans_le (h.count_le document)
  · refine List.ext_getElem (by rw [List.length_map, List.length_map, List.length_range]) fun i _ _ => ?_
    simp only [hcitations, List.getElem_map, List.getElem_mapIdx, List.getElem_range, citation_id]
  · exact fun c hc => hs c (hperm.mem_iff.mp hc)

/-- For every request, all sources and any schedule. -/
theorem retrieveContext_wellFormed (U : Unicode) (sched : Schedule) (req : Request α) (notes : List (Note (List α)))
    (chunks : List (KnowledgeChunk (List α))) :
    (retrieveContext U sched req notes chunks).WellFormed U (req.query U) := by
  obtain ⟨-, h⟩ | ⟨embeddingEnabled, -, hne, h⟩ := retrieveContext_cases U sched req notes chunks
  · rw [h]
    exact wellFormed_empty U _
  · have hcand : activeCandidates req.profile (scoreCandidates U sched (req.query U) notes chunks) ≠ [] := fun hnil =>
      hne (by rw [selection, hnil]; rfl)
    rw [h]
    rw [selection, diversifyAndBalance_eq hcand] at hne ⊢
    refine wellFormed_assemble embeddingEnabled (Selection.valid_fill req.profile _) fun c hc => ?_
    rw [← diversifyAndBalance_eq hcand] at hc
    exact scoreSource_of_mem_diversify hc

end Result

end SynapsNotes.Retrieval
