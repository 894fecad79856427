import SynapsNotes.Retrieval.Evidence

/-!
# The same text twice, and the best candidate left out

The loop of `diversifyAndBalance` takes no text twice. Two things come of the
note and the chunk being taken before it. The chunk is taken without a look at
the texts, so that a note and a chunk with one text are both returned
(`textsDiffer_iff`). And a chunk far above the note that has the note's text
is then a duplicate to the loop: the best candidate can be left out
(`citesBest_iff`).
-/

namespace SynapsNotes.Retrieval

open Framework FloatLike Selection

variable {α : Type} {profile : RAGRetrievalProfile}

/-! ## The texts selected -/

/-- The texts selected differ and are recorded. -/
def FingerprintsKept (s : Selection α) : Prop :=
  (s.selected.map ScoredCandidate.fingerprint).Nodup ∧ ∀ c ∈ s.selected, c.fingerprint ∈ s.selectedFingerprints

theorem FingerprintsKept.offer {s : Selection α} (h : FingerprintsKept s) (c : ScoredCandidate α) :
    FingerprintsKept (s.offer profile c) := by
  obtain ⟨hnodup, hmem⟩ := h
  obtain ⟨-, he⟩ | ⟨hskip, he, hefp⟩ := offer_cases profile s c
  · rw [he]
    exact ⟨hnodup, hmem⟩
  · have hnew : c.fingerprint ∉ s.selectedFingerprints := fun hc => by
      rw [skips, decide_eq_true hc, Bool.or_true, Bool.true_or] at hskip
      exact absurd hskip.symm Bool.false_ne_true
    unfold FingerprintsKept
    rw [he, hefp, List.map_append]
    constructor
    · refine List.nodup_append.mpr ⟨hnodup, List.nodup_singleton _, fun x hx y hy => ?_⟩
      obtain ⟨d, hd, rfl⟩ := List.mem_map.mp hx
      rw [List.mem_singleton.mp hy]
      exact fun heq => hnew (heq ▸ hmem d hd)
    · intro d hd
      rcases List.mem_append.mp hd with hd | hd
      · exact Finset.mem_insert_of_mem (hmem d hd)
      · rw [List.mem_singleton.mp hd]
        exact Finset.mem_insert_self _ _

section Scored

variable [FloatLike α] {U : Unicode} {candidates : List (ScoredCandidate α)}

/-! ## One text twice -/

/-- `fingerprintKey`, of a note or a chunk. -/
def CandidateSource.fingerprint (U : Unicode) : CandidateSource α → Text
  | .note n => fingerprintKey U n.title n.content
  | .chunk c => fingerprintKey U ((c.document.map KnowledgeDocument.title).getD "") c.text

theorem fingerprint_of_scoreSource {q : Query α} {source : CandidateSource α} {c : ScoredCandidate α}
    (h : scoreSource U q source = some c) : c.fingerprint = source.fingerprint U := by
  cases source <;> obtain ⟨_, _, rfl⟩ := Option.map_eq_some_iff.mp h <;> rfl

/-- No two sources returned have one text. -/
def TextsDiffer (U : Unicode) (r : RetrievalResult (List α) α) : Prop :=
  (r.sources.map (CandidateSource.fingerprint U)).Nodup

/-- The best note and the best chunk have one text and are close in score. -/
def TwinsClose (candidates : List (ScoredCandidate α)) : Prop :=
  ∃ note ∈ candidates.find? (·.source.isNote), ∃ chunk ∈ candidates.find? (!·.source.isNote),
    scoreGap note chunk ≤ lit 0.18 ∧ note.fingerprint = chunk.fingerprint

theorem fingerprintsKept_seed (h : ¬ TwinsClose candidates) : FingerprintsKept (seed profile candidates) := by
  unfold FingerprintsKept
  obtain he | ⟨chunk, -, -, he⟩ | ⟨note, -, -, he⟩ | ⟨note, hn, chunk, hc, hgap, he⟩ := seed_cases profile candidates
  · rw [he]
    exact ⟨.nil, fun c hc => by cases hc⟩
  · rw [he, setCount_selected, setCount_selectedFingerprints]
    simp [select, Selection.empty]
  · rw [he]
    simp [select, Selection.empty]
  · have hne : note.fingerprint ≠ chunk.fingerprint := fun heq => h ⟨note, hn, chunk, hc, hgap, heq⟩
    rw [he, setCount_selected, setCount_selectedFingerprints]
    simp [select, Selection.empty, hne]

/-- What is selected has different texts unless the two taken first have one. -/
theorem nodup_fingerprints_iff (profile : RAGRetrievalProfile) :
    ((diversifyAndBalance candidates profile).map ScoredCandidate.fingerprint).Nodup ↔ ¬ TwinsClose candidates := by
  by_cases hne : candidates = []
  · subst hne
    exact iff_of_true .nil fun ⟨note, hn, _⟩ => by cases hn
  rw [diversifyAndBalance_eq hne]
  constructor
  · rintro hnodup ⟨note, hn, chunk, hc, hgap, heq⟩
    have hseed := ((prefix_fill profile candidates (seed profile candidates)).sublist.map _).nodup hnodup
    rw [seed_of_close hn hc hgap] at hseed
    simp [heq] at hseed
  · intro h
    have hkept : FingerprintsKept (fill profile candidates (seed profile candidates)) :=
      fill_invariant (fingerprintsKept_seed h) fun s c _ hs => hs.offer c
    exact hkept.1

/-- For every request, all sources and any schedule: the texts returned differ
if and only if the query is blank or the best note and the best chunk among
the active candidates are not close with one text. -/
theorem textsDiffer_iff (U : Unicode) (sched : Schedule) (req : Request α) (notes : List (Note (List α)))
    (chunks : List (KnowledgeChunk (List α))) :
    TextsDiffer U (retrieveContext U sched req notes chunks) ↔
      Text.trimmingCharacters req.queryText.toList = [] ∨
        ¬ TwinsClose (activeCandidates req.profile (scoreCandidates U sched (req.query U) notes chunks)) := by
  rw [← nodup_fingerprints_iff req.profile]
  obtain ⟨hnone, he⟩ | ⟨embeddingEnabled, hquery, -, he⟩ := retrieveContext_cases U sched req notes chunks
  · rw [he]
    refine iff_of_true .nil (hnone.imp_right fun hsel => ?_)
    rw [← selection, hsel]
    exact .nil
  · have hsources : ((retrieveContext U sched req notes chunks).sources.map (CandidateSource.fingerprint U)).Perm
        ((selection U sched req notes chunks).map ScoredCandidate.fingerprint) := by
      rw [he]
      refine ((assemble_sources_perm _ _).map _).trans (List.Perm.of_eq ?_)
      rw [List.map_map]
      exact List.map_congr_left fun c hc => (fingerprint_of_scoreSource (scoreSource_of_mem_diversify hc)).symm
    rw [or_iff_right hquery, TextsDiffer, hsources.nodup_iff]
    rfl

/-- A note and a chunk of one text and with the same words of the query. -/
def twinNote : Note (List ℚ) :=
  ⟨4, "Alpha", "alpha & beta", 0, 0, [], none, none, none, none, none, none⟩

/-- The note and the chunk, which have one text, are both returned. -/
theorem not_textsDiffer_twinNote :
    (retrieveContext .ascii .inOrder twoWords [twinNote] [alphaChunk]).sources = [.note twinNote, .chunk alphaChunk] ∧
      ¬ TextsDiffer .ascii (retrieveContext .ascii .inOrder twoWords [twinNote] [alphaChunk]) := by
  have hsources : (retrieveContext .ascii .inOrder twoWords [twinNote] [alphaChunk]).sources =
      [.note twinNote, .chunk alphaChunk] := by decide +kernel
  refine ⟨hsources, ?_⟩
  rw [TextsDiffer, hsources]
  decide +kernel

/-! ## The best candidate -/

/-- The source cited first has the greatest score of all candidates. -/
def CitesBest (U : Unicode) (q : Query α) (candidates : List (ScoredCandidate α)) (r : RetrievalResult (List α) α) :
    Prop :=
  ∃ source ∈ r.sources, r.citations.head? = some (citation 0 source) ∧
    ∃ c, scoreSource U q source = some c ∧ ∀ d ∈ candidates, d.fusedScore ≤ c.fusedScore

/-- Where the best chunk is above the best note and not close to it, some
candidate as good as the chunk has not the note's text. -/
def BestTaken (candidates : List (ScoredCandidate α)) : Prop :=
  ∀ note ∈ candidates.find? (·.source.isNote), ∀ chunk ∈ candidates.find? (!·.source.isNote),
    note.fusedScore < chunk.fusedScore → ¬ scoreGap note chunk ≤ lit 0.18 →
      ∃ c ∈ candidates, chunk.fusedScore ≤ c.fusedScore ∧ c.fingerprint ≠ note.fingerprint

instance (candidates : List (ScoredCandidate α)) : Decidable (BestTaken candidates) :=
  inferInstanceAs (Decidable (∀ note ∈ candidates.find? (·.source.isNote),
    ∀ chunk ∈ candidates.find? (!·.source.isNote), note.fusedScore < chunk.fusedScore →
      ¬ scoreGap note chunk ≤ lit 0.18 →
        ∃ c ∈ candidates, chunk.fusedScore ≤ c.fusedScore ∧ c.fingerprint ≠ note.fingerprint))

theorem exists_max_taken_of_bestTaken (profile : RAGRetrievalProfile) {top : ScoredCandidate α}
    (hd : Descending candidates) (htop : candidates.head? = some top) (h : BestTaken candidates) :
    ∃ c ∈ diversifyAndBalance candidates profile, top.fusedScore ≤ c.fusedScore := by
  have hmem : top ∈ candidates := List.mem_of_head? htop
  have hne : candidates ≠ [] := List.ne_nil_of_mem hmem
  obtain ⟨first, hfirst, hkind⟩ := head_diversifyAndBalance profile hne
  have htaken : first ∈ diversifyAndBalance candidates profile := List.mem_of_head? hfirst
  obtain ⟨rest, rfl⟩ := List.head?_eq_some_iff.mp htop
  cases hn : (top :: rest).find? (·.source.isNote) with
  | none =>
    -- without a note the best chunk is the best candidate
    have hchunk : top.source.isNote = false := by simpa using List.find?_eq_none.mp hn top List.mem_cons_self
    rw [hn, Option.none_or, List.find?_cons_of_pos (by rw [hchunk]; rfl)] at hkind
    exact ⟨first, htaken, (congrArg ScoredCandidate.fusedScore (Option.some.inj hkind)).le⟩
  | some note =>
    rw [hn, Option.some_or] at hkind
    obtain rfl : note = first := Option.some.inj hkind
    by_cases hle : top.fusedScore ≤ note.fusedScore
    · exact ⟨note, htaken, hle⟩
    · have habove := not_le.mp hle
      have hchunks := fun d hdm => isNote_of_above (c := d) hd hn hdm
      have hchunk : (top :: rest).find? (!·.source.isNote) = some top :=
        List.find?_cons_of_pos (by rw [hchunks top hmem habove]; rfl)
      rw [diversifyAndBalance_eq hne]
      by_cases hgap : scoreGap note top ≤ lit 0.18
      · refine ⟨top, (prefix_fill profile _ _).subset ?_, le_refl _⟩
        rw [seed_of_close hn hchunk hgap]
        exact List.mem_pair.mpr (.inr rfl)
      · obtain ⟨c, hc, hbest, hfp⟩ := h note hn top hchunk habove hgap
        rw [seed_of_far hn fun ch hch => by rwa [Option.some.inj (hch.symm.trans hchunk)]]
        refine exists_mem_fill profile (isUpperSet_Ici top.fusedScore) hd (fun d hdm hdbest => ?_)
          (by simpa using List.find?_some hn) hc hbest hfp
        exact hchunks d hdm (habove.trans_le hdbest)

theorem lt_of_taken_of_not_bestTaken {top c : ScoredCandidate α} (hd : Descending candidates)
    (htop : candidates.head? = some top) (h : ¬ BestTaken candidates)
    (hc : c ∈ diversifyAndBalance candidates profile) : c.fusedScore < top.fusedScore := by
  unfold BestTaken at h
  push Not at h
  obtain ⟨note, hn, chunk, hchunk, habove, hgap, hfp⟩ := h
  rw [diversifyAndBalance_eq (List.ne_nil_of_mem (List.mem_of_head? htop)), seed_of_far hn fun ch hch => by
    rw [Option.some.inj (hch.symm.trans hchunk)]
    exact not_le.mpr hgap] at hc
  have hbelow : c.fusedScore ∉ Set.Ici chunk.fusedScore :=
    forall_mem_fill (S := Set.Ici chunk.fusedScore) (not_le.mpr habove) hfp c hc
  exact (not_le.mp hbelow).trans_le (le_head_of_descending hd htop (List.mem_of_find?_eq_some hchunk))

/-- The first active candidate is the best of all. -/
theorem head_activeCandidates (hne : activeCandidates profile candidates ≠ []) :
    (activeCandidates profile candidates).head? = (sortedBy ranksBefore candidates).head? := by
  rw [activeCandidates_eq] at hne ⊢
  obtain hzero | hpos := Nat.eq_zero_or_pos (activeCount profile (sortedBy ranksBefore candidates))
  · rw [activeOf_of_zero hzero] at hne ⊢
    cases hhead : (sortedBy ranksBefore candidates).head? with
    | none => simp [hhead] at hne
    | some top =>
      rw [hhead, Option.toList_some] at hne
      cases hdismissed : dismissed profile top <;> simp_all
  · rw [activeOf_of_pos (descending_sortedBy_ranksBefore candidates) hpos, List.head?_take, if_neg hpos.ne']

/-- For every request that returns sources, on any schedule: the source cited
first is the best of all candidates if and only if the best candidate is
taken, from what the best note and the best chunk among the active candidates
are. -/
theorem citesBest_iff (U : Unicode) (sched : Schedule) (req : Request α) (notes : List (Note (List α)))
    (chunks : List (KnowledgeChunk (List α)))
    (hne : 0 < (retrieveContext U sched req notes chunks).selectedCount) :
    CitesBest U (req.query U) (scoreCandidates U sched (req.query U) notes chunks)
        (retrieveContext U sched req notes chunks) ↔
      BestTaken (activeCandidates req.profile (scoreCandidates U sched (req.query U) notes chunks)) := by
  obtain ⟨-, he⟩ | ⟨embeddingEnabled, -, hsel, he⟩ := retrieveContext_cases U sched req notes chunks
  · rw [he] at hne
    exact absurd hne (Nat.lt_irrefl 0)
  rw [he]
  generalize hcands : scoreCandidates U sched (req.query U) notes chunks = candidates
  have hself : ∀ c ∈ selection U sched req notes chunks, scoreSource U (req.query U) c.source = some c :=
    fun c hc => scoreSource_of_mem_diversify hc
  have hactive : activeCandidates req.profile candidates ≠ [] := fun hnil =>
    hsel (by rw [selection, hcands, hnil]; rfl)
  have hselection : selection U sched req notes chunks =
      diversifyAndBalance (activeCandidates req.profile candidates) req.profile := by rw [selection, hcands]
  obtain ⟨top, rest, htop⟩ := List.exists_cons_of_ne_nil hactive
  have hhead : (activeCandidates req.profile candidates).head? = some top := by rw [htop]; rfl
  have hd := descending_activeCandidates req.profile candidates
  have hmax : ∀ d ∈ candidates, d.fusedScore ≤ top.fusedScore := fun d hdm =>
    le_head_of_descending (descending_sortedBy_ranksBefore candidates)
      ((head_activeCandidates hactive).symm.trans hhead) ((List.perm_insertionSort _ _).mem_iff.mpr hdm)
  have htopmem : top ∈ candidates := (List.perm_insertionSort _ _).mem_iff.mp
    ((activeCandidates_sublist req.profile candidates).subset (List.mem_of_head? hhead))
  constructor
  · rintro ⟨source, hsource, -, c, hscore, hbest⟩
    by_contra hnot
    obtain ⟨d, hdm, rfl⟩ := List.mem_map.mp ((assemble_sources_perm embeddingEnabled _).mem_iff.mp hsource)
    obtain rfl : d = c := Option.some.inj ((hself d hdm).symm.trans hscore)
    have hlt : d.fusedScore < top.fusedScore := lt_of_taken_of_not_bestTaken hd hhead hnot (hselection ▸ hdm)
    exact absurd (hbest top htopmem) (not_le.mpr hlt)
  · intro h
    obtain ⟨c, hc, hcmax⟩ := exists_max_taken_of_bestTaken req.profile hd hhead h
    obtain ⟨first, hfirst, hbest, hcit⟩ := assemble_citations_head embeddingEnabled hsel
    have hsource : first.source ∈ (assemble embeddingEnabled (selection U sched req notes chunks)).sources :=
      (assemble_sources_perm _ _).mem_iff.mpr (List.mem_map_of_mem hfirst)
    refine ⟨first.source, hsource, hcit, first, hself first hfirst, fun d hdm => ?_⟩
    exact (hmax d hdm).trans (hcmax.trans (hbest c (hselection ▸ hc)))

end Scored

/-- The question of two words, with the greatest boost on the chunks. -/
def praisedChunks : Request ℚ := { twoWords with chunkBoosts := fun _ => some 0.2 }

/-- The chunk scores 0.8175 and the note 0.455; both are returned. -/
theorem citesBest_tripNote :
    (retrieveContext .ascii .inOrder praisedChunks [tripNote] [alphaChunk]).sources =
        [.note tripNote, .chunk alphaChunk] ∧
      CitesBest .ascii (praisedChunks.query .ascii)
        (scoreCandidates .ascii .inOrder (praisedChunks.query .ascii) [tripNote] [alphaChunk])
        (retrieveContext .ascii .inOrder praisedChunks [tripNote] [alphaChunk]) :=
  ⟨by decide +kernel,
    (citesBest_iff .ascii .inOrder praisedChunks [tripNote] [alphaChunk] (by decide +kernel)).mpr
      (by decide +kernel)⟩

/-- A note of the text of `alphaChunk`, all of it in its content. -/
def untitledNote : Note (List ℚ) :=
  ⟨5, "", "alpha alpha & beta", 0, 0, [], none, none, none, none, none, none⟩

/-- The note is returned with 0.455 and cited first; the chunk, which scores
0.8175, is not returned. -/
theorem not_citesBest_untitledNote :
    (retrieveContext .ascii .inOrder praisedChunks [untitledNote] [alphaChunk]).sources = [.note untitledNote] ∧
      ¬ CitesBest .ascii (praisedChunks.query .ascii)
        (scoreCandidates .ascii .inOrder (praisedChunks.query .ascii) [untitledNote] [alphaChunk])
        (retrieveContext .ascii .inOrder praisedChunks [untitledNote] [alphaChunk]) := by
  have hsources : (retrieveContext .ascii .inOrder praisedChunks [untitledNote] [alphaChunk]).sources =
      [.note untitledNote] := by decide +kernel
  refine ⟨hsources, ?_⟩
  rintro ⟨source, hsource, -, c, hscore, hbest⟩
  rw [hsources] at hsource
  rw [List.mem_singleton.mp hsource] at hscore
  have hnote : (scoreSource .ascii (praisedChunks.query .ascii) (.note untitledNote)).map ScoredCandidate.fusedScore =
      some 0.455 := by decide +kernel
  have hchunk : (0.8175 : ℚ) ∈ (scoreCandidates .ascii .inOrder (praisedChunks.query .ascii) [untitledNote]
      [alphaChunk]).map ScoredCandidate.fusedScore := by decide +kernel
  obtain ⟨d, hd, hscored⟩ := List.mem_map.mp hchunk
  have hle := hbest d hd
  rw [hscore, Option.map_some] at hnote
  rw [hscored, Option.some.inj hnote] at hle
  norm_num at hle

end SynapsNotes.Retrieval
