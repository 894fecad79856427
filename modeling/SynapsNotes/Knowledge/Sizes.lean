import SynapsNotes.Knowledge.Overlap

/-!
# How long chunks are

Each of the loops keeps its pieces within the limit: of the sentences that go
together, of the pieces of a sentence that is too long, and of the units that
go together. Units are trimmed, so what is packed needs no more trimming, and
a chunk begins with the unit that did not fit into the one before it
(`packUnits_spec`). An overlap is cut back to the limit, and where nothing
would be left of it the chunk stays as it was (`fits_mergeOverlap`).
-/

namespace SynapsNotes.Knowledge

open Framework

variable {U : Unicode} {lim : ChunkSize} {t text : Text}

/-- A chunk within the limit. -/
structure Fits (lim : ChunkSize) (t : Text) : Prop where
  isChunk : IsChunk t
  length_le : t.length ≤ lim.size

/-- Joined by a blank line, the two are longer than the limit. -/
def Apart (lim : ChunkSize) (t u : Text) : Prop := lim.size < (t ++ ['\n', '\n'] ++ u).length

instance (lim : ChunkSize) (t u : Text) : Decidable (Apart lim t u) := Nat.decLt ..

theorem IsChunk.nonEmpty_eq (h : IsChunk t) : nonEmpty t.trimmingCharacters = [t] := by
  rw [Text.trimmingCharacters, h.2.trim_eq, nonEmpty, if_neg]
  rw [List.isEmpty_iff]
  exact h.1

theorem fits_of_mem_nonEmpty {x : Text} (hlen : t.length ≤ lim.size) (h : x ∈ nonEmpty t.trimmingCharacters) :
    Fits lim x := by
  refine ⟨isChunk_of_mem_nonEmpty h, ?_⟩
  unfold nonEmpty at h
  split at h
  · cases h
  · obtain rfl := List.mem_singleton.mp h
    exact (length_trim_le _ _).trans hlen

/-! ## Cuts -/

theorem alignBackwardToWordBoundary_le {index lowerBound : Nat} (h : lowerBound ≤ index) :
    alignBackwardToWordBoundary U t index lowerBound ≤ index := by
  unfold alignBackwardToWordBoundary
  split
  · split
    · split
      · exact Nat.sub_le _ _
      · exact le_rfl
    · exact le_rfl
  · exact h

theorem pieceEnd_le (maxLength : Nat) (rest : Text) : pieceEnd U maxLength rest ≤ maxLength := by
  have hraw : min maxLength rest.length ≤ maxLength := Nat.min_le_left _ _
  unfold pieceEnd
  dsimp only
  split
  · split
    · exact (alignBackwardToWordBoundary_le (Nat.zero_le _)).trans hraw
    · exact hraw
  · exact hraw

theorem length_trimToWordBoundary_le (maxLength : Nat) : (trimToWordBoundary U t maxLength).length ≤ maxLength := by
  unfold trimToWordBoundary
  split
  · assumption
  · dsimp only
    split
    · exact (List.length_take_le _ _).trans (alignBackwardToWordBoundary_le (Nat.zero_le _))
    · exact List.length_take_le _ _

/-! ## Units -/

theorem fits_of_mem_splitPieces {x : Text} (h : x ∈ splitPieces U lim t) : Fits lim x := by
  induction t using splitPieces.induct U lim with
  | case1 =>
    rw [splitPieces, dif_pos rfl] at h
    cases h
  | case2 t ht ih =>
    rw [splitPieces, dif_neg ht] at h
    obtain h | h := List.mem_append.mp h
    · exact fits_of_mem_nonEmpty ((List.length_take_le _ _).trans (pieceEnd_le _ _)) h
    · exact ih h

theorem fits_of_mem_appendOrSplit {x : Text} (h : x ∈ appendOrSplit U lim t) : Fits lim x := by
  unfold appendOrSplit at h
  dsimp only at h
  split at h
  case isTrue => cases h
  case isFalse hne =>
    split at h
    case isTrue hlen =>
      obtain rfl := List.mem_singleton.mp h
      exact ⟨⟨fun he => hne (List.isEmpty_iff.mpr he), trimmed_trim _ _⟩, hlen⟩
    case isFalse => exact fits_of_mem_splitPieces h

theorem fits_of_mem_packSentences {sentences : List Text} {buffer x : Text}
    (h : x ∈ packSentences U lim sentences buffer) : Fits lim x := by
  induction sentences generalizing buffer with
  | nil =>
    rw [packSentences] at h
    split at h
    · cases h
    · exact fits_of_mem_appendOrSplit h
  | cons sentence sentences ih =>
    rw [packSentences] at h
    split at h
    · exact ih h
    · split at h
      · exact ih h
      · obtain h | h := List.mem_append.mp h
        · exact fits_of_mem_appendOrSplit h
        · exact ih h

theorem fits_of_mem_semanticUnits {x : Text} (h : x ∈ semanticUnits U lim text) : Fits lim x := by
  unfold semanticUnits at h
  dsimp only at h
  split at h
  case isTrue => exact fits_of_mem_appendOrSplit h
  case isFalse =>
    obtain ⟨paragraph, hparagraph, hx⟩ := List.mem_flatMap.mp h
    split at hx
    case isTrue hlen =>
      obtain rfl := List.mem_singleton.mp hx
      obtain ⟨hmem, hne⟩ := List.mem_filter.mp hparagraph
      obtain ⟨component, -, rfl⟩ := List.mem_map.mp hmem
      rw [Bool.not_eq_true', List.isEmpty_eq_false_iff] at hne
      exact ⟨⟨hne, trimmed_trim _ _⟩, hlen⟩
    case isFalse => exact fits_of_mem_packSentences hx

/-! ## Chunks -/

/-- Units packed behind a text: the chunks fit, the first one begins with that
text, and no two in a row could be joined. -/
theorem packUnits_spec {units : List Text} {current : Text} (hcurrent : Fits lim current)
    (hunits : ∀ unit ∈ units, Fits lim unit) :
    ∃ t ts, packUnits lim units current = t :: ts ∧ current <+: t ∧ (∀ x ∈ t :: ts, Fits lim x) ∧
      (t :: ts).IsChain (Apart lim) := by
  induction units generalizing current with
  | nil =>
    refine ⟨current, [], hcurrent.isChunk.nonEmpty_eq, List.prefix_refl _, fun x hx => ?_, .singleton _⟩
    exact List.mem_singleton.mp hx ▸ hcurrent
  | cons unit units ih =>
    have hunit := hunits unit List.mem_cons_self
    have hrest : ∀ unit ∈ units, Fits lim unit := fun u hu => hunits u (List.mem_cons_of_mem unit hu)
    have hne : ¬ current.isEmpty = true := mt List.isEmpty_iff.mp hcurrent.isChunk.1
    rw [packUnits, if_neg hne]
    dsimp only
    split
    case isTrue hlen =>
      have hjoined : Fits lim (current ++ ['\n', '\n'] ++ unit) :=
        ⟨⟨by simp, hcurrent.isChunk.2.append_append hcurrent.isChunk.1 _ hunit.isChunk.2 hunit.isChunk.1⟩, hlen⟩
      obtain ⟨t, ts, he, hprefix, hfits, hchain⟩ := ih hjoined hrest
      rw [List.append_assoc] at hprefix
      exact ⟨t, ts, he, (List.prefix_append _ _).trans hprefix, hfits, hchain⟩
    case isFalse hlen =>
      obtain ⟨t, ts, he, hprefix, hfits, hchain⟩ := ih hunit hrest
      have hle := hprefix.length_le
      refine ⟨current, t :: ts, ?_, List.prefix_refl _, ?_, ?_⟩
      · rw [hcurrent.isChunk.nonEmpty_eq, he]
        rfl
      · exact List.forall_mem_cons.mpr ⟨hcurrent, hfits⟩
      · refine List.isChain_cons_cons.mpr ⟨?_, hchain⟩
        simp only [Apart, List.length_append] at hlen ⊢
        omega

/-- Where a text has units, they are packed into one chunk at least. -/
theorem exists_baseChunks_of_units {unit : Text} {units : List Text} (h : semanticUnits U lim text = unit :: units) :
    ∃ t ts, baseChunks U lim text = t :: ts ∧ (∀ x ∈ t :: ts, Fits lim x) ∧ (t :: ts).IsChain (Apart lim) := by
  have hunits : ∀ x ∈ unit :: units, Fits lim x := fun x hx => fits_of_mem_semanticUnits (h ▸ hx)
  obtain ⟨hunit, hrest⟩ := List.forall_mem_cons.mp hunits
  obtain ⟨t, ts, he, -, hfits, hchain⟩ := packUnits_spec hunit hrest
  have he : packUnits lim (unit :: units) [] = t :: ts := he
  have hbase : baseChunks U lim text = t :: ts := by
    unfold baseChunks
    dsimp only
    rw [h, if_neg (by simp), he]
  exact ⟨t, ts, hbase, hfits, hchain⟩

theorem baseChunks_spec (U : Unicode) (lim : ChunkSize) (text : Text) :
    (∀ t ∈ baseChunks U lim text, Fits lim t) ∧ (baseChunks U lim text).IsChain (Apart lim) := by
  cases hunits : semanticUnits U lim text with
  | nil =>
    have hbase : baseChunks U lim text = [] := by
      unfold baseChunks
      dsimp only
      rw [hunits]
      rfl
    rw [hbase]
    exact ⟨fun t ht => (by cases ht), .nil⟩
  | cons unit units =>
    obtain ⟨t, ts, he, hfits, hchain⟩ := exists_baseChunks_of_units hunits
    rw [he]
    exact ⟨hfits, hchain⟩

/-- A text trimmed, unless nothing is left of it. -/
theorem fits_of_trimmed {merged chunk : Text} (hlen : merged.length ≤ lim.size) (h : Fits lim chunk) :
    Fits lim (if merged.trimmingCharacters.isEmpty then chunk else merged.trimmingCharacters) := by
  split
  case isTrue => exact h
  case isFalse hne =>
    exact ⟨⟨fun he => hne (List.isEmpty_iff.mpr he), trimmed_trim _ _⟩, (length_trim_le _ _).trans hlen⟩

theorem fits_mergeOverlap {lim : Limits} {previous chunk : Text} (h : Fits lim.toChunkSize chunk) :
    Fits lim.toChunkSize (mergeOverlap U lim previous chunk) := by
  refine fits_of_trimmed ?_ h
  split
  · exact length_trimToWordBoundary_le _
  · omega

theorem fits_of_mem_applyOverlap {lim : Limits} {chunks : List Text} (hchunks : ∀ t ∈ chunks, Fits lim.toChunkSize t)
    (h : t ∈ applyOverlap U lim chunks) : Fits lim.toChunkSize t := by
  obtain ⟨i, hi, rfl⟩ := List.mem_mapIdx.mp h
  have hchunk := hchunks _ (List.getElem_mem hi)
  cases i with
  | zero => exact hchunk
  | succ i => exact fits_mergeOverlap hchunk

theorem fits_of_mem_chunkSingle {chunkSize overlap : Int} (h : t ∈ chunkSingle U text chunkSize overlap) :
    Fits (.safe chunkSize) t := by
  have hbase := (baseChunks_spec U (.safe chunkSize) text).1
  unfold chunkSingle at h
  dsimp only at h
  split at h
  · exact hbase t h
  · exact fits_of_mem_applyOverlap hbase h

theorem length_le_iff_safe {n : Nat} (chunkSize : Int) :
    n ≤ (ChunkSize.safe chunkSize).size ↔ (n : Int) ≤ max 200 chunkSize := by
  simp only [ChunkSize.safe]
  omega

/-- Every chunk is a non-empty trimmed text within the limit, and without
overlap no two chunks in a row could be joined by a blank line within it. -/
theorem chunk_sizes (U : Unicode) (text : Text) (chunkSize overlap : Int) :
    (∀ t ∈ chunk U text chunkSize overlap,
      t ≠ [] ∧ Trimmed isWhitespace t ∧ (t.length : Int) ≤ max 200 chunkSize) ∧
    (chunk U text chunkSize 0).IsChain fun t u => max 200 chunkSize < ((t ++ ['\n', '\n'] ++ u).length : Int) := by
  constructor
  · intro t ht
    rw [chunk_eq] at ht
    split at ht
    · cases ht
    · have hfits := fits_of_mem_chunkSingle ht
      exact ⟨hfits.isChunk.1, hfits.isChunk.2, (length_le_iff_safe chunkSize).mp hfits.length_le⟩
  · rw [chunk_eq]
    split
    · exact .nil
    · rw [chunkSingle_zero]
      refine (baseChunks_spec U (.safe chunkSize) _).2.imp fun t u h => ?_
      exact Int.not_le.mp (mt (length_le_iff_safe chunkSize).mpr (Nat.not_le.mpr h))

end SynapsNotes.Knowledge
