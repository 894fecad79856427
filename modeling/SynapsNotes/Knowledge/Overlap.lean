import SynapsNotes.Knowledge.Chunking
import Mathlib.Data.List.GetD

/-!
# What the overlap costs

A chunk with its overlap in front is cut back to the maximal length, at its
end. What is cut off is not lost if it is part of the overlap of the next
chunk; the last chunk has no next one. `lossless_iff` says exactly when no
text is lost.
-/

namespace SynapsNotes.Knowledge

open Framework

variable (U : Unicode)

/-! ## Lossless overlapping -/

/-- What is put in front of chunk `i`. -/
def prefixAt (lim : Limits) (b : List Text) : Nat → Text
  | 0 => []
  | i + 1 => overlapPrefix U lim (b.getD i [])

/-- Position `j` of chunk `i` of `b` is reproduced by the chunks `e`: in chunk
`i` after its overlap, or as position `k` of the overlap of chunk `i + 1`,
which is the end of chunk `i`. -/
def Reproduced (lim : Limits) (b e : List Text) (i j : Nat) : Prop :=
  (e.getD i [])[(prefixAt U lim b i).length + j]? = (b.getD i [])[j]? ∨
    ∃ k, i + 1 < e.length ∧ k < (overlapTail U (b.getD i []) lim.overlap).length ∧
      (b.getD i []).length + k = j + (overlapTail U (b.getD i []) lim.overlap).length ∧
      (e.getD (i + 1) [])[k]? = (b.getD i [])[j]?

/-- The chunks `e`, which are the chunks `b` with their overlaps, reproduce
every position of them and end as they end. -/
structure Lossless (lim : Limits) (b e : List Text) : Prop where
  length : e.length = b.length
  reproduced : ∀ i < b.length, ∀ j < (b.getD i []).length, Reproduced U lim b e i j
  last : (e.getD (b.length - 1) []).getLast? = (b.getD (b.length - 1) []).getLast?

/-- How much of a chunk stays behind the overlap of the one before it: all of
it where there is room, and else up to the last word boundary in the room,
without whitespace at the end. -/
def keptLength (lim : Limits) (previous chunk : Text) : Nat :=
  let room := lim.size - (overlapPrefix U lim previous).length
  if chunk.length ≤ room then chunk.length
  else ((chunk.take (alignBackwardToWordBoundary U chunk room 0)).rdropWhile isWhitespace).length

/-- What is cut off a chunk is in the overlap of the next one, and nothing is
cut off the last chunk. -/
def TailsCover (lim : Limits) (b : List Text) : Prop :=
  ∀ i < b.length - 1, (b.getD (i + 1) []).length ≤
    keptLength U lim (b.getD i []) (b.getD (i + 1) []) +
      if i + 2 < b.length then (overlapTail U (b.getD (i + 1) []) lim.overlap).length else 0

instance (lim : Limits) (b : List Text) : Decidable (TailsCover U lim b) :=
  inferInstanceAs (Decidable (∀ i < b.length - 1, (b.getD (i + 1) []).length ≤
    keptLength U lim (b.getD i []) (b.getD (i + 1) []) +
      if i + 2 < b.length then (overlapTail U (b.getD (i + 1) []) lim.overlap).length else 0))

/-! ## The overlap of a chunk -/

/-- A chunk as the service makes them. -/
def IsChunk (t : Text) : Prop := t ≠ [] ∧ Trimmed isWhitespace t

theorem le_alignForwardToWordBoundary {text : Text} {index : Nat} (h : index < text.length) :
    index ≤ alignForwardToWordBoundary U text index := by
  unfold alignForwardToWordBoundary advanceWhile
  rw [if_pos h]
  split <;> omega

/-- The overlap that a chunk leaves is a chunk at its end, no longer than
asked for. -/
theorem overlapTail_spec {text : Text} (ht : IsChunk text) {overlap : Nat} (ho : 0 < overlap) :
    overlapTail U text overlap <:+ text ∧ IsChunk (overlapTail U text overlap) ∧
      (overlapTail U text overlap).length ≤ overlap := by
  obtain ⟨hne, htrim⟩ := ht
  have hdrop : ∀ k, text.length - overlap ≤ k → k < text.length →
      Text.trimmingCharacters (text.drop k) <:+ text ∧ IsChunk (Text.trimmingCharacters (text.drop k)) ∧
        (Text.trimmingCharacters (text.drop k)).length ≤ overlap := by
    intro k hk hlt
    obtain ⟨hsuffix, hne⟩ := trim_drop htrim hlt
    have hlen := hsuffix.length_le
    rw [List.length_drop] at hlen
    refine ⟨hsuffix.trans (List.drop_suffix k text), ⟨hne, trimmed_trim _ _⟩, ?_⟩
    show (trim isWhitespace (text.drop k)).length ≤ overlap
    omega
  unfold overlapTail
  rw [if_neg (by rintro (h | h) <;> [omega; exact hne h])]
  have hpos := List.length_pos_of_ne_nil hne
  split
  · rw [Text.trimmingCharacters, htrim.trim_eq]
    exact ⟨List.suffix_refl _, ⟨hne, htrim⟩, ‹_›⟩
  · dsimp only
    split
    · exact hdrop _ (le_alignForwardToWordBoundary U (by omega)) ‹_›
    · exact hdrop _ (le_refl _) (by omega)

theorem overlapPrefix_eq {lim : Limits} {previous : Text} (hp : IsChunk previous) (ho : 0 < lim.overlap) :
    overlapPrefix U lim previous = overlapTail U previous lim.overlap ++ ['\n'] := by
  have hne := (overlapTail_spec U hp ho).2.1.1
  simp only [overlapPrefix]
  rw [if_neg (by rwa [List.isEmpty_iff])]

theorem isWordCharacter_newline : isWordCharacter U '\n' = false :=
  U.alphanumerics_of_whitespace '\n' (by decide)

theorem insideWord_append (before chunk : Text) {room : Nat} (hr : 0 < room) :
    insideWord U (before ++ chunk) (before.length + room) = insideWord U chunk room := by
  unfold insideWord
  rw [List.getElem?_append_right (by omega), List.getElem?_append_right (by omega),
    show before.length + room - 1 - before.length = room - 1 by omega,
    show before.length + room - before.length = room by omega]

/-- The word boundary before a position behind a newline. -/
theorem alignBackward_append (tail : Text) {chunk : Text} {room : Nat} (hr : room < chunk.length) :
    alignBackwardToWordBoundary U (tail ++ ['\n'] ++ chunk) ((tail ++ ['\n']).length + room) 0 =
      (tail ++ ['\n']).length + alignBackwardToWordBoundary U chunk room 0 := by
  have hlen : (tail ++ ['\n']).length = tail.length + 1 := List.length_append
  have hlt : (tail ++ ['\n']).length + room < (tail ++ ['\n'] ++ chunk).length := by
    rw [@List.length_append _ (tail ++ ['\n']) chunk]
    omega
  rcases Nat.eq_zero_or_pos room with rfl | hpos
  · have hinside : insideWord U (tail ++ ['\n'] ++ chunk) ((tail ++ ['\n']).length + 0) = false := by
      unfold insideWord
      rw [List.getElem?_append_left (by omega), List.getElem?_append_right (by omega),
        show (tail ++ ['\n']).length + 0 - 1 - tail.length = 0 by omega]
      split
      · rename_i h _
        cases h
        rw [isWordCharacter_newline, Bool.false_and]
      · rfl
    unfold alignBackwardToWordBoundary
    rw [if_pos (by omega), if_pos hlt, hinside, if_neg Bool.false_ne_true, if_neg (Nat.lt_irrefl 0)]
  · unfold alignBackwardToWordBoundary
    rw [if_pos (by omega), if_pos hlt, insideWord_append U _ chunk hpos, if_pos hpos, if_pos hr]
    split
    · -- going back stops at the newline at the latest
      have hback : (((tail ++ ['\n'] ++ chunk).take ((tail ++ ['\n']).length + room)).reverse.takeWhile
          (isWordCharacter U)).length = ((chunk.take room).reverse.takeWhile (isWordCharacter U)).length := by
        rw [List.take_length_add_append, List.reverse_append, List.takeWhile_append]
        split
        · rename_i hall
          rw [List.reverse_append, List.reverse_singleton, List.singleton_append,
            List.takeWhile_cons_of_neg (by rw [isWordCharacter_newline]; exact Bool.false_ne_true),
            List.append_nil, hall]
        · rfl
      have hle : ((chunk.take room).reverse.takeWhile (isWordCharacter U)).length ≤ room := by
        refine (List.takeWhile_sublist _).length_le.trans ?_
        rw [List.length_reverse, List.length_take]
        omega
      unfold retreatWhile
      rw [List.drop_zero, List.drop_zero, hback]
      omega
    · rfl

/-! ## A chunk with its overlap -/

theorem rdropWhile_newline_cons (t : Text) : ('\n' :: t).rdropWhile isWhitespace =
    if t.rdropWhile isWhitespace = [] then [] else '\n' :: t.rdropWhile isWhitespace := by
  rw [← List.singleton_append, rdropWhile_append]
  split
  · decide
  · rfl

/-- Trimming behind an overlap and its newline. -/
theorem trimmingCharacters_overlap {tail : Text} (ht : IsChunk tail) (x : Text) :
    Text.trimmingCharacters (tail ++ ['\n'] ++ x) =
      tail ++ if x.rdropWhile isWhitespace = [] then [] else '\n' :: x.rdropWhile isWhitespace := by
  rw [List.append_assoc, List.singleton_append, ← rdropWhile_newline_cons]
  exact trim_append ht.2 ht.1 _

/-- A beginning of a chunk behind a newline, by its length. -/
theorem newline_cons_eq_take {x chunk : Text} (h : x <+: chunk) :
    (if x = [] then [] else '\n' :: x) = if x.length = 0 then [] else '\n' :: chunk.take x.length := by
  rw [← List.prefix_iff_eq_take.mp h]
  exact if_congr List.length_eq_zero_iff.symm rfl rfl

/-- A chunk with its overlap: the overlap, and what is kept of the chunk
behind a newline. -/
theorem mergeOverlap_eq {lim : Limits} {previous chunk : Text} (hp : IsChunk previous) (hc : IsChunk chunk)
    (ho : 0 < lim.overlap) : mergeOverlap U lim previous chunk =
      overlapTail U previous lim.overlap ++
        if keptLength U lim previous chunk = 0 then []
        else '\n' :: chunk.take (keptLength U lim previous chunk) := by
  obtain ⟨-, htail, htlen⟩ := overlapTail_spec U hp ho
  have hclen := List.length_pos_of_ne_nil hc.1
  have hlim := lim.overlap_lt
  unfold mergeOverlap keptLength
  rw [overlapPrefix_eq U hp ho]
  generalize overlapTail U previous lim.overlap = tail at *
  have hplen : (tail ++ ['\n']).length = tail.length + 1 := List.length_append
  -- what is left after the trimming is never empty
  have hfinal : ∀ merged kept : Text, Text.trimmingCharacters merged = tail ++ kept →
      (if (Text.trimmingCharacters merged).isEmpty then chunk else Text.trimmingCharacters merged) =
        tail ++ kept := fun merged kept h => by
    rw [h, if_neg]
    rw [List.isEmpty_iff, List.append_eq_nil_iff]
    exact fun he => htail.1 he.1
  refine hfinal _ _ ?_
  have hmlen : (tail ++ ['\n'] ++ chunk).length = tail.length + 1 + chunk.length := by
    rw [← hplen, List.length_append]
  dsimp only
  by_cases hfit : chunk.length ≤ lim.size - (tail ++ ['\n']).length
  · rw [if_neg (by omega), if_pos hfit, trimmingCharacters_overlap htail, rdropWhile_eq_self_of_last hc.2.2,
      newline_cons_eq_take (List.prefix_refl chunk)]
  · rw [if_pos (by omega), if_neg hfit]
    obtain ⟨room, hroom⟩ : ∃ room, lim.size = (tail ++ ['\n']).length + room :=
      ⟨lim.size - (tail ++ ['\n']).length, by omega⟩
    rw [hroom, Nat.add_sub_cancel_left] at hfit ⊢
    simp only [trimToWordBoundary]
    rw [if_neg (by omega), alignBackward_append U tail (by omega), if_pos (by omega), List.take_length_add_append,
      trimmingCharacters_overlap htail]
    have hprefix : (chunk.take (alignBackwardToWordBoundary U chunk room 0)).rdropWhile isWhitespace <+: chunk :=
      (List.rdropWhile_prefix _ _).trans (List.take_prefix _ _)
    rw [newline_cons_eq_take hprefix]

/-! ## Positions -/

section Positions

variable {U} {lim : Limits} {b : List Text}

theorem isChunk_getD (hb : ∀ t ∈ b, IsChunk t) {i : Nat} (hi : i < b.length) : IsChunk (b.getD i []) := by
  rw [List.getD_eq_getElem _ _ hi]
  exact hb _ (List.getElem_mem hi)

theorem getD_applyOverlap_succ {i : Nat} (hi : i + 1 < b.length) :
    (applyOverlap U lim b).getD (i + 1) [] = mergeOverlap U lim (b.getD i []) (b.getD (i + 1) []) := by
  have hlen : i + 1 < (applyOverlap U lim b).length := by rwa [applyOverlap, List.length_mapIdx]
  rw [List.getD_eq_getElem _ _ hlen, List.getD_eq_getElem _ _ hi]
  simp only [applyOverlap, List.getElem_mapIdx]

theorem getD_applyOverlap_zero (b : List Text) : (applyOverlap U lim b).getD 0 [] = b.getD 0 [] := by
  cases b with
  | nil => rfl
  | cons t b => simp [applyOverlap, List.mapIdx_cons]

/-- What follows the overlap in a chunk is the part that is kept. -/
theorem getElem?_mergeOverlap_chunk {previous chunk : Text} (hp : IsChunk previous) (hc : IsChunk chunk)
    (ho : 0 < lim.overlap) (j : Nat) :
    (mergeOverlap U lim previous chunk)[(overlapPrefix U lim previous).length + j]? =
      if j < keptLength U lim previous chunk then chunk[j]? else none := by
  rw [mergeOverlap_eq U hp hc ho, overlapPrefix_eq U hp ho, List.length_append, List.length_singleton,
    List.getElem?_append_right (by omega), show ∀ n : Nat, n + 1 + j - n = j + 1 by omega]
  split
  · rw [if_neg (by omega)]
    rfl
  · rw [List.getElem?_cons_succ, List.getElem?_take]

/-- What is before it is the overlap, the end of the chunk before. -/
theorem getElem?_mergeOverlap_tail {previous chunk : Text} (hp : IsChunk previous) (hc : IsChunk chunk)
    (ho : 0 < lim.overlap) {j k : Nat} (hk : k < (overlapTail U previous lim.overlap).length)
    (hj : previous.length + k = j + (overlapTail U previous lim.overlap).length) :
    (mergeOverlap U lim previous chunk)[k]? = previous[j]? := by
  obtain ⟨t, ht⟩ := (overlapTail_spec U hp ho).1
  have hlen := congrArg List.length ht
  rw [List.length_append] at hlen
  rw [mergeOverlap_eq U hp hc ho, List.getElem?_append_left hk]
  have hj' : j = t.length + k := by omega
  conv_rhs => rw [← ht, hj', List.getElem?_append_right (by omega), Nat.add_sub_cancel_left]

theorem keptLength_le (previous chunk : Text) : keptLength U lim previous chunk ≤ chunk.length := by
  simp only [keptLength]
  split
  · exact le_refl _
  · exact ((List.rdropWhile_prefix _ _).trans (List.take_prefix _ _)).length_le

/-- Where the tails cover what is cut off, every position is reproduced. -/
theorem reproduced_of_tailsCover (hb : ∀ t ∈ b, IsChunk t) (ho : 0 < lim.overlap) (hcover : TailsCover U lim b)
    {i j : Nat} (hi : i < b.length) (hj : j < (b.getD i []).length) :
    Reproduced U lim b (applyOverlap U lim b) i j := by
  have hchunk := fun k => isChunk_getD (i := k) hb
  cases i with
  | zero =>
    left
    rw [getD_applyOverlap_zero, prefixAt, List.length_nil, Nat.zero_add]
  | succ i =>
    have hkept := hcover i (by omega)
    by_cases hjk : j < keptLength U lim (b.getD i []) (b.getD (i + 1) [])
    · left
      rw [getD_applyOverlap_succ hi, prefixAt,
        getElem?_mergeOverlap_chunk (hchunk i (by omega)) (hchunk (i + 1) hi) ho, if_pos hjk]
    · right
      by_cases hnext : i + 2 < b.length
      · rw [if_pos hnext] at hkept
        have hk : (b.getD (i + 1) []).length + (j + (overlapTail U (b.getD (i + 1) []) lim.overlap).length -
            (b.getD (i + 1) []).length) = j + (overlapTail U (b.getD (i + 1) []) lim.overlap).length := by
          omega
        refine ⟨_, ?_, by omega, hk, ?_⟩
        · rw [applyOverlap, List.length_mapIdx]
          exact hnext
        · rw [getD_applyOverlap_succ hnext]
          exact getElem?_mergeOverlap_tail (hchunk (i + 1) hi) (hchunk (i + 2) hnext) ho (by omega) hk
      · rw [if_neg hnext] at hkept
        omega

/-- Where a tail is too short, the first position cut off is lost. -/
theorem tailsCover_of_reproduced (hb : ∀ t ∈ b, IsChunk t) (ho : 0 < lim.overlap)
    (hrep : ∀ i < b.length, ∀ j < (b.getD i []).length, Reproduced U lim b (applyOverlap U lim b) i j) :
    TailsCover U lim b := by
  intro i hlast
  have hi : i + 1 < b.length := by omega
  have hchunk := fun k => isChunk_getD (i := k) hb
  by_contra hlost
  have hlt : keptLength U lim (b.getD i []) (b.getD (i + 1) []) < (b.getD (i + 1) []).length := by omega
  rcases hrep (i + 1) hi _ hlt with h | ⟨k, hnext, hk, hpos, -⟩
  · rw [getD_applyOverlap_succ hi, prefixAt,
      getElem?_mergeOverlap_chunk (hchunk i (by omega)) (hchunk (i + 1) hi) ho, if_neg (Nat.lt_irrefl _)] at h
    rw [List.getElem?_eq_getElem hlt] at h
    exact nomatch h
  · rw [applyOverlap, List.length_mapIdx] at hnext
    rw [if_pos hnext] at hlost
    omega

/-- The last chunk ends as it did where nothing is cut off it. -/
theorem getLast?_of_tailsCover (hb : ∀ t ∈ b, IsChunk t) (ho : 0 < lim.overlap) (hcover : TailsCover U lim b) :
    ((applyOverlap U lim b).getD (b.length - 1) []).getLast? = (b.getD (b.length - 1) []).getLast? := by
  rcases hn : b.length - 1 with _ | i
  · rw [getD_applyOverlap_zero]
  · have hi : i + 1 < b.length := by omega
    have hp := isChunk_getD hb (show i < b.length by omega)
    have hc := isChunk_getD hb hi
    have hkept := hcover i (by omega)
    rw [if_neg (by omega)] at hkept
    have hpos := List.length_pos_of_ne_nil hc.1
    have hall := le_antisymm (keptLength_le (b.getD i []) (b.getD (i + 1) [])) hkept
    rw [getD_applyOverlap_succ hi, mergeOverlap_eq U hp hc ho, if_neg (by omega), hall, List.take_length,
      List.getLast?_append_of_ne_nil _ (List.cons_ne_nil _ _), List.getLast?_cons_of_ne_nil hc.1]

end Positions

/-- For chunks and a positive overlap: no text is lost if and only if the
tails cover what is cut off. -/
theorem lossless_applyOverlap_iff {lim : Limits} {b : List Text} (hb : ∀ t ∈ b, IsChunk t)
    (ho : 0 < lim.overlap) : Lossless U lim b (applyOverlap U lim b) ↔ TailsCover U lim b :=
  ⟨fun h => tailsCover_of_reproduced hb ho h.reproduced, fun h =>
    { length := List.length_mapIdx
      reproduced := fun _ hi _ hj => reproduced_of_tailsCover hb ho h hi hj
      last := getLast?_of_tailsCover hb ho h }⟩

/-! ## The service -/

theorem isChunk_of_mem_nonEmpty {t x : Text} (h : x ∈ nonEmpty t.trimmingCharacters) : IsChunk x := by
  unfold nonEmpty at h
  split at h
  · exact nomatch h
  · rename_i hne
    obtain rfl := List.mem_singleton.mp h
    exact ⟨fun he => hne (List.isEmpty_iff.mpr he), trimmed_trim _ _⟩

theorem isChunk_of_mem_packUnits {lim : ChunkSize} {units : List Text} {current t : Text}
    (h : t ∈ packUnits lim units current) : IsChunk t := by
  induction units generalizing current with
  | nil => exact isChunk_of_mem_nonEmpty h
  | cons unit units ih =>
    simp only [packUnits] at h
    split at h
    · exact ih h
    · split at h
      · exact ih h
      · rcases List.mem_append.mp h with h | h
        · exact isChunk_of_mem_nonEmpty h
        · exact ih h

theorem applyOverlap_of_length_lt_two {lim : Limits} {b : List Text} (h : b.length < 2) : applyOverlap U lim b = b := by
  rcases b with _ | ⟨t, _ | ⟨t', b⟩⟩
  · rfl
  · rfl
  · exact absurd h (by simp)

theorem isChunk_of_mem_baseChunks {lim : ChunkSize} {text t : Text} (h : t ∈ baseChunks U lim text) : IsChunk t := by
  simp only [baseChunks] at h
  split at h
  · exact nomatch h
  · exact isChunk_of_mem_packUnits h

/-- The chunks without overlap are the base chunks. -/
theorem chunkSingle_zero (text : Text) (chunkSize : Int) :
    chunkSingle U text chunkSize 0 = baseChunks U (.safe chunkSize) text := by
  have hzero : (Limits.safe chunkSize 0).overlap = 0 := by
    simp only [Limits.safe]
    omega
  exact if_pos (Or.inl hzero)

theorem safe_overlap_pos (chunkSize : Int) {overlap : Int} (ho : 0 < overlap) :
    0 < (Limits.safe chunkSize overlap).overlap := by
  simp only [Limits.safe]
  omega

/-- The chunks with an overlap are the base chunks, overlapped. -/
theorem chunkSingle_overlap (text : Text) (chunkSize : Int) {overlap : Int} (ho : 0 < overlap) :
    chunkSingle U text chunkSize overlap =
      applyOverlap U (.safe chunkSize overlap) (baseChunks U (.safe chunkSize) text) := by
  have hpos := safe_overlap_pos chunkSize ho
  by_cases h : (baseChunks U (.safe chunkSize) text).length < 2
  · rw [applyOverlap_of_length_lt_two U h]
    exact if_pos (Or.inr h)
  · exact if_neg (by rintro (h' | h') <;> [omega; exact h h'])

theorem chunk_eq (text : Text) (chunkSize overlap : Int) : chunk U text chunkSize overlap =
    if (normalize text).isEmpty then [] else chunkSingle U (normalize text) chunkSize overlap := by
  simp only [chunk, chunkWithMetadata]
  split
  · rfl
  · rw [List.map_map]
    exact List.map_id _

theorem isChunk_of_mem_chunk_zero {text t : Text} {chunkSize : Int} (h : t ∈ chunk U text chunkSize 0) :
    IsChunk t := by
  rw [chunk_eq] at h
  split at h
  · exact nomatch h
  · rw [chunkSingle_zero] at h
    exact isChunk_of_mem_baseChunks U h

/-- The chunks of a text with an overlap are those without, overlapped. -/
theorem chunk_overlap (text : Text) (chunkSize : Int) {overlap : Int} (ho : 0 < overlap) :
    chunk U text chunkSize overlap = applyOverlap U (.safe chunkSize overlap) (chunk U text chunkSize 0) := by
  rw [chunk_eq, chunk_eq, chunkSingle_overlap U _ _ ho, chunkSingle_zero]
  split <;> rfl

/-- For every text, chunk size and positive overlap: the overlapped chunks
lose no text if and only if the tails cover what is cut off. -/
theorem lossless_iff (text : Text) (chunkSize : Int) {overlap : Int} (ho : 0 < overlap) :
    Lossless U (.safe chunkSize overlap) (chunk U text chunkSize 0) (chunk U text chunkSize overlap) ↔
      TailsCover U (.safe chunkSize overlap) (chunk U text chunkSize 0) := by
  rw [chunk_overlap U text chunkSize ho]
  exact lossless_applyOverlap_iff U (fun _ ht => isChunk_of_mem_chunk_zero U ht) (safe_overlap_pos chunkSize ho)

/-- Two paragraphs, of `n` and of `m` words of four letters. -/
def twoParagraphs (n m : Nat) : Text :=
  (List.replicate n "word ".toList).flatten ++ "\n\n".toList ++ (List.replicate m "text ".toList).flatten

/-- The second paragraph and the overlap fit into a chunk. -/
theorem lossless_twoParagraphs :
    Lossless .ascii (.safe 200 50) (chunk .ascii (twoParagraphs 30 20) 200 0)
      (chunk .ascii (twoParagraphs 30 20) 200 50) :=
  (lossless_iff .ascii (twoParagraphs 30 20) 200 (by decide)).mpr (by decide +kernel)

/-- The second paragraph alone fits into a chunk, with the overlap it does
not: the end of the text is lost. -/
theorem not_lossless_twoParagraphs :
    ¬ Lossless .ascii (.safe 200 50) (chunk .ascii (twoParagraphs 30 38) 200 0)
      (chunk .ascii (twoParagraphs 30 38) 200 50) := by
  intro h
  have hlost : ¬ Reproduced .ascii (.safe 200 50) (chunk .ascii (twoParagraphs 30 38) 200 0)
      (chunk .ascii (twoParagraphs 30 38) 200 50) 1 188 := by
    rintro (h | ⟨k, hnext, -⟩)
    · revert h
      decide +kernel
    · revert hnext
      have hlen : (chunk .ascii (twoParagraphs 30 38) 200 50).length = 2 := by decide +kernel
      omega
  exact hlost (h.reproduced 1 (by decide +kernel) 188 (by decide +kernel))

end SynapsNotes.Knowledge
