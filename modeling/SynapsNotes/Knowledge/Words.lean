import SynapsNotes.Knowledge.Partition

/-!
# Words that chunks break

The words of a text are its maximal runs of word characters. Where no word is
as long as a chunk may be, a sentence that is too long is cut between words
(`readsPieces_words`), so the chunks without overlap have the words of the
text. An overlap that would begin within a word begins behind it, with the
next word; but where there is no other word it begins within the word after
all (`brokenWord`). `wholeWords_iff` says what follows.
-/

namespace SynapsNotes.Knowledge

open Framework

variable {U : Unicode} {lim : ChunkSize} {t text rest : Text} {index k : Nat}

/-- The maximal runs of word characters. -/
def words (U : Unicode) (t : Text) : List Text := runs (isWordCharacter U) t

theorem mem_words_iff {w : Text} : w ∈ words U t ↔ IsRun (isWordCharacter U) w t := mem_runs_iff

/-- The rest of a word that an overlap begins with: the overlap is to begin
within the word, and no other word follows. -/
def brokenWord (U : Unicode) (overlap : Nat) (previous : Text) : Option Text :=
  let rawStart := previous.length - overlap
  if overlap < previous.length ∧ insideWord U previous rawStart = true ∧
      ((previous.drop rawStart).dropWhile (isWordCharacter U)).all (!isWordCharacter U ·) = true then
    some ((previous.drop rawStart).takeWhile (isWordCharacter U))
  else none

theorem isWordCharacter_of_isWhitespace (U : Unicode) (c : Char) (h : isWhitespace c = true) :
    isWordCharacter U c = false := U.alphanumerics_of_whitespace c h

theorem reading_words (U : Unicode) : Reading isWhitespace (words U) := reading_runs (isWordCharacter_of_isWhitespace U)

/-! ## Cuts between words -/

/-- Words are read on both sides of a position that is not inside one. -/
theorem words_cut (h : insideWord U t k = false) : words U t = words U (t.take k) ++ words U (t.drop k) := by
  conv_lhs => rw [← List.take_append_drop k t]
  refine runs_append fun c hc d hd => ?_
  rw [List.head?_drop] at hd
  have hk := (List.getElem?_eq_some_iff.mp hd).1
  rw [List.getLast?_take] at hc
  split at hc
  · cases hc
  · have hprev := List.getElem?_eq_getElem (show k - 1 < t.length by omega)
    rw [hprev, Option.some_or, Option.mem_some] at hc
    unfold insideWord at h
    rw [hprev, Option.mem_def.mp hd, hc] at h
    exact h

theorem take_retreatWhile (p : Char → Bool) (h : index ≤ t.length) :
    t.take (retreatWhile p t 0 index) = (t.take index).rdropWhile p := by
  have hlen := congrArg List.length (List.rdropWhile_append_rtakeWhile (p := p) (l := t.take index))
  rw [List.length_append, List.length_take, Nat.min_eq_left h, List.rtakeWhile, List.length_reverse] at hlen
  have hprefix := (List.rdropWhile_prefix p (t.take index)).trans (List.take_prefix index t)
  rw [List.prefix_iff_eq_take.mp hprefix, retreatWhile, List.drop_zero]
  congr 1
  omega

/-- Before a word boundary that was looked for backwards no word character
stands, but for the beginning of the text. -/
theorem words_alignBackward (t : Text) (index : Nat) :
    words U t = words U (t.take (alignBackwardToWordBoundary U t index 0)) ++
      words U (t.drop (alignBackwardToWordBoundary U t index 0)) := by
  unfold alignBackwardToWordBoundary
  split
  · split
    case isTrue hlt =>
      split
      case isTrue =>
        conv_lhs => rw [← List.take_append_drop (retreatWhile (isWordCharacter U) t 0 index) t]
        refine runs_append fun c hc d _ => ?_
        rw [take_retreatWhile _ hlt.le] at hc
        rw [getLast?_rdropWhile _ c hc, Bool.false_and]
      case isFalse hinside => exact words_cut (Bool.eq_false_iff.mpr hinside)
    case isFalse hge =>
      rw [List.take_of_length_le (Nat.le_of_not_lt hge), List.drop_of_length_le (Nat.le_of_not_lt hge),
        (reading_words U).nil, List.append_nil]
  · rfl

theorem forall_take_of_alignBackward_eq_zero (h0 : 0 < index) (hlt : index < t.length)
    (h : alignBackwardToWordBoundary U t index 0 = 0) : ∀ c ∈ t.take index, isWordCharacter U c = true := by
  unfold alignBackwardToWordBoundary at h
  rw [if_pos h0, if_pos hlt] at h
  split at h
  case isTrue =>
    have hnil := take_retreatWhile (isWordCharacter U) hlt.le
    rw [h, List.take_zero] at hnil
    exact List.rdropWhile_eq_nil_iff.mp hnil.symm
  case isFalse => omega

/-- A text whose words are shorter than a chunk may be is cut between words. -/
theorem readsPieces_words (U : Unicode) (lim : ChunkSize) :
    ReadsPieces U lim (words U) fun w => w.length < lim.size := by
  intro rest hwords
  unfold pieceEnd
  dsimp only
  split
  case isTrue hlt =>
    rw [Nat.min_eq_left (by omega)] at hlt ⊢
    split
    case isTrue => exact words_alignBackward rest lim.size
    case isFalse hzero =>
      -- the text would begin with a word that is longer than a chunk may be
      have hall := forall_take_of_alignBackward_eq_zero lim.size_pos hlt (Nat.eq_zero_of_not_pos hzero)
      have htake : rest.takeWhile (isWordCharacter U) =
          rest.take lim.size ++ (rest.drop lim.size).takeWhile (isWordCharacter U) := by
        conv_lhs => rw [← List.take_append_drop lim.size rest, List.takeWhile_append_of_pos hall]
      have hlen := congrArg List.length htake
      rw [List.length_append, List.length_take, Nat.min_eq_left hlt.le] at hlen
      have hpos := lim.size_pos
      have hmem := takeWhile_mem_runs (p := isWordCharacter U) (l := rest) fun hnil => by
        rw [hnil, List.length_nil] at hlen
        omega
      have := hwords _ hmem
      omega
  case isFalse hge =>
    rw [Nat.min_eq_right (by omega), List.take_length, List.drop_length, (reading_words U).nil, List.append_nil]

/-! ## The words of an overlap -/

theorem drop_advanceWhile (p : Char → Bool) (t : Text) (i : Nat) :
    t.drop (advanceWhile p t i) = (t.drop i).dropWhile p := by
  have h := congrArg (List.drop ((t.drop i).takeWhile p).length)
    (List.takeWhile_append_dropWhile (p := p) (l := t.drop i))
  rw [List.drop_left] at h
  rw [advanceWhile, ← List.drop_drop, h]

theorem takeWhile_ne_nil_of_insideWord (h : insideWord U t index = true) :
    (t.drop index).takeWhile (isWordCharacter U) ≠ [] := by
  unfold insideWord at h
  split at h
  case h_1 prev current _ hcurrent =>
    obtain ⟨hlt, rfl⟩ := List.getElem?_eq_some_iff.mp hcurrent
    rw [Bool.and_eq_true] at h
    rw [List.drop_eq_getElem_cons hlt, List.takeWhile_cons_of_pos h.2]
    exact List.cons_ne_nil _ _
  case h_2 => cases h

theorem words_trimmingCharacters (t : Text) : words U t.trimmingCharacters = words U t := (reading_words U).trim t

/-- Where an overlap is to begin within a word, what is behind that word. -/
theorem drop_alignForward (hlt : index < t.length) (h0 : 0 < index) (hinside : insideWord U t index = true) :
    t.drop (alignForwardToWordBoundary U t index) =
      ((t.drop index).dropWhile (isWordCharacter U)).dropWhile fun c => !isWordCharacter U c := by
  unfold alignForwardToWordBoundary
  rw [if_pos hlt, if_pos (by simp [h0, hinside]), drop_advanceWhile, drop_advanceWhile]

/-- The words behind a word are words of the text. -/
theorem words_behind_word {rest : Text} (h : ((rest.dropWhile (isWordCharacter U)).dropWhile
    fun c => !isWordCharacter U c) ≠ []) (t : Text) :
    words U (t ++ rest) = words U (t ++ rest.takeWhile (isWordCharacter U)) ++
      words U ((rest.dropWhile (isWordCharacter U)).dropWhile fun c => !isWordCharacter U c) := by
  have hgap : ∀ c ∈ (rest.dropWhile (isWordCharacter U)).takeWhile (fun c => !isWordCharacter U c),
      (!isWordCharacter U c) = true := fun c hc => List.mem_takeWhile_imp (p := fun c => !isWordCharacter U c) hc
  have hgap0 : (rest.dropWhile (isWordCharacter U)).takeWhile (fun c => !isWordCharacter U c) ≠ [] := by
    cases hrest : rest.dropWhile (isWordCharacter U) with
    | nil => rw [hrest] at h; exact absurd rfl h
    | cons c y =>
      have hc := head?_dropWhile (p := isWordCharacter U) rest c (by rw [hrest]; rfl)
      rw [List.takeWhile_cons_of_pos (by rw [hc]; rfl)]
      exact List.cons_ne_nil _ _
  have hjoin := (reading_runs_not (isWordCharacter U)).append_sep_append (t ++ rest.takeWhile (isWordCharacter U)) hgap
    hgap0 ((rest.dropWhile (isWordCharacter U)).dropWhile fun c => !isWordCharacter U c)
  rwa [List.append_assoc, List.takeWhile_append_dropWhile, List.append_assoc, List.takeWhile_append_dropWhile] at hjoin

/-- A text that begins with a word and has no other. -/
theorem words_eq_singleton {rest : Text} (h0 : rest.takeWhile (isWordCharacter U) ≠ [])
    (h : ∀ c ∈ rest.dropWhile (isWordCharacter U), (!isWordCharacter U c) = true) :
    words U rest = [rest.takeWhile (isWordCharacter U)] := by
  have hall : ∀ c ∈ rest.takeWhile (isWordCharacter U), isWordCharacter U c = true := fun c hc =>
    List.mem_takeWhile_imp hc
  have hsep := (reading_runs_not (isWordCharacter U)).append_sep (rest.takeWhile (isWordCharacter U)) h
  rw [List.takeWhile_append_dropWhile, runs_of_all hall h0] at hsep
  exact hsep

/-- The words of an overlap that is shorter than its chunk. -/
theorem words_overlapTail_of_lt {previous : Text} {overlap : Nat} (ho : 0 < overlap) (h : overlap < previous.length) :
    words U (overlapTail U previous overlap) =
      if alignForwardToWordBoundary U previous (previous.length - overlap) < previous.length then
        words U (previous.drop (alignForwardToWordBoundary U previous (previous.length - overlap)))
      else words U (previous.drop (previous.length - overlap)) := by
  have hne : ¬ (overlap = 0 ∨ previous = []) := by
    rintro (h0 | rfl)
    · omega
    · cases h
  unfold overlapTail
  rw [if_neg hne, if_neg (Nat.not_le.mpr h)]
  dsimp only
  split <;> exact words_trimmingCharacters _

/-- The words of an overlap are words of the chunk it is of, unless it begins
with a word it breaks, which then is its only one. -/
theorem words_overlapTail {previous : Text} (hp : previous ≠ []) {overlap : Nat} (ho : 0 < overlap) :
    (brokenWord U overlap previous = none ∧
      ∀ w ∈ words U (overlapTail U previous overlap), w ∈ words U previous) ∨
    ∃ w, brokenWord U overlap previous = some w ∧ words U (overlapTail U previous overlap) = [w] := by
  by_cases hlen : overlap < previous.length
  · have hlt : previous.length - overlap < previous.length := by omega
    rw [words_overlapTail_of_lt ho hlen]
    by_cases hinside : insideWord U previous (previous.length - overlap) = true
    · have hdrop := drop_alignForward hlt (by omega) hinside
      have hfirst := takeWhile_ne_nil_of_insideWord hinside
      split
      case isTrue haligned =>
        have hafter : previous.drop (alignForwardToWordBoundary U previous (previous.length - overlap)) ≠ [] := by
          rw [ne_eq, List.drop_eq_nil_iff]
          omega
        rw [hdrop] at hafter
        have hbroken : brokenWord U overlap previous = none := by
          refine if_neg fun h => hafter ?_
          exact List.dropWhile_eq_nil_iff.mpr (List.all_eq_true.mp h.2.2)
        refine Or.inl ⟨hbroken, fun w hw => ?_⟩
        rw [hdrop] at hw
        rw [← List.take_append_drop (previous.length - overlap) previous, words_behind_word hafter]
        exact List.mem_append_right _ hw
      case isFalse haligned =>
        have hafter : ((previous.drop (previous.length - overlap)).dropWhile (isWordCharacter U)).dropWhile
            (fun c => !isWordCharacter U c) = [] := by
          rw [← hdrop, List.drop_eq_nil_iff]
          omega
        have hnone := List.dropWhile_eq_nil_iff.mp hafter
        refine Or.inr ⟨_, if_pos ⟨hlen, hinside, List.all_eq_true.mpr hnone⟩, ?_⟩
        exact words_eq_singleton hfirst hnone
    · have haligned :
          alignForwardToWordBoundary U previous (previous.length - overlap) = previous.length - overlap := by
        unfold alignForwardToWordBoundary
        rw [if_pos hlt, if_neg (by simp [hinside])]
      refine Or.inl ⟨if_neg (fun h => hinside h.2.1), fun w hw => ?_⟩
      rw [haligned, if_pos hlt] at hw
      rw [words_cut (Bool.eq_false_iff.mpr hinside)]
      exact List.mem_append_right _ hw
  · have hne : ¬ (overlap = 0 ∨ previous = []) := by
      rintro (h0 | h)
      · omega
      · exact hp h
    refine Or.inl ⟨if_neg (fun h => hlen h.1), fun w hw => ?_⟩
    rwa [overlapTail, if_neg hne, if_pos (Nat.le_of_not_lt hlen), words_trimmingCharacters] at hw

/-! ## The words of the chunks -/

/-- The words of what is kept of a chunk are words of it. -/
theorem words_keptLength {lim : Limits} (previous chunk : Text) :
    ∀ w ∈ words U (chunk.take (keptLength U lim previous chunk)), w ∈ words U chunk := by
  intro w hw
  unfold keptLength at hw
  dsimp only at hw
  split at hw
  · rwa [List.take_length] at hw
  · set k := alignBackwardToWordBoundary U chunk (lim.size - (overlapPrefix U lim previous).length) 0
    have hprefix := (List.rdropWhile_prefix isWhitespace (chunk.take k)).trans (List.take_prefix k chunk)
    have hspace : ∀ c ∈ (chunk.take k).rtakeWhile isWhitespace, isWhitespace c = true := fun c hc =>
      List.mem_rtakeWhile_imp hc
    have htrim := (reading_words U).append_sep ((chunk.take k).rdropWhile isWhitespace) hspace
    rw [List.rdropWhile_append_rtakeWhile] at htrim
    rw [← List.prefix_iff_eq_take.mp hprefix, ← htrim] at hw
    rw [words_alignBackward chunk (lim.size - (overlapPrefix U lim previous).length)]
    exact List.mem_append_left _ hw

theorem words_mergeOverlap {lim : Limits} {previous chunk : Text} (hp : IsChunk previous) (hc : IsChunk chunk)
    (ho : 0 < lim.overlap) : words U (mergeOverlap U lim previous chunk) =
      words U (overlapTail U previous lim.overlap) ++ words U (chunk.take (keptLength U lim previous chunk)) := by
  rw [mergeOverlap_eq U hp hc ho]
  split
  case isTrue h => rw [h, List.take_zero, (reading_words U).nil, List.append_nil, List.append_nil]
  case isFalse => exact (reading_words U).append_cons _ _ _ rfl

/-- No chunk but the last leaves an overlap that begins with a part of a word
which is no word of the text. -/
def OverlapsKeepWords (U : Unicode) (overlap : Nat) (text : Text) (b : List Text) : Prop :=
  ∀ i < b.length - 1, ∀ w ∈ brokenWord U overlap (b.getD i []), w ∈ words U text

instance (U : Unicode) (overlap : Nat) (text : Text) (b : List Text) : Decidable (OverlapsKeepWords U overlap text b) :=
  inferInstanceAs (Decidable (∀ i < b.length - 1, ∀ w ∈ brokenWord U overlap (b.getD i []), w ∈ words U text))

/-- The words of a chunk with its overlap are words of the text, exactly if the
overlap begins with no part of a word that is none. -/
theorem wholeWords_mergeOverlap_iff {lim : Limits} {previous chunk : Text} (hp : IsChunk previous)
    (hc : IsChunk chunk) (ho : 0 < lim.overlap) (hwp : ∀ w ∈ words U previous, w ∈ words U text)
    (hwc : ∀ w ∈ words U chunk, w ∈ words U text) :
    (∀ w ∈ words U (mergeOverlap U lim previous chunk), w ∈ words U text) ↔
      ∀ w ∈ brokenWord U lim.overlap previous, w ∈ words U text := by
  have hkept : ∀ w ∈ words U (chunk.take (keptLength U lim previous chunk)), w ∈ words U text := fun w hw =>
    hwc w (words_keptLength previous chunk w hw)
  rw [words_mergeOverlap hp hc ho, List.forall_mem_append, and_iff_left hkept]
  obtain ⟨hnone, htail⟩ | ⟨broken, hbroken, htail⟩ := words_overlapTail (U := U) hp.1 ho
  · rw [hnone]
    exact iff_of_true (fun w hw => hwp w (htail w hw)) fun w hw => by cases hw
  · rw [hbroken, htail, List.forall_mem_singleton]
    simp

theorem wholeWords_applyOverlap_iff {lim : Limits} {b : List Text} (hb : ∀ t ∈ b, IsChunk t) (ho : 0 < lim.overlap)
    (hwords : ∀ t ∈ b, ∀ w ∈ words U t, w ∈ words U text) :
    (∀ t ∈ applyOverlap U lim b, ∀ w ∈ words U t, w ∈ words U text) ↔ OverlapsKeepWords U lim.overlap text b := by
  have hmerge {i : Nat} (hi : i + 1 < b.length) :
      (∀ w ∈ words U (mergeOverlap U lim (b.getD i []) b[i + 1]), w ∈ words U text) ↔
        ∀ w ∈ brokenWord U lim.overlap (b.getD i []), w ∈ words U text := by
    have hprevious : b.getD i [] ∈ b := by
      rw [List.getD_eq_getElem b [] (Nat.lt_of_succ_lt hi)]
      exact List.getElem_mem _
    have hchunk : b[i + 1] ∈ b := List.getElem_mem hi
    exact wholeWords_mergeOverlap_iff (hb _ hprevious) (hb _ hchunk) ho (hwords _ hprevious) (hwords _ hchunk)
  constructor
  · intro h i hlast
    have hi : i + 1 < b.length := by omega
    refine (hmerge hi).mp (h _ ?_)
    exact List.mem_mapIdx.mpr ⟨i + 1, hi, rfl⟩
  · intro h t ht
    obtain ⟨i, hi, rfl⟩ := List.mem_mapIdx.mp ht
    cases i with
    | zero => exact hwords _ (List.getElem_mem hi)
    | succ i => exact (hmerge hi).mpr (h i (by omega))

/-- For every text, chunk size and positive overlap, where no word is longer
than the overlap: the words of the chunks are words of the text if and only if
no overlap begins with a part of a word that is none. -/
theorem wholeWords_iff (U : Unicode) (text : Text) (chunkSize : Int) {overlap : Int} (ho : 0 < overlap)
    (hshort : ∀ w ∈ words U text, w.length ≤ (Limits.safe chunkSize overlap).overlap) :
    (∀ t ∈ chunk U text chunkSize overlap, ∀ w ∈ words U t, w ∈ words U text) ↔
      OverlapsKeepWords U (Limits.safe chunkSize overlap).overlap text (chunk U text chunkSize 0) := by
  have hlim := (Limits.safe chunkSize overlap).overlap_lt
  have hread := reading_chunk (reading_words U) (readsPieces_words U (.safe chunkSize)) fun w hw =>
    (hshort w hw).trans_lt hlim
  rw [chunk_overlap U text chunkSize ho]
  refine wholeWords_applyOverlap_iff (fun t ht => isChunk_of_mem_chunk_zero U ht) (safe_overlap_pos chunkSize ho)
    fun t ht w hw => ?_
  rw [← hread]
  exact List.mem_flatMap_of_mem ht hw

/-- A paragraph of thirty words and the given one, and a paragraph of twenty. -/
def endingWith (last : String) : Text :=
  (List.replicate 30 "word ".toList).flatten ++ last.toList ++ "\n\n".toList ++
    (List.replicate 20 "text ".toList).flatten

/-- The overlap begins behind the word it would begin within. -/
theorem wholeWords_endingWith_word :
    (∀ w ∈ words .ascii (endingWith "hello, all!"), w.length ≤ (Limits.safe 200 8).overlap) ∧
      ∀ t ∈ chunk .ascii (endingWith "hello, all!") 200 8, ∀ w ∈ words .ascii t,
        w ∈ words .ascii (endingWith "hello, all!") := by
  have hshort : ∀ w ∈ words .ascii (endingWith "hello, all!"), w.length ≤ (Limits.safe 200 8).overlap := by
    decide +kernel
  exact ⟨hshort, (wholeWords_iff .ascii (endingWith "hello, all!") 200 (by decide) hshort).mpr (by decide +kernel)⟩

/-- Nothing but punctuation follows the word that the overlap would begin
within: it begins with a part of it. -/
theorem broken_endingWith_punctuation :
    (∀ w ∈ words .ascii (endingWith "hello!!!!!!"), w.length ≤ (Limits.safe 200 8).overlap) ∧
      ¬ ∀ t ∈ chunk .ascii (endingWith "hello!!!!!!") 200 8, ∀ w ∈ words .ascii t,
        w ∈ words .ascii (endingWith "hello!!!!!!") := by
  decide +kernel

end SynapsNotes.Knowledge
