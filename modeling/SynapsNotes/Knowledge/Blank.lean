import SynapsNotes.Foundation.Search
import SynapsNotes.Knowledge.Sizes

/-!
# A text that is not blank has a chunk

Trimming leaves nothing of a text exactly if it is blank, and no step of the
chunking makes a text that is not blank disappear: it has a unit
(`semanticUnits_ne_nil`), and units are packed into one chunk at least
(`exists_baseChunks_of_units`).
-/

namespace SynapsNotes.Knowledge

open Framework

variable {U : Unicode} {t : Text}

/-- Nothing but whitespace. -/
def Blank (t : Text) : Prop := ∀ c ∈ t, isWhitespace c = true

theorem trimmingCharacters_eq_nil_iff : Text.trimmingCharacters t = [] ↔ Blank t := by
  rw [Text.trimmingCharacters, trim, List.rdropWhile_eq_nil_iff]
  constructor
  · intro h
    have hnil : t.dropWhile isWhitespace = [] := by
      cases hd : t.dropWhile isWhitespace with
      | nil => rfl
      | cons a l =>
        have ha := h a (hd ▸ List.mem_cons_self)
        have hhead := head?_dropWhile (p := isWhitespace) t a (by rw [hd]; rfl)
        rw [hhead] at ha
        cases ha
    exact List.dropWhile_eq_nil_iff.mp hnil
  · intro h c hc
    exact h c ((List.dropWhile_sublist _).mem hc)

theorem not_blank_of_head {c : Char} (hc : isWhitespace c = false) : ¬ Blank (c :: t) := fun h => by
  have := h c List.mem_cons_self
  rw [hc] at this
  exact nomatch this

theorem nonEmpty_trimmingCharacters_ne_nil (h : ¬ Blank t) : nonEmpty (Text.trimmingCharacters t) ≠ [] := by
  rw [nonEmpty, if_neg]
  · exact List.cons_ne_nil _ _
  · rwa [List.isEmpty_iff, trimmingCharacters_eq_nil_iff]

/-! ## From the text to its chunks -/

theorem normalize_ne_nil (h : ¬ Blank t) : normalize t ≠ [] := by
  rw [normalize, ne_eq, trimmingCharacters_eq_nil_iff]
  intro hblank
  refine h fun c hc => ?_
  by_cases hnl : c ∈ ['\r', '\n']
  · rcases List.mem_pair.mp hnl with rfl | rfl <;> decide
  · exact hblank c (Text.mem_replacingAux hnl hc)

section Units

variable {lim : ChunkSize}

theorem splitPieces_ne_nil (ht : t ≠ []) (h : Trimmed isWhitespace t) : splitPieces U lim t ≠ [] := by
  rw [splitPieces, dif_neg ht]
  refine List.append_ne_nil_of_left_ne_nil (nonEmpty_trimmingCharacters_ne_nil ?_) _
  cases t with
  | nil => exact absurd rfl ht
  | cons c t =>
    obtain ⟨n, hn⟩ := Nat.exists_eq_add_one.mpr (pieceEnd_pos U lim.size_pos ht)
    rw [hn, List.take_succ_cons]
    exact not_blank_of_head (h.1 c rfl)

theorem appendOrSplit_ne_nil (h : ¬ Blank t) : appendOrSplit U lim t ≠ [] := by
  have hne : Text.trimmingCharacters t ≠ [] := mt trimmingCharacters_eq_nil_iff.mp h
  simp only [appendOrSplit, List.isEmpty_iff, if_neg hne]
  split
  · exact List.cons_ne_nil _ _
  · exact splitPieces_ne_nil hne (trimmed_trim _ _)

theorem semanticUnits_ne_nil (U : Unicode) (lim : ChunkSize) (h : ¬ Blank t) : semanticUnits U lim t ≠ [] := by
  simp only [semanticUnits]
  split
  · exact appendOrSplit_ne_nil h
  · rename_i hne
    exact fun hnil => hne (List.isEmpty_iff.mpr hnil)

theorem baseChunks_ne_nil (U : Unicode) (lim : ChunkSize) (h : ¬ Blank t) : baseChunks U lim t ≠ [] := by
  obtain ⟨unit, units, hunits⟩ := List.exists_cons_of_ne_nil (semanticUnits_ne_nil U lim h)
  obtain ⟨chunk, chunks, he, -⟩ := exists_baseChunks_of_units hunits
  rw [he]
  exact List.cons_ne_nil chunk chunks

end Units

/-- A text that is not blank has a chunk. -/
theorem chunkSingle_ne_nil (U : Unicode) (h : ¬ Blank t) (chunkSize overlap : Int) :
    chunkSingle U t chunkSize overlap ≠ [] := by
  have hbase := baseChunks_ne_nil U (Limits.safe chunkSize overlap).toChunkSize h
  simp only [chunkSingle]
  split
  · exact hbase
  · rw [applyOverlap, ne_eq, List.mapIdx_eq_nil_iff]
    exact hbase

end SynapsNotes.Knowledge
