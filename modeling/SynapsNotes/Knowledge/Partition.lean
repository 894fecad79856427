import SynapsNotes.Foundation.Search
import SynapsNotes.Knowledge.Overlap
import SynapsNotes.Knowledge.Sentences

/-!
# What is read of the chunks

Text is cut into paragraphs and sentences where there is whitespace, and put
together again with whitespace between the parts; only a sentence that is too
long is cut at other places (`pieceEnd`). So whatever a `Reading` takes from
a text between its whitespace, it takes from the chunks, one after the other,
as long as it reads a long sentence piece by piece (`reading_chunk`). The
characters that are no whitespace are read so (`partition_chunk`).
-/

namespace SynapsNotes.Knowledge

open Framework

variable {U : Unicode} {lim : ChunkSize} {γ : Type*} {f : Text → List γ}

/-- Where all that is read of a text satisfies `Q`, the text is read piece by
piece when it is cut because it is too long. -/
def ReadsPieces (U : Unicode) (lim : ChunkSize) (f : Text → List γ) (Q : γ → Prop) : Prop :=
  ∀ rest, (∀ x ∈ f rest, Q x) →
    f rest = f (rest.take (pieceEnd U lim.size rest)) ++ f (rest.drop (pieceEnd U lim.size rest))

theorem isWhitespace_of_mem_newlines {c : Char} (h : c ∈ ['\n', '\n']) : isWhitespace c = true := by
  obtain rfl := by simpa using h
  rfl

section Reading

variable (hf : Reading isWhitespace f)

include hf

theorem reading_nonEmpty (t : Text) : (nonEmpty t).flatMap f = f t := by
  unfold nonEmpty
  split
  case isTrue h => rw [List.isEmpty_iff.mp h, List.flatMap_nil, hf.nil]
  case isFalse => rw [List.flatMap_singleton]

/-- Cutting at positions that whitespace follows. -/
theorem reading_cutAt {text : Text} {cuts : List Nat} {start : Nat} (hfrom : ∀ i ∈ cuts, start ≤ i)
    (hsorted : cuts.Pairwise (· < ·)) (hspace : ∀ i ∈ cuts, text[i]?.any isWhitespace = true) :
    (cutAt text cuts start).flatMap f = f (text.drop start) := by
  induction cuts generalizing start with
  | nil => rw [cutAt, reading_nonEmpty hf, Text.trimmingCharacters, hf.trim]
  | cons i cuts ih =>
    obtain ⟨hafter, hsorted⟩ := List.pairwise_cons.mp hsorted
    obtain ⟨c, hc, hcspace⟩ := (Option.any_eq_true _ _).mp (hspace i List.mem_cons_self)
    obtain ⟨hi, rfl⟩ := List.getElem?_eq_some_iff.mp hc
    have hrest := ih (fun j hj => (hafter j hj).le) hsorted fun j hj => hspace j (List.mem_cons_of_mem i hj)
    have hslice := drop_eq_slice_append (t := text) (hfrom i List.mem_cons_self)
    rw [cutAt, List.flatMap_append, reading_nonEmpty hf, Text.trimmingCharacters, hf.trim, hrest, hslice,
      List.drop_eq_getElem_cons hi, hf.append_cons _ _ _ hcspace, hf.cons hcspace]

/-- Pieces trimmed, and the empty ones left out. -/
theorem reading_trimmed (pieces : List Text) :
    ((pieces.map Text.trimmingCharacters).filter (!·.isEmpty)).flatMap f = pieces.flatMap f := by
  induction pieces with
  | nil => rfl
  | cons piece pieces ih =>
    have htrim : f piece.trimmingCharacters = f piece := hf.trim piece
    rw [List.map_cons, List.filter_cons, List.flatMap_cons, ← ih, ← htrim]
    split
    · rw [List.flatMap_cons]
    case isFalse h =>
      rw [Bool.not_eq_true, Bool.not_eq_false', List.isEmpty_iff] at h
      rw [h, hf.nil, List.nil_append]

theorem reading_splitIntoSentences (text : Text) : (splitIntoSentences U text).flatMap f = f text := by
  have hcut : (cutAt text (sentenceEnds U text) 0).flatMap f = f text := by
    refine reading_cutAt hf (fun _ _ => Nat.zero_le _) (List.pairwise_lt_range.filter _) fun i hi => ?_
    have hends := (List.mem_filter.mp hi).2
    simp only [isBoundary, Bool.and_eq_true] at hends
    obtain ⟨c, hc, hspace⟩ := (Option.any_eq_true _ _).mp hends.1.2
    rw [hc]
    exact isWhitespace_of_isRegexSpace hspace
  rw [splitIntoSentences_eq, sentencesAt]
  split
  · rw [List.flatMap_singleton]
  · exact hcut

variable {Q : γ → Prop} (hpieces : ReadsPieces U lim f Q)

include hpieces

theorem reading_splitPieces {rest : Text} (hQ : ∀ x ∈ f rest, Q x) : (splitPieces U lim rest).flatMap f = f rest := by
  induction rest using splitPieces.induct U lim with
  | case1 => rw [splitPieces, dif_pos rfl, List.flatMap_nil, hf.nil]
  | case2 rest h ih =>
    have hcut := hpieces rest hQ
    have hdrop : ∀ x ∈ f (rest.drop (pieceEnd U lim.size rest)), Q x := fun x hx =>
      hQ x (by rw [hcut]; exact List.mem_append_right _ hx)
    rw [splitPieces, dif_neg h, List.flatMap_append, reading_nonEmpty hf, Text.trimmingCharacters, hf.trim, ih hdrop,
      ← hcut]

theorem reading_appendOrSplit {t : Text} (hQ : ∀ x ∈ f t, Q x) : (appendOrSplit U lim t).flatMap f = f t := by
  have htrim : f t.trimmingCharacters = f t := hf.trim t
  unfold appendOrSplit
  dsimp only
  split
  case isTrue h => rw [← htrim, List.isEmpty_iff.mp h, hf.nil, List.flatMap_nil]
  case isFalse =>
    split
    · rw [List.flatMap_singleton, htrim]
    · rw [reading_splitPieces hf hpieces (by rwa [htrim]), htrim]

theorem reading_packSentences {sentences : List Text} {buffer : Text}
    (hQ : ∀ x ∈ f buffer ++ sentences.flatMap f, Q x) :
    (packSentences U lim sentences buffer).flatMap f = f buffer ++ sentences.flatMap f := by
  induction sentences generalizing buffer with
  | nil =>
    rw [List.flatMap_nil, List.append_nil] at hQ ⊢
    rw [packSentences]
    split
    case isTrue h => rw [List.isEmpty_iff.mp h, hf.nil, List.flatMap_nil]
    case isFalse => exact reading_appendOrSplit hf hpieces hQ
  | cons sentence sentences ih =>
    rw [List.flatMap_cons] at hQ ⊢
    have hrest : ∀ x ∈ f sentence ++ sentences.flatMap f, Q x := fun x hx => hQ x (List.mem_append_right _ hx)
    rw [packSentences]
    split
    case isTrue h => rw [List.isEmpty_iff.mp h, hf.nil, List.nil_append, ih hrest]
    case isFalse =>
      split
      · have hjoin : f (buffer ++ [' '] ++ sentence) = f buffer ++ f sentence :=
          hf.append_sep_append buffer (by simp [isWhitespace]) (List.cons_ne_nil _ _) sentence
        rw [ih (by rwa [hjoin, List.append_assoc]), hjoin, List.append_assoc]
      · rw [List.flatMap_append, reading_appendOrSplit hf hpieces fun x hx => hQ x (List.mem_append_left _ hx),
          ih hrest]

/-- A paragraph, whole or in sentences. -/
theorem reading_paragraph {paragraph : Text} (hQ : ∀ x ∈ f paragraph, Q x) :
    (if paragraph.length ≤ lim.size then [paragraph]
      else packSentences U lim (splitIntoSentences U paragraph) []).flatMap f = f paragraph := by
  have hsentences := reading_splitIntoSentences (U := U) hf paragraph
  split
  · rw [List.flatMap_singleton]
  · rw [reading_packSentences hf hpieces (by rwa [hf.nil, List.nil_append, hsentences]), hf.nil, List.nil_append,
      hsentences]

theorem reading_semanticUnits {text : Text} (hQ : ∀ x ∈ f text, Q x) :
    (semanticUnits U lim text).flatMap f = f text := by
  have hparagraphs : (((Text.components ['\n', '\n'] text).map Text.trimmingCharacters).filter
      (!·.isEmpty)).flatMap f = f text := by
    rw [reading_trimmed hf, Text.reading_components hf (List.cons_ne_nil _ _) fun c => isWhitespace_of_mem_newlines]
  unfold semanticUnits
  dsimp only
  split
  · exact reading_appendOrSplit hf hpieces hQ
  · rw [List.flatMap_assoc, ← hparagraphs]
    refine List.flatMap_congr fun paragraph hparagraph => reading_paragraph hf hpieces fun x hx => hQ x ?_
    rw [← hparagraphs]
    exact List.mem_flatMap_of_mem hparagraph hx

omit hpieces in
theorem reading_packUnits {units : List Text} {current : Text} :
    (packUnits lim units current).flatMap f = f current ++ units.flatMap f := by
  induction units generalizing current with
  | nil => rw [packUnits, reading_nonEmpty hf, Text.trimmingCharacters, hf.trim, List.flatMap_nil, List.append_nil]
  | cons unit units ih =>
    rw [packUnits, List.flatMap_cons]
    split
    case isTrue h => rw [List.isEmpty_iff.mp h, hf.nil, List.nil_append, ih]
    case isFalse =>
      dsimp only
      split
      · rw [ih, hf.append_sep_append current (fun c => isWhitespace_of_mem_newlines) (List.cons_ne_nil _ _),
          List.append_assoc]
      · rw [List.flatMap_append, reading_nonEmpty hf, Text.trimmingCharacters, hf.trim, ih]

/-- The chunks before their overlaps. -/
theorem reading_baseChunks {text : Text} (hQ : ∀ x ∈ f text, Q x) : (baseChunks U lim text).flatMap f = f text := by
  have hunits := reading_semanticUnits hf hpieces hQ
  unfold baseChunks
  dsimp only
  split
  case isTrue h =>
    rw [List.isEmpty_iff.mp h] at hunits
    exact hunits
  case isFalse => rw [reading_packUnits hf, hf.nil, List.nil_append, hunits]

end Reading

theorem reading_normalize (hf : Reading isWhitespace f) (text : Text) : f (normalize text) = f text := by
  rw [normalize, Text.trimmingCharacters, hf.trim,
    Text.reading_replacingOccurrences hf (List.cons_ne_nil _ _) (by simp [isWhitespace]) (List.cons_ne_nil _ _)
      (by simp [isWhitespace])]

/-- What is read of the chunks of a text without overlap, one after the other,
is what is read of the text. -/
theorem reading_chunk {chunkSize : Int} (hf : Reading isWhitespace f) {Q : γ → Prop}
    (hpieces : ReadsPieces U (.safe chunkSize) f Q) {text : Text} (hQ : ∀ x ∈ f text, Q x) :
    (chunk U text chunkSize 0).flatMap f = f text := by
  rw [← reading_normalize hf text] at hQ ⊢
  rw [chunk_eq]
  split
  case isTrue h => rw [List.isEmpty_iff.mp h, List.flatMap_nil, hf.nil]
  case isFalse => rw [chunkSingle_zero, reading_baseChunks hf hpieces hQ]

/-! ## The characters -/

/-- The text with its whitespace removed. -/
def ink (t : Text) : Text := t.filter fun c => !isWhitespace c

theorem reading_ink : Reading isWhitespace ink := reading_filter fun c h => by rw [h]; rfl

/-- Characters are read wherever a text is cut. -/
theorem readsPieces_ink : ReadsPieces U lim ink fun _ => True := fun rest _ => by
  conv_lhs => rw [← List.take_append_drop (pieceEnd U lim.size rest) rest]
  rw [ink, List.filter_append]
  rfl

theorem ink_flatten (pieces : List Text) : ink pieces.flatten = pieces.flatMap ink := by
  rw [ink, List.filter_flatten]
  rfl

/-- Texts that do not depend on the number of the page. -/
theorem texts_mapIdx {pages : List Text} {number : Nat → Text → List ChunkedTextUnit} {texts : Text → List Text}
    (h : ∀ i page, (number i page).map ChunkedTextUnit.text = texts page) :
    (pages.mapIdx number).flatten.map ChunkedTextUnit.text = pages.flatMap texts := by
  induction pages generalizing number with
  | nil => rfl
  | cons page pages ih =>
    rw [List.mapIdx_cons, List.flatten_cons, List.map_append, h, ih fun i => h (i + 1), List.flatMap_cons]

/-- The chunks of the pages are those of each page, one after the other. -/
theorem texts_chunkPagesWithMetadata (pages : List Text) (chunkSize overlap : Int) :
    (chunkPagesWithMetadata U pages chunkSize overlap).map ChunkedTextUnit.text =
      pages.flatMap fun page => chunk U page chunkSize overlap := by
  refine texts_mapIdx fun i page => ?_
  rw [chunk_eq]
  dsimp only
  split
  · rfl
  · rw [List.map_map]
    exact List.map_id _

theorem ink_chunk (text : Text) (chunkSize : Int) : ink (chunk U text chunkSize 0).flatten = ink text := by
  rw [ink_flatten]
  exact reading_chunk reading_ink readsPieces_ink fun _ _ => trivial

/-- Without overlap, the chunks of a text and those of pages are their
characters, in order, but for the whitespace. -/
theorem partition_chunk (U : Unicode) (text : Text) (pages : List Text) (chunkSize : Int) :
    ink (chunk U text chunkSize 0).flatten = ink text ∧
      ink ((chunkPagesWithMetadata U pages chunkSize 0).map ChunkedTextUnit.text).flatten = ink pages.flatten := by
  refine ⟨ink_chunk text chunkSize, ?_⟩
  rw [texts_chunkPagesWithMetadata, ink_flatten, List.flatMap_assoc, ink_flatten]
  refine List.flatMap_congr fun page _ => ?_
  rw [← ink_flatten, ink_chunk]

end SynapsNotes.Knowledge
