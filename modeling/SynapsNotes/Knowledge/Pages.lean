import SynapsNotes.Knowledge.Blank
import SynapsNotes.Knowledge.Ingestion
import SynapsNotes.Retrieval.Pipeline
import Mathlib.Data.List.ReduceOption

/-!
# Page numbers

A chunk of a PDF is numbered by the place of its text among the texts that
were extracted, and pages that yield none are not among them. So the numbers
are those of the pages up to the first page without text, and too small behind
it: `pageNumbers_right_iff`.
-/

namespace SynapsNotes.Knowledge

open SynapsNotes.Runtime

variable {S : Services} {α : Type}

/-- The pieces that the text of a page is cut into. -/
def pagePieces (U : Unicode) (page : Text) : List Text :=
  let normalizedPage := normalize page
  if normalizedPage.isEmpty then [] else chunkSingle U normalizedPage 800 120

/-- What the chunks of a PDF should be: the pieces of the text of each page,
with the position of the page in the PDF, counted from one. `texts` are the
texts that the pages from `position` on yield. -/
def numberedPieces (U : Unicode) : ℕ → List (Option Text) → List (Text × Option ℕ)
  | _, [] => []
  | position, none :: texts => numberedPieces U (position + 1) texts
  | position, some page :: texts =>
    (pagePieces U page).map (·, some (position + 1)) ++ numberedPieces U (position + 1) texts

/-- No page without text stands before a page with text. -/
def TextFirst (texts : List (Option Text)) : Prop :=
  ∀ i j : ℕ, i < j → texts[i]? = some none → ∀ text, texts[j]? ≠ some (some text)

/-- The source is a PDF, by its extension. -/
structure IsPDF (S : Services) (sourceURL : SourceURL) : Prop where
  pathExtension : S.unicode.lowercased sourceURL.pathExtension = "pdf".toList
  lowercased : S.unicode.lowercased "pdf".toList = "pdf".toList
  mimeType : S.preferredMIMEType "pdf".toList = some "application/pdf"

/-- The chunks that the import of a document inserts. -/
def persistedChunks (S : Services) {E : Type} (ids : ℕ → UUID) (now : ℕ → Date) (document : KnowledgeDocument)
    (ingested : IngestedKnowledgeDocument) : List (KnowledgeChunk E) :=
  ingested.chunks.mapIdx fun index chunk => newKnowledgeChunk S (ids index) (now index) document index chunk

/-- The chunks are the pieces of the pages, each under the number of its page,
and a citation of one names that page. -/
structure NumberedByPage (U : Unicode) (texts : List (Option Text)) (chunks : List (KnowledgeChunk (List α))) :
    Prop where
  pageNumber : chunks.map (fun c => (c.text.toList, c.pageNumber)) =
    (numberedPieces U 0 texts).map fun p => (p.1, p.2.map Int.ofNat)
  citation : ∀ index, chunks.map (fun c => (Retrieval.citation index (.chunk c)).pageNumber) =
    (numberedPieces U 0 texts).map fun p => p.2.map Int.ofNat

/-! ## What the code numbers -/

/-- The pieces as the code numbers them: `index` sections stand before. -/
def indexedPieces (U : Unicode) : ℕ → List Text → List (Text × Option ℕ)
  | _, [] => []
  | index, page :: pages => (pagePieces U page).map (·, some (index + 1)) ++ indexedPieces U (index + 1) pages

theorem chunkPagesWithMetadata_eq (U : Unicode) (pages : List Text) :
    (chunkPagesWithMetadata U pages 800 120).map (fun c => (c.text, c.pageNumber)) = indexedPieces U 0 pages := by
  suffices h : ∀ k, ((pages.mapIdx fun i page =>
      (pagePieces U page).map fun t => ChunkedTextUnit.mk t (some (i + k + 1))).flatten).map
        (fun c => (c.text, c.pageNumber)) = indexedPieces U k pages by
    rw [← h 0, chunkPagesWithMetadata]
    congr 2
    refine List.mapIdx_eq_mapIdx_iff.mpr fun i hi => ?_
    simp only [pagePieces]
    split <;> rfl
  induction pages with
  | nil => exact fun _ => rfl
  | cons page pages ih =>
    intro k
    rw [indexedPieces, ← ih (k + 1), List.mapIdx_cons, List.flatten_cons, List.map_append, List.map_map]
    congr 4
    · funext t
      simp
    · funext i page
      rw [show i + 1 + k + 1 = i + (k + 1) + 1 by omega]

/-- A page with text has a piece. -/
theorem pagePieces_ne_nil (U : Unicode) {page : Text} (h : page.trimmingCharacters ≠ []) :
    pagePieces U page ≠ [] := by
  have hnorm : normalize page ≠ [] := normalize_ne_nil (mt trimmingCharacters_eq_nil_iff.mpr h)
  simp only [pagePieces, List.isEmpty_iff, if_neg hnorm]
  refine chunkSingle_ne_nil U (fun hblank => hnorm ?_) 800 120
  rw [← trimmingCharacters_eq_nil_iff] at hblank
  rw [normalize] at hblank ⊢
  rwa [Text.trimmingCharacters, Text.trimmingCharacters, (Framework.trimmed_trim _ _).trim_eq] at hblank

/-! ## Where the numbers are right -/

theorem textFirst_nil : TextFirst [] := fun _ _ _ h => nomatch h

theorem textFirst_cons_some (page : Text) (texts : List (Option Text)) :
    TextFirst (some page :: texts) ↔ TextFirst texts := by
  constructor
  · intro h i j hij hi text hj
    exact h (i + 1) (j + 1) (by omega) hi text hj
  · intro h i j hij hi text hj
    cases i with
    | zero => exact nomatch hi
    | succ i =>
      cases j with
      | zero => exact absurd hij (by omega)
      | succ j => exact h i j (by omega) hi text hj

theorem textFirst_cons_none (texts : List (Option Text)) :
    TextFirst (none :: texts) ↔ texts.reduceOption = [] := by
  rw [List.reduceOption_eq_nil_iff]
  constructor
  · intro h
    refine ⟨texts.length, List.eq_replicate_iff.mpr ⟨rfl, fun text htext => ?_⟩⟩
    obtain ⟨j, hj, rfl⟩ := List.getElem_of_mem htext
    cases ht : texts[j] with
    | none => rfl
    | some text => exact absurd (ht ▸ List.getElem?_eq_getElem hj) (h 0 (j + 1) (by omega) rfl text)
  · rintro ⟨n, rfl⟩ i j hij - text hj
    obtain ⟨j, rfl⟩ := Nat.exists_eq_add_one.mpr (by omega : 0 < j)
    rw [List.getElem?_cons_succ] at hj
    exact nomatch List.eq_of_mem_replicate (List.mem_of_getElem? hj)

section Numbers

variable {U : Unicode}

/-- Behind a page without text no number is right. -/
theorem indexedPieces_behind {texts : List (Option Text)} {index position : ℕ} (hlt : index < position)
    (htexts : ∀ text, some text ∈ texts → Text.trimmingCharacters text ≠ []) :
    indexedPieces U index texts.reduceOption = numberedPieces U position texts ↔ texts.reduceOption = [] := by
  induction texts generalizing position with
  | nil => simp [indexedPieces, numberedPieces]
  | cons text texts ih =>
    cases text with
    | none =>
      rw [List.reduceOption_cons_of_none, numberedPieces]
      exact ih (by omega) fun text h => htexts text (List.mem_cons_of_mem _ h)
    | some page =>
      rw [List.reduceOption_cons_of_some, indexedPieces, numberedPieces]
      refine iff_of_false (fun heq => ?_) (List.cons_ne_nil _ _)
      have hpieces := pagePieces_ne_nil U (htexts page List.mem_cons_self)
      cases hp : pagePieces U page with
      | nil => exact hpieces hp
      | cons piece pieces =>
        rw [hp] at heq
        have hnumber := congrArg Prod.snd (List.cons.inj heq).1
        exact absurd (Option.some.inj hnumber) (by omega)

theorem indexedPieces_eq_iff {texts : List (Option Text)} (position : ℕ)
    (htexts : ∀ text, some text ∈ texts → Text.trimmingCharacters text ≠ []) :
    indexedPieces U position texts.reduceOption = numberedPieces U position texts ↔ TextFirst texts := by
  induction texts generalizing position with
  | nil => exact iff_of_true rfl textFirst_nil
  | cons text texts ih =>
    have htail : ∀ text, some text ∈ texts → Text.trimmingCharacters text ≠ [] :=
      fun text h => htexts text (List.mem_cons_of_mem _ h)
    cases text with
    | none =>
      rw [List.reduceOption_cons_of_none, numberedPieces, textFirst_cons_none]
      exact indexedPieces_behind (Nat.lt_succ_self position) htail
    | some page =>
      rw [List.reduceOption_cons_of_some, indexedPieces, numberedPieces, List.append_cancel_left_eq,
        textFirst_cons_some]
      exact ih (position + 1) htail

end Numbers

/-! ## The import of a PDF -/

section Import

variable {choice : OCRChoice} {id : UUID} {sourceURL : SourceURL} {sourceType : KnowledgeSourceType}
  {driveFileId : Option String} {copied : Except NSError Unit} {file : FileAnswers}
  {pages : List (Option PDFPage)} {ingested : IngestedKnowledgeDocument}

/-- A PDF is recognised as one. -/
theorem IsPDF.extractText (hpdf : IsPDF S sourceURL) (file : FileAnswers) :
    extractText S.unicode S.decoding choice (storeImportedFile S id sourceURL).mimeType
      (storeImportedFile S id sourceURL).pathExtension file = extractPDFText choice file.pdf := by
  have hext : (storeImportedFile S id sourceURL).pathExtension = "pdf".toList := by
    simp [storeImportedFile, hpdf.pathExtension]
  have hmime : (storeImportedFile S id sourceURL).mimeType = "application/pdf" := by
    rw [storeImportedFile, hpdf.pathExtension]
    exact congrArg (Option.getD · _) hpdf.mimeType
  rw [hext, hmime, Knowledge.extractText, hpdf.lowercased]
  rfl

/-- Without sections there is no text, and no chunk. -/
theorem ingestedChunks_pages {extraction : DocumentExtractionResult} {sections : List Text}
    (hpages : extraction.pages = some sections) (htext : extraction.text = joinedPages sections) :
    ingestedChunks S extraction = chunkPagesWithMetadata S.unicode sections 800 120 := by
  cases sections with
  | nil =>
    rw [ingestedChunks, hpages, htext]
    rfl
  | cons page pages => rw [ingestedChunks, hpages]

/-- The chunks of a PDF are cut from the texts that its pages yield. -/
theorem ingestLocalFile_chunks (hpdf : IsPDF S sourceURL) (hfile : file.pdf = some pages)
    (h : ingestLocalFile S choice id sourceURL sourceType driveFileId copied file = .ok ingested) :
    ∃ texts, pages.mapM (pageText choice) = .ok texts ∧
      ingested.chunks = chunkPagesWithMetadata S.unicode texts.reduceOption 800 120 := by
  cases copied with
  | error e => simp only [ingestLocalFile, bind, Except.bind, reduceCtorEq] at h
  | ok _ =>
    simp only [ingestLocalFile, ingestStored, bind, Except.bind, hpdf.extractText, hfile] at h
    cases he : extractPDFText choice (some pages) with
    | error e =>
      rw [he] at h
      cases h
    | ok extraction =>
      simp only [he, pure, Except.pure, Except.ok.injEq] at h
      subst h
      obtain ⟨texts, htexts, hpages, htext⟩ := extractPDFText_pages he
      exact ⟨texts, htexts, ingestedChunks_pages hpages htext⟩

/-- No text that the pages yield is blank. -/
theorem trimmingCharacters_of_mapM_pageText {texts : List (Option Text)}
    (h : pages.mapM (pageText choice) = .ok texts) {text : Text} (hmem : some text ∈ texts) :
    text.trimmingCharacters ≠ [] := by
  induction pages generalizing texts with
  | nil =>
    cases h
    exact nomatch hmem
  | cons page pages ih =>
    rw [List.mapM_cons] at h
    cases hp : pageText choice page with
    | error e =>
      rw [hp] at h
      exact nomatch h
    | ok first =>
      cases hm : pages.mapM (pageText choice) with
      | error e =>
        rw [hp, hm] at h
        exact nomatch h
      | ok rest =>
        rw [hp, hm] at h
        cases h
        rcases List.mem_cons.mp hmem with rfl | hmem
        · exact trimmingCharacters_of_pageText hp
        · exact ih hm hmem

theorem map_persistedChunks {E β : Type} (ids : ℕ → UUID) (now : ℕ → Date) (document : KnowledgeDocument)
    (f : KnowledgeChunk E → β) (g : ChunkedTextUnit → β)
    (hfg : ∀ id time index chunk, f (newKnowledgeChunk S id time document index chunk) = g chunk) :
    (persistedChunks S ids now document ingested).map f = ingested.chunks.map g := by
  rw [persistedChunks, List.mapIdx_eq_zipIdx_map, List.map_map, ← List.zipIdx_map_fst 0 ingested.chunks,
    List.map_map]
  simp [hfg]

/-- The chunks are numbered by page exactly if the place of a text is that of
its page. -/
theorem numberedByPage_iff {texts : List (Option Text)}
    (hchunks : ingested.chunks = chunkPagesWithMetadata S.unicode texts.reduceOption 800 120)
    (ids : ℕ → UUID) (now : ℕ → Date) (document : KnowledgeDocument) :
    NumberedByPage (α := α) S.unicode texts (persistedChunks S ids now document ingested) ↔
      indexedPieces S.unicode 0 texts.reduceOption = numberedPieces S.unicode 0 texts := by
  have hinj : Function.Injective fun p : Text × Option ℕ => (p.1, p.2.map Int.ofNat) := by
    rintro ⟨t, m⟩ ⟨u, n⟩ h
    obtain ⟨htext, hnumber⟩ := Prod.mk.inj h
    exact Prod.ext htext (Option.map_injective (fun _ _ => Int.ofNat.inj) hnumber)
  have hnumbers : (persistedChunks (E := List α) S ids now document ingested).map
      (fun c => (c.text.toList, c.pageNumber)) =
      (indexedPieces S.unicode 0 texts.reduceOption).map fun p => (p.1, p.2.map Int.ofNat) := by
    rw [← chunkPagesWithMetadata_eq, ← hchunks, List.map_map]
    exact map_persistedChunks ids now document _ _ fun _ _ _ _ => by simp [newKnowledgeChunk]
  constructor
  · intro h
    exact List.map_injective_iff.mpr hinj (hnumbers.symm.trans h.pageNumber)
  · intro h
    rw [h] at hnumbers
    refine ⟨hnumbers, fun index => ?_⟩
    have hsnd := congrArg (List.map Prod.snd) hnumbers
    rwa [List.map_map, List.map_map] at hsnd

/-- The chunks of an imported PDF carry the numbers of their pages, and so do
their citations, exactly if no page without text stands before a page with
text. -/
theorem pageNumbers_right_iff (hpdf : IsPDF S sourceURL) (hfile : file.pdf = some pages)
    (h : ingestLocalFile S choice id sourceURL sourceType driveFileId copied file = .ok ingested)
    {texts : List (Option Text)} (htexts : pages.mapM (pageText choice) = .ok texts)
    (ids : ℕ → UUID) (now : ℕ → Date) (document : KnowledgeDocument) :
    NumberedByPage (α := α) S.unicode texts (persistedChunks S ids now document ingested) ↔ TextFirst texts := by
  obtain ⟨texts', htexts', hchunks⟩ := ingestLocalFile_chunks hpdf hfile h
  obtain rfl := Except.ok.inj (htexts.symm.trans htexts')
  rw [numberedByPage_iff hchunks]
  exact indexedPieces_eq_iff 0 fun text => trimmingCharacters_of_mapM_pageText htexts

end Import

/-- A page with a text layer. -/
def textPage (string : Text) : Option PDFPage := some ⟨some string, none⟩

/-- A blank page: OCR finds no text in its image. -/
def emptyPage : Option PDFPage :=
  some ⟨none, some
    { hasVisionOCRContext := false
      extractTextFromImageData := .ok []
      recognizeText := .ok []
      refineOCRText := .ok }⟩

def pdfURL : SourceURL := ⟨"a.pdf", "pdf".toList, "a"⟩

def pdfFile (pages : List (Option PDFPage)) : FileAnswers := ⟨.ok [], some pages, none⟩

def withoutModel : OCRChoice := ⟨false, false⟩

theorem isPDF_pdfURL : IsPDF Services.ascii pdfURL := by
  constructor <;> decide

/-- The page without text stands last. -/
theorem pageNumbers_right_last : ∃ ingested,
    ingestLocalFile Services.ascii withoutModel 0 pdfURL .localFile none (.ok ())
      (pdfFile [textPage ['a'], emptyPage]) = .ok ingested ∧
    ∀ (ids : ℕ → UUID) (now : ℕ → Date) (document : KnowledgeDocument), NumberedByPage (α := ℚ) Unicode.ascii
      [some ['a'], none] (persistedChunks Services.ascii ids now document ingested) := by
  have hfile : (pdfFile [textPage ['a'], emptyPage]).pdf = some [textPage ['a'], emptyPage] := rfl
  have htexts : [textPage ['a'], emptyPage].mapM (pageText withoutModel) = .ok [some ['a'], none] := rfl
  obtain ⟨ingested, h⟩ : ∃ ingested, ingestLocalFile Services.ascii withoutModel 0 pdfURL .localFile none (.ok ())
      (pdfFile [textPage ['a'], emptyPage]) = .ok ingested := ⟨_, rfl⟩
  refine ⟨ingested, h, fun ids now document => ?_⟩
  refine (pageNumbers_right_iff isPDF_pdfURL hfile h htexts ids now document).mpr ?_
  rw [textFirst_cons_some, textFirst_cons_none]
  rfl

/-- The first page has no text, and the text of the second is cited as that of
the first. -/
theorem page_without_text_shifts_numbers : ∃ ingested,
    ingestLocalFile Services.ascii withoutModel 0 pdfURL .localFile none (.ok ())
      (pdfFile [emptyPage, textPage ['a']]) = .ok ingested ∧
    [emptyPage, textPage ['a']].mapM (pageText withoutModel) = .ok [none, some ['a']] ∧
    ∀ (ids : ℕ → UUID) (now : ℕ → Date) (document : KnowledgeDocument), ¬ NumberedByPage (α := ℚ) Unicode.ascii
      [none, some ['a']] (persistedChunks Services.ascii ids now document ingested) := by
  refine ⟨_, rfl, rfl, fun ids now document h => ?_⟩
  have hsame := (numberedByPage_iff (S := Services.ascii) rfl ids now document).mp h
  have hfirst : TextFirst [none, some ['a']] := by
    refine (indexedPieces_eq_iff 0 fun text htext => ?_).mp hsame
    obtain rfl : text = ['a'] := by simpa using htext
    decide
  exact List.cons_ne_nil _ _ ((textFirst_cons_none _).mp hfirst)

end SynapsNotes.Knowledge
