import SynapsNotes.Foundation.Encoding
import SynapsNotes.Knowledge.Chunking
import Mathlib.Data.List.ReduceOption

/-!
# Text from files

`DocumentTextExtractionService`: the text of a file, by its type. A PDF gives
the texts of its pages, from the text layer or else from OCR of the rendered
page; a page without either is left out. What the file system, PDFKit and the
OCR services answer is part of the input.

`extractPDFText_pages` says which texts a PDF gives: those of its pages that
yield one (`pageText`), in their order.
-/

namespace SynapsNotes.Knowledge

structure NSError where
  domain : String
  code : Int
  localizedDescription : String
  deriving DecidableEq

structure DocumentExtractionResult where
  text : Text
  engine : String
  pages : Option (List Text)
  deriving DecidableEq

/-- What the OCR services answer for an image. -/
structure ImageAnswers where
  hasVisionOCRContext : Bool
  extractTextFromImageData : Except NSError Text
  recognizeText : Except NSError Text
  refineOCRText : Text → Except NSError Text

/-- A page: its text layer, and its image if it could be rendered. -/
structure PDFPage where
  string : Option Text
  image : Option ImageAnswers

/-- What is found in a file: its bytes, its pages if it is a PDF, and its
image if it is one. -/
structure FileAnswers where
  data : Except NSError Bytes
  pdf : Option (List (Option PDFPage))
  image : Option ImageAnswers

/-- The arguments that choose the OCR. -/
structure OCRChoice where
  hasLlamaContext : Bool
  preferOCRModel : Bool

def OCRChoice.usesModel (choice : OCRChoice) : Bool := choice.preferOCRModel && choice.hasLlamaContext

/-! ## Images -/

def modelVisionText (choice : OCRChoice) (image : ImageAnswers) : Option DocumentExtractionResult :=
  if choice.usesModel && image.hasVisionOCRContext then
    match image.extractTextFromImageData with
    | .ok modelText =>
      let trimmed := modelText.trimmingCharacters
      if 20 ≤ trimmed.length then some ⟨trimmed, "ocr_model", none⟩ else none
    | .error _ => none
  else none

def refinedText (choice : OCRChoice) (image : ImageAnswers) (vision : Text) : Option DocumentExtractionResult :=
  if choice.usesModel then
    match image.refineOCRText vision with
    | .ok refined =>
      let cleaned := refined.trimmingCharacters
      if max 10 (vision.length / 3) ≤ cleaned.length then some ⟨cleaned, "ocr_model", none⟩ else none
    | .error _ => none
  else none

def extractFromImage (choice : OCRChoice) (image : ImageAnswers) : Except NSError DocumentExtractionResult :=
  match modelVisionText choice image with
  | some result => .ok result
  | none => do
    let vision ← image.recognizeText
    return (refinedText choice image vision).getD ⟨vision, "vision_ocr", none⟩

/-! ## PDFs -/

/-- The variables of the loop over pages. -/
structure Sections where
  sections : List Text
  usedOCR : Bool
  usedModelOCR : Bool

/-- One page of the loop. -/
def extractPage (choice : OCRChoice) (s : Sections) : Option PDFPage → Except NSError Sections
  | none => .ok s
  | some page =>
    let textLayer := (page.string.map Text.trimmingCharacters).getD []
    if !textLayer.isEmpty then .ok { s with sections := s.sections ++ [textLayer] }
    else
      match page.image with
      | none => .ok s
      | some image => do
        let ocr ← extractFromImage choice image
        if !ocr.text.trimmingCharacters.isEmpty then
          return ⟨s.sections ++ [ocr.text], true, s.usedModelOCR || ocr.engine == "ocr_model"⟩
        else return s

def extractPDFText (choice : OCRChoice) (pdf : Option (List (Option PDFPage))) :
    Except NSError DocumentExtractionResult :=
  match pdf with
  | none => .error ⟨"DocumentTextExtractionService", 3, "Unable to open PDF"⟩
  | some pages => do
    let s ← pages.foldlM (extractPage choice) ⟨[], false, false⟩
    let text := Text.trimmingCharacters ((s.sections.intersperse ['\n', '\n']).flatten)
    let engine := if s.usedModelOCR then "ocr_model" else if s.usedOCR then "vision_ocr" else "pdf_text"
    return ⟨text, engine, some s.sections⟩

/-! ## Files -/

def imageExtensions : List String := ["png", "jpg", "jpeg", "webp", "heic", "bmp", "gif", "tiff"]

/-- `String(data:encoding:)`, or else `String(decoding:as:)`, which repairs. -/
def decodedText (decoding : Bytes → Text) (data : Bytes) : Text := (utf8Decode data).getD (decoding data)

def extractText (U : Unicode) (decoding : Bytes → Text) (choice : OCRChoice) (mimeType : String)
    (pathExtension : Text) (file : FileAnswers) : Except NSError DocumentExtractionResult :=
  let pathExtension := U.lowercased pathExtension
  let hasPrefix (p : String) := p.toList.isPrefixOf mimeType.toList
  if hasPrefix "text/" || pathExtension == "md".toList || pathExtension == "txt".toList then do
    let data ← file.data
    return ⟨decodedText decoding data, "plain_text", none⟩
  else if mimeType == "application/pdf" || pathExtension == "pdf".toList then extractPDFText choice file.pdf
  else if hasPrefix "image/" || (imageExtensions.map String.toList).contains pathExtension then do
    let _ ← file.data
    match file.image with
    | none => .error ⟨"DocumentTextExtractionService", 2, "Unable to decode image"⟩
    | some image => extractFromImage choice image
  else do
    let data ← file.data
    return ⟨decodedText decoding data, "plain_text", none⟩

/-! ## What the pages of a PDF yield -/

/-- The text that a page yields, of its text layer or by OCR, if any. -/
def pageText (choice : OCRChoice) : Option PDFPage → Except NSError (Option Text)
  | none => .ok none
  | some page =>
    let textLayer := (page.string.map Text.trimmingCharacters).getD []
    if !textLayer.isEmpty then .ok (some textLayer)
    else
      match page.image with
      | none => .ok none
      | some image => (extractFromImage choice image).map fun ocr =>
        if !ocr.text.trimmingCharacters.isEmpty then some ocr.text else none

section Pages

variable {choice : OCRChoice}

/-- A page adds the text it yields to the sections, and fails as it fails. -/
theorem extractPage_sections (choice : OCRChoice) (s : Sections) (page : Option PDFPage) :
    (extractPage choice s page).map Sections.sections =
      (pageText choice page).map fun text => s.sections ++ text.toList := by
  cases page with
  | none => simp [extractPage, pageText, Except.map]
  | some page =>
    simp only [extractPage, pageText]
    split
    · rfl
    · cases page.image with
      | none => simp [Except.map]
      | some image =>
        cases ho : extractFromImage choice image with
        | error e => simp only [ho, bind, Except.bind, Except.map]
        | ok ocr =>
          simp only [ho, bind, Except.bind, Except.map, pure, Except.pure]
          by_cases hblank : (!ocr.text.trimmingCharacters.isEmpty) = true
          · simp only [if_pos hblank, Option.toList]
          · simp only [if_neg hblank, Option.toList, List.append_nil]

/-- No text that a page yields is blank. -/
theorem trimmingCharacters_of_pageText {page : Option PDFPage} {text : Text}
    (h : pageText choice page = .ok (some text)) : text.trimmingCharacters ≠ [] := by
  cases page with
  | none => exact nomatch h
  | some page =>
    simp only [pageText] at h
    split at h
    · rename_i hlayer
      cases h
      cases hs : page.string with
      | none => simp [hs] at hlayer
      | some string =>
        simp only [hs, Option.map_some, Option.getD_some, Bool.not_eq_true', List.isEmpty_eq_false_iff] at hlayer ⊢
        rwa [show string.trimmingCharacters.trimmingCharacters = string.trimmingCharacters from
          (Framework.trimmed_trim isWhitespace string).trim_eq]
    · cases hi : page.image with
      | none => simp [hi] at h
      | some image =>
        simp only [hi] at h
        cases ho : extractFromImage choice image with
        | error e => simp [ho, Except.map] at h
        | ok ocr =>
          simp only [ho, Except.map, Except.ok.injEq] at h
          split at h
          · rename_i hne
            cases h
            simpa using hne
          · exact nomatch h

/-- Two results that agree on what is made of them fail alike. -/
theorem map_eq_map {ε β γ δ : Type} {x : Except ε β} {y : Except ε γ} {f : β → δ} {g : γ → δ}
    (h : x.map f = y.map g) :
    (∃ e, x = .error e ∧ y = .error e) ∨ ∃ b c, x = .ok b ∧ y = .ok c ∧ f b = g c := by
  cases x with
  | error e =>
    cases y with
    | error e' => exact .inl ⟨e, rfl, congrArg _ (Except.error.inj h).symm⟩
    | ok c => cases h
  | ok b =>
    cases y with
    | error e => cases h
    | ok c => exact .inr ⟨b, c, rfl, rfl, Except.ok.inj h⟩

/-- The loop collects the texts that the pages yield. -/
theorem foldlM_extractPage (choice : OCRChoice) (pages : List (Option PDFPage)) (s : Sections) :
    (pages.foldlM (extractPage choice) s).map Sections.sections =
      (pages.mapM (pageText choice)).map fun texts => s.sections ++ texts.reduceOption := by
  induction pages generalizing s with
  | nil => simp [pure, Except.pure, Except.map]
  | cons page pages ih =>
    rw [List.foldlM_cons, List.mapM_cons]
    rcases map_eq_map (extractPage_sections choice s page) with ⟨e, he, hp⟩ | ⟨s', text, he, hp, hs'⟩
    · rw [he, hp]
      rfl
    · rw [he, hp]
      refine (ih s').trans ?_
      rw [hs']
      cases hm : pages.mapM (pageText choice) with
      | error e => rfl
      | ok texts =>
        simp only [bind, Except.bind, Except.map, pure, Except.pure, List.append_assoc]
        cases text with
        | none => rw [List.reduceOption_cons_of_none, Option.toList_none, List.nil_append]
        | some text => rw [List.reduceOption_cons_of_some, Option.toList_some, List.singleton_append]

/-- The texts of the pages as one. -/
def joinedPages (pages : List Text) : Text :=
  Text.trimmingCharacters ((pages.intersperse ['\n', '\n']).flatten)

/-- A PDF gives the texts that its pages yield, in their order. -/
theorem extractPDFText_pages {pages : List (Option PDFPage)} {result : DocumentExtractionResult}
    (h : extractPDFText choice (some pages) = .ok result) :
    ∃ texts, pages.mapM (pageText choice) = .ok texts ∧ result.pages = some texts.reduceOption ∧
      result.text = joinedPages texts.reduceOption := by
  simp only [extractPDFText] at h
  rcases map_eq_map (foldlM_extractPage choice pages ⟨[], false, false⟩) with
    ⟨e, hs, -⟩ | ⟨s, texts, hs, htexts, hsections⟩
  · rw [hs] at h
    cases h
  · rw [hs] at h
    cases h
    exact ⟨texts, htexts, congrArg some hsections, congrArg joinedPages hsections⟩

end Pages

end SynapsNotes.Knowledge
