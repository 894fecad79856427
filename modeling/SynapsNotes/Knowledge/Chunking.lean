import SynapsNotes.Foundation.Text

/-!
# Chunking

`TextChunkingService` cuts a text into chunks of a maximal length: into
paragraphs, long paragraphs into sentences, long sentences at word
boundaries; the pieces are then packed into chunks, and each chunk but the
first gets the end of the one before it, its overlap, put in front.

A position in a text is the number of characters before it. The limits the
service works with carry what it makes sure of (`ChunkSize`,
`Limits`).
-/

namespace SynapsNotes.Knowledge

variable (U : Unicode)

/-- `safeSize`. -/
structure ChunkSize where
  size : Nat
  size_pos : 0 < size

/-- `safeSize` and `safeOverlap`. -/
structure Limits extends ChunkSize where
  overlap : Nat
  overlap_lt : overlap < size

def ChunkSize.safe (chunkSize : Int) : ChunkSize := ⟨(max 200 chunkSize).toNat, by omega⟩

def Limits.safe (chunkSize overlap : Int) : Limits where
  toChunkSize := .safe chunkSize
  overlap := (max 0 (min overlap (max 200 chunkSize - 1))).toNat
  overlap_lt := by simp only [ChunkSize.safe]; omega

/-! ## Word boundaries -/

def isWordCharacter (char : Char) : Bool := U.alphanumerics char

/-- The first position from `index` on whose character is not `p`. -/
def advanceWhile (p : Char → Bool) (text : Text) (index : Nat) : Nat :=
  index + ((text.drop index).takeWhile p).length

/-- The last position up to `index`, but not below `lowerBound`, whose
preceding character is not `p`. -/
def retreatWhile (p : Char → Bool) (text : Text) (lowerBound index : Nat) : Nat :=
  index - (((text.take index).drop lowerBound).reverse.takeWhile p).length

/-- Whether a position is inside a word. -/
def insideWord (text : Text) (index : Nat) : Bool :=
  match text[index - 1]?, text[index]? with
  | some prev, some current => isWordCharacter U prev && isWordCharacter U current
  | _, _ => false

def alignForwardToWordBoundary (text : Text) (index : Nat) : Nat :=
  if index < text.length then
    if 0 < index && insideWord U text index then
      advanceWhile (fun c => !isWordCharacter U c) text (advanceWhile (isWordCharacter U) text index)
    else index
  else text.length

def alignBackwardToWordBoundary (text : Text) (index lowerBound : Nat) : Nat :=
  if lowerBound < index then
    if index < text.length then
      if insideWord U text index then retreatWhile (isWordCharacter U) text lowerBound index else index
    else index
  else lowerBound

def trimToWordBoundary (text : Text) (maxLength : Nat) : Text :=
  if text.length ≤ maxLength then text
  else
    let alignedEnd := alignBackwardToWordBoundary U text maxLength 0
    text.take (if 0 < alignedEnd then alignedEnd else maxLength)

def overlapTail (text : Text) (overlap : Nat) : Text :=
  if overlap = 0 ∨ text = [] then []
  else if text.length ≤ overlap then text.trimmingCharacters
  else
    let rawStart := text.length - overlap
    let alignedStart := alignForwardToWordBoundary U text rawStart
    if alignedStart < text.length then Text.trimmingCharacters (text.drop alignedStart)
    else Text.trimmingCharacters (text.drop rawStart)

/-! ## Sentences -/

def knownAbbreviations : List String :=
  ["mr.", "mrs.", "ms.", "dr.", "prof.", "sr.", "jr.", "st.", "mt.",
    "vs.", "etc.", "e.g.", "i.e.", "u.s.", "u.k.", "u.s.a.",
    "inc.", "ltd.", "co.", "corp.", "no.", "fig.", "al."]

/-- The matches of `(?<=[\.\!\?])\s+`: the runs of spaces after a full stop,
an exclamation or a question mark, each as its start and end. -/
def sentenceBoundaries (text : Text) : List (Nat × Nat) :=
  (List.range text.length).filterMap fun i =>
    match i, text[i - 1]?, text[i]? with
    | _ + 1, some prev, some c =>
      if (prev = '.' ∨ prev = '!' ∨ prev = '?') ∧ isRegexSpace c then
        some (i, advanceWhile isRegexSpace text i)
      else none
    | _, _, _ => none

def isLatinLower (c : Char) : Bool := 'a' ≤ c && c ≤ 'z'

/-- The rest of a token that matches `^(?:[a-z]\.){2,}[a-z]?\.$`, after `n`
letters with their full stops. -/
def matchesInitials : Nat → Text → Bool
  | n, c :: d :: rest =>
    isLatinLower c && d == '.' && (matchesInitials (n + 1) rest || (rest.isEmpty && decide (2 ≤ n)))
  | n, [c] => c == '.' && decide (2 ≤ n)
  | _, [] => false

/-- The characters up to a position that follow the last whitespace. -/
def trailingToken (text : Text) (end_ : Nat) : Text :=
  ((text.take end_).reverse.takeWhile fun c => !isWhitespace c).reverse

def firstNonWhitespaceCharacter (text : Text) (index : Nat) : Option Char :=
  (text.drop index).find? fun c => !isWhitespace c

def shouldIgnoreSentenceBoundary (text : Text) (boundaryStart : Nat) : Bool :=
  if boundaryStart = 0 then false
  else if text[boundaryStart - 1]? = some '.' then
    let token := U.lowercased (trailingToken text boundaryStart)
    if token.isEmpty then false
    else if (knownAbbreviations.map String.toList).contains token then true
    else if matchesInitials 0 token then true
    else
      match token, firstNonWhitespaceCharacter text boundaryStart with
      | [c, '.'], some next => isLatinLower c && U.isLowercase next
      | _, _ => false
  else false

/-- The text as a list, unless it is empty. -/
def nonEmpty (text : Text) : List Text := if text.isEmpty then [] else [text]

/-- The sentences from `start` on, at the boundaries left. -/
def sentencesFrom (text : Text) : List (Nat × Nat) → Nat → List Text
  | [], start => nonEmpty (Text.trimmingCharacters (text.drop start))
  | (lowerBound, upperBound) :: boundaries, start =>
    if shouldIgnoreSentenceBoundary U text lowerBound then sentencesFrom text boundaries start
    else
      nonEmpty (Text.trimmingCharacters ((text.take lowerBound).drop start)) ++
        sentencesFrom text boundaries upperBound

def splitIntoSentences (text : Text) : List Text :=
  let sentences := sentencesFrom U text (sentenceBoundaries text) 0
  if sentences.isEmpty then [text] else sentences

/-! ## Units -/

/-- The end of the next piece of a text that is too long. -/
def pieceEnd (maxLength : Nat) (rest : Text) : Nat :=
  let rawEnd := min maxLength rest.length
  if rawEnd < rest.length then
    let adjusted := alignBackwardToWordBoundary U rest rawEnd 0
    if 0 < adjusted then adjusted else rawEnd
  else rawEnd

theorem pieceEnd_pos {maxLength : Nat} (hm : 0 < maxLength) {rest : Text} (hr : rest ≠ []) :
    0 < pieceEnd U maxLength rest := by
  have := List.length_pos_of_ne_nil hr
  simp only [pieceEnd]
  split
  · split
    · assumption
    · omega
  · omega

theorem length_drop_pieceEnd_lt {maxLength : Nat} (hm : 0 < maxLength) {rest : Text} (hr : rest ≠ []) :
    (rest.drop (pieceEnd U maxLength rest)).length < rest.length := by
  have := pieceEnd_pos U hm hr
  have := List.length_pos_of_ne_nil hr
  rw [List.length_drop]
  omega

/-- The pieces of a text that is too long, from `start` on, where `rest` is
what begins there. -/
def splitPieces (lim : ChunkSize) (rest : Text) : List Text :=
  if _ : rest = [] then []
  else
    nonEmpty (Text.trimmingCharacters (rest.take (pieceEnd U lim.size rest))) ++
      splitPieces lim (rest.drop (pieceEnd U lim.size rest))
termination_by rest.length
decreasing_by exact length_drop_pieceEnd_lt U lim.size_pos ‹_›

/-- `appendOrSplit`: what it appends. -/
def appendOrSplit (lim : ChunkSize) (text : Text) : List Text :=
  let trimmed := text.trimmingCharacters
  if trimmed.isEmpty then []
  else if trimmed.length ≤ lim.size then [trimmed]
  else splitPieces U lim trimmed

/-- The sentences of a long paragraph, as many together as fit. -/
def packSentences (lim : ChunkSize) : List Text → Text → List Text
  | [], sentenceBuffer => if sentenceBuffer.isEmpty then [] else appendOrSplit U lim sentenceBuffer
  | sentence :: sentences, sentenceBuffer =>
    if sentenceBuffer.isEmpty then packSentences lim sentences sentence
    else if sentenceBuffer.length + 1 + sentence.length ≤ lim.size then
      packSentences lim sentences (sentenceBuffer ++ [' '] ++ sentence)
    else appendOrSplit U lim sentenceBuffer ++ packSentences lim sentences sentence

def semanticUnits (lim : ChunkSize) (text : Text) : List Text :=
  let paragraphs := ((Text.components ['\n', '\n'] text).map Text.trimmingCharacters).filter (!·.isEmpty)
  let units := paragraphs.flatMap fun paragraph =>
    if paragraph.length ≤ lim.size then [paragraph]
    else packSentences U lim (splitIntoSentences U paragraph) []
  if units.isEmpty then appendOrSplit U lim text else units

/-! ## Chunks -/

/-- The units joined to chunks, as many together as fit. -/
def packUnits (lim : ChunkSize) : List Text → Text → List Text
  | [], current => nonEmpty current.trimmingCharacters
  | unit :: units, current =>
    if current.isEmpty then packUnits lim units unit
    else
      let candidate := current ++ ['\n', '\n'] ++ unit
      if candidate.length ≤ lim.size then packUnits lim units candidate
      else nonEmpty current.trimmingCharacters ++ packUnits lim units unit

/-- What is put in front of a chunk: the end of the one before it. -/
def overlapPrefix (lim : Limits) (previous : Text) : Text :=
  let previousTail := overlapTail U previous lim.overlap
  if previousTail.isEmpty then [] else previousTail ++ ['\n']

/-- A chunk with its overlap. -/
def mergeOverlap (lim : Limits) (previous chunk : Text) : Text :=
  let merged := overlapPrefix U lim previous ++ chunk
  let merged := if merged.length > lim.size then trimToWordBoundary U merged lim.size else merged
  let merged := merged.trimmingCharacters
  if merged.isEmpty then chunk else merged

def applyOverlap (lim : Limits) (chunks : List Text) : List Text :=
  chunks.mapIdx fun index chunk =>
    match index with
    | 0 => chunk
    | previous + 1 => mergeOverlap U lim (chunks.getD previous []) chunk

/-- `chunkSingle`, up to its overlap. -/
def baseChunks (lim : ChunkSize) (text : Text) : List Text :=
  let units := semanticUnits U lim text
  if units.isEmpty then [] else packUnits lim units []

def chunkSingle (text : Text) (chunkSize overlap : Int) : List Text :=
  let lim := Limits.safe chunkSize overlap
  let baseChunks := baseChunks U lim.toChunkSize text
  if lim.overlap = 0 ∨ baseChunks.length < 2 then baseChunks else applyOverlap U lim baseChunks

def normalize (text : Text) : Text :=
  (Text.replacingOccurrences ['\r', '\n'] ['\n'] text).trimmingCharacters

structure ChunkedTextUnit where
  text : Text
  pageNumber : Option Nat

def chunkWithMetadata (text : Text) (chunkSize overlap : Int) : List ChunkedTextUnit :=
  let normalized := normalize text
  if normalized.isEmpty then []
  else (chunkSingle U normalized chunkSize overlap).map fun t => ⟨t, none⟩

def chunk (text : Text) (chunkSize overlap : Int) : List Text :=
  (chunkWithMetadata U text chunkSize overlap).map ChunkedTextUnit.text

/-- Each page is cut on its own. -/
def chunkPagesWithMetadata (pages : List Text) (chunkSize overlap : Int) : List ChunkedTextUnit :=
  (pages.mapIdx fun pageIndex page =>
    let normalizedPage := normalize page
    if normalizedPage.isEmpty then []
    else (chunkSingle U normalizedPage chunkSize overlap).map fun t => ⟨t, some (pageIndex + 1)⟩).flatten

end SynapsNotes.Knowledge
