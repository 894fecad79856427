import SynapsNotes.Retrieval.Result

/-!
# From messages to a prompt and from a raw answer to a message

`buildMessageHistory` turns the messages on screen, with the retrieved
sources, into the messages of a prompt; `parseThinkTags` takes a raw answer
apart into the answer and the thoughts. Both are pure: a prompt is determined
by the messages it is built from (`buildMessageHistory_tail`).
-/

namespace SynapsNotes.Chat

open Retrieval

variable {E : Type}

/-! ## The prompt -/

/-- What a run retrieved, as `buildMessageHistory` is given it. -/
structure RagContext (E : Type) where
  ragNotes : List (Note E)
  ragChunks : List (KnowledgeChunk E)
  citations : List CitationRef
  retrievalConfidence : RetrievalConfidence

def RagContext.none : RagContext E := ⟨[], [], [], .none⟩

def joined (separator : String) (lines : List String) : String :=
  (lines.intersperse separator).foldl (· ++ ·) ""

def citationLine (citation : CitationRef) : String :=
  match citation.sourceType with
  | .note => "- [" ++ citation.id ++ "] [Note: " ++ citation.title ++ "] " ++ citation.snippet
  | .knowledgeChunk =>
    let chunkText := (citation.chunkIndex.map fun i => " / chunk " ++ toString i).getD ""
    let pageText := (citation.pageNumber.map fun i => " / page " ++ toString i).getD ""
    "- [" ++ citation.id ++ "] [KB: " ++ citation.title ++ pageText ++ chunkText ++ "] " ++
      citation.snippet

/-- The citations of notes and chunks that came without any. -/
def fallbackCitations (notes : List (Note E)) (chunks : List (KnowledgeChunk E)) :
    List CitationRef :=
  (notes.mapIdx fun index note =>
    { id := "S" ++ toString (index + 1)
      sourceType := .note
      title := if (trimmed note.title).isEmpty then "Untitled Note" else note.title
      chunkIndex := Option.none
      pageNumber := Option.none
      noteId := some note.id
      chunkId := Option.none
      snippet := trimmed (prefixOf 550 note.content) }) ++
  (chunks.mapIdx fun index chunk =>
    let rawTitle := (chunk.document.map fun d => trimmed d.title).getD ""
    { id := "S" ++ toString (notes.length + index + 1)
      sourceType := .knowledgeChunk
      title := if rawTitle.isEmpty then "Document" else rawTitle
      chunkIndex := some (chunk.chunkIndex + 1)
      pageNumber := chunk.pageNumber
      noteId := Option.none
      chunkId := some chunk.id
      snippet := trimmed (prefixOf 550 chunk.text) })

def ragContextBlock (rag : RagContext E) : String :=
  if rag.citations.isEmpty then
    joined "\n" ((fallbackCitations rag.ragNotes rag.ragChunks).map citationLine)
  else joined "\n" (rag.citations.map citationLine)

def systemPrompt : String :=
  "You are a helpful assistant.\n" ++
  "Give concise, direct answers.\n" ++
  "Do not output chain-of-thought or reasoning tags such as <think>...</think>.\n" ++
  "If context is insufficient, say you are not sure instead of guessing."

def groundingPrompt : String :=
  "\nUse retrieved knowledge as the primary source for factual claims.\n" ++
  "Cite grounded claims using [S#] references from the retrieved context.\n" ++
  "Never invent a source id."

def systemContent (contextBlock : String) (confidence : RetrievalConfidence)
    (strictGrounding : Bool) : String :=
  if !contextBlock.isEmpty then
    systemPrompt ++ groundingPrompt ++
      (if confidence = .low ∨ confidence = .none then
        "\n\nRetrieved evidence confidence is low. Be explicit about uncertainty when evidence is weak."
       else "") ++
      (if strictGrounding then
        "\n\nStrict grounding mode is ON: do not use facts that are not supported by retrieved context."
       else "")
  else if strictGrounding then
    systemPrompt ++ "\n\nStrict grounding mode is ON. If evidence is missing, answer: \"I don't have enough evidence in your notes or knowledge base.\" and ask for more sources."
  else systemPrompt

/-- A message of a prompt: its `"role"` and its `"content"`. -/
structure PromptMessage where
  role : String
  content : String
  deriving DecidableEq

/-- The prompt message of a message on screen. Templates that ignore the
system role still get the retrieved context, with the last user turn. -/
def promptMessage (contextBlock : String) (isLast : Bool) (msg : ChatMessage) : PromptMessage :=
  { role := msg.role
    content :=
      if !contextBlock.isEmpty && msg.role == "user" && isLast then
        msg.content ++ "\n\nRetrieved context:\n" ++ contextBlock
      else msg.content }

def buildMessageHistory (chatMessages : List ChatMessage) (rag : RagContext E)
    (strictGrounding : Bool) : List PromptMessage :=
  let contextBlock := ragContextBlock rag
  ⟨"system", systemContent contextBlock rag.retrievalConfidence strictGrounding⟩ ::
    chatMessages.mapIdx fun index msg =>
      promptMessage contextBlock (index + 1 == chatMessages.length) msg

/-- After the system message, a prompt holds the messages it is built from,
one each, in their order: all but the last as they are. -/
theorem buildMessageHistory_tail (msgs : List ChatMessage) (rag : RagContext E) (strict : Bool) :
    (buildMessageHistory msgs rag strict).tail.map PromptMessage.role = msgs.map ChatMessage.role ∧
    (buildMessageHistory msgs rag strict).tail.length = msgs.length ∧
    ∀ p ∈ (buildMessageHistory msgs rag strict).tail, ∃ m ∈ msgs, ∃ isLast,
      p = promptMessage (ragContextBlock rag) isLast m := by
  simp only [buildMessageHistory, List.tail_cons]
  refine ⟨?_, List.length_mapIdx, fun p hp => ?_⟩
  · apply List.ext_getElem
    · simp
    · intro i h₁ h₂
      simp [promptMessage]
  · obtain ⟨i, hi, rfl⟩ := List.mem_mapIdx.mp hp
    exact ⟨msgs[i], List.getElem_mem hi, _, rfl⟩

/-! ## The answer -/

/-- The blocks `<think>…</think>` of a text, each up to the first closing tag
after it, taken out: what is left, and what the blocks hold. `skip`
characters of a block are still to be passed over. -/
def thinkBlocks : Nat → Text → Text × List Text
  | _, [] => ([], [])
  | skip + 1, _ :: cs => thinkBlocks skip cs
  | 0, c :: cs =>
    if "<think>".toList.isPrefixOf (c :: cs) then
      match Text.splitFirst "</think>".toList ((c :: cs).drop 7) with
      | some (thought, _) =>
        let r := thinkBlocks (7 + thought.length + 8 - 1) cs
        (r.1, thought :: r.2)
      | Option.none => let r := thinkBlocks 0 cs; (c :: r.1, r.2)
    else let r := thinkBlocks 0 cs; (c :: r.1, r.2)

def controlTokens : List String :=
  ["<|im_start|>", "<|im_end|>", "<|endoftext|>", "</s>", "<|assistant|>", "<|user|>", "<|system|>"]

def sanitizeOutput (content : Text) : Text :=
  Text.trimmingCharacters
    (controlTokens.foldl (fun cleaned token => Text.replacingOccurrences token.toList [] cleaned)
      content)

/-- The answer and the thoughts of a raw answer. -/
def parseThinkTags (text : String) : String × Option String :=
  let r := thinkBlocks 0 text.toList
  (String.ofList (sanitizeOutput r.1),
    if r.2.isEmpty then Option.none else some (joined "\n" (r.2.map String.ofList)))

example : parseThinkTags "<think>a</think> b</s>" = ("b", some "a") := by decide

def autoTitle (text : String) : String :=
  let trimmedText := trimmed text
  if trimmedText.toList.length ≤ 48 then trimmedText else trimmed (prefixOf 48 trimmedText) ++ "..."

end SynapsNotes.Chat
