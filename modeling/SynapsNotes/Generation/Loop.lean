import SynapsNotes.Foundation.Encoding
import SynapsNotes.Foundation.Search
import SynapsNotes.Framework.Transition
import SynapsNotes.Runtime.Llama

/-!
# The generation loops of the llama actor

`completion`, `generateText` and `sampleText` decode a prompt in batches and
then draw token after token. Their loops are one loop (`pass` is one pass of
it) with different stop sequences and limits; what they return is made of the
pieces that were yielded, or of the buffer. llama.cpp is a parameter: its
context and its sampler together are the type `C`.

`pass_cases` says all that a pass can do, and `Kept` what follows for the
tokens drawn and yielded over a run.
-/

namespace SynapsNotes.Generation

open Framework SynapsNotes.Runtime

/-- An entry of a batch. -/
structure BatchEntry (Token : Type) where
  token : Token
  pos : ℕ
  logits : Bool
  deriving DecidableEq

/-- What the loops use of llama.cpp. A `decode` that fails gives no context. -/
structure Llama (C Token : Type) where
  tokenize : String → List Token
  memoryClear : C → C
  n_ctx : ℕ
  n_batch : ℕ
  decode : C → List (BatchEntry Token) → Option C
  sample : C → Token × C
  isEog : Token → Bool
  tokenBytes : Token → Bytes

variable {C Token : Type}

/-! ## Batches -/

def batchAdd (batchCapacity : ℕ) (batch : List (BatchEntry Token)) (e : BatchEntry Token) :
    Option (List (BatchEntry Token)) :=
  if batch.length ≥ batchCapacity then none else some (batch ++ [e])

def decodeBatch (L : Llama C Token) (batchCapacity : ℕ) (context : C) (entries : List (BatchEntry Token)) :
    Except LlamaError C :=
  match entries.foldlM (batchAdd batchCapacity) [] with
  | none => .error .batchOverflow
  | some batch =>
    match L.decode context batch with
    | none => .error .decodeFailed
    | some context => .ok context

def chunkSize (L : Llama C Token) : ℕ := max 1 (min 512 L.n_batch)

/-- The prompt, in chunks; only its last token asks for logits. -/
def decodePrompt (L : Llama C Token) (context : C) (promptTokens : List Token) : Except LlamaError C :=
  let entries := promptTokens.mapIdx fun i token => ⟨token, i, i + 1 == promptTokens.length⟩
  (List.range ((promptTokens.length + chunkSize L - 1) / chunkSize L)).foldlM
    (fun context i => decodeBatch L (chunkSize L) context ((entries.drop (i * chunkSize L)).take (chunkSize L)))
    context

/-! ## The loop -/

/-- The piece of a token that fits the buffer of 256 bytes. -/
def tokenToPiece (L : Llama C Token) (token : Token) : Text :=
  let bytes := L.tokenBytes token
  if 0 < bytes.length ∧ bytes.length ≤ 256 then (utf8Decode bytes).getD [] else []

inductive Ending
  | limit
  | stopped
  | endOfGeneration
  | stopSequence
  | failed (error : LlamaError)
  deriving DecidableEq

/-- The variables of the loop: `generatedTextBuffer` is called `output` in
`generateText` and `sampleText`. -/
structure LoopState (C Token : Type) where
  context : C
  n_cur : ℕ
  n_decode : ℕ
  generatedTextBuffer : Text
  drawn : List Token
  yielded : List Token
  ended : Option Ending

def LoopState.start (context : C) (n_cur : ℕ) : LoopState C Token := ⟨context, n_cur, 0, [], [], [], none⟩

def shouldStop (stopSequences : List Text) (generatedTextBuffer piece : Text) : Bool :=
  stopSequences.any fun seq => seq.isSuffixOf generatedTextBuffer || Text.containsText seq piece

/-- Appending a token to the context: the end of a pass. -/
def advance (L : Llama C Token) (newTokenId : Token) (s : LoopState C Token) : LoopState C Token :=
  match batchAdd (chunkSize L) [] ⟨newTokenId, s.n_cur, true⟩ with
  | none => { s with ended := some (.failed .batchOverflow) }
  | some batch =>
    let s := { s with n_cur := s.n_cur + 1, n_decode := s.n_decode + 1 }
    match L.decode s.context batch with
    | none => { s with ended := some (.failed .decodeFailed) }
    | some context => { s with context }

/-- One pass of the loop, and its end where the loop ends. -/
def pass (L : Llama C Token) (maxTokens : ℕ) (stopSequences : List Text) (stopRequested : Bool)
    (s : LoopState C Token) : LoopState C Token :=
  if s.n_decode < maxTokens ∧ s.n_cur < L.n_ctx then
    if stopRequested then { s with ended := some .stopped }
    else
      let (newTokenId, context) := L.sample s.context
      if L.isEog newTokenId then { s with context, ended := some .endOfGeneration }
      else
        let piece := tokenToPiece L newTokenId
        let s := { s with
          context
          generatedTextBuffer := s.generatedTextBuffer ++ piece
          drawn := s.drawn ++ [newTokenId] }
        if shouldStop stopSequences s.generatedTextBuffer piece then { s with ended := some .stopSequence }
        else advance L newTokenId { s with yielded := s.yielded ++ [newTokenId] }
  else { s with ended := some .limit }

/-- The loop, pass by pass. The action is what a pass reads of the stop flag
and of the cancellation of its task. -/
def loop (L : Llama C Token) (maxTokens : ℕ) (stopSequences : List Text) :
    Machine (LoopState C Token) Bool where
  step s stopRequested :=
    if s.ended.isSome then none else some (pass L maxTokens stopSequences stopRequested s)

/-! ## The three loops -/

/-- The stop sequences of `completion`. -/
def stopSequences : List Text :=
  ["<｜User｜>", "<｜Assistant｜>", "<｜end▁of▁sentence｜>", "<|im_end|>", "<|im_start|>", "</s>",
    "<|endoftext|>"].map String.toList

def completionLoop (L : Llama C Token) (maxTokens : ℕ) : Machine (LoopState C Token) Bool :=
  loop L (max 128 (min maxTokens (L.n_ctx - 1))) stopSequences

/-- `completion` up to its loop. -/
def beginCompletion (L : Llama C Token) (prompt : String) (context : C) :
    Except LlamaError (LoopState C Token) :=
  let tokens := L.tokenize prompt
  let maxPromptTokens := max 1 (L.n_ctx - 1)
  let promptTokens := tokens.drop (tokens.length - maxPromptTokens)
  (decodePrompt L (L.memoryClear context) promptTokens).map fun context => .start context promptTokens.length

/-- `generateText` up to its loop, which an empty prompt does not reach. -/
def beginGenerateText (L : Llama C Token) (prompt : String) (context : C) :
    Except LlamaError (Option (LoopState C Token)) :=
  let tokens := L.tokenize prompt
  if tokens.isEmpty then .ok none
  else (decodePrompt L (L.memoryClear context) tokens).map fun context =>
    some (.start context tokens.length)

/-- `generateText` has no stop sequences. -/
def generateTextLoop (L : Llama C Token) (maxTokens : ℕ) : Machine (LoopState C Token) Bool :=
  loop L maxTokens []

def generateTextResult (s : LoopState C Token) : Text := s.generatedTextBuffer.trimmingCharacters

/-- `sampleText` keeps the piece that holds a stop sequence, and takes the
stop sequences out in the end. -/
def sampleTextLoop (L : Llama C Token) (maxTokens : ℕ) (stopSequences : List Text) :
    Machine (LoopState C Token) Bool :=
  loop L maxTokens stopSequences

def sampleTextResult (stopSequences : List Text) (s : LoopState C Token) : Text :=
  (stopSequences.foldl (fun cleaned token => cleaned.replacingOccurrences token []) s.generatedTextBuffer).trimmingCharacters

/-! ## What a pass does -/

/-- The pieces drawn so far. -/
def LoopState.pieces (L : Llama C Token) (s : LoopState C Token) : List Text := s.drawn.map (tokenToPiece L)

/-- The pieces yielded so far, as one text. -/
def LoopState.streamed (L : Llama C Token) (s : LoopState C Token) : Text :=
  s.yielded.flatMap (tokenToPiece L)

variable {L : Llama C Token} {maxTokens : ℕ} {stops : List Text} {stopRequested : Bool}
  {s s' : LoopState C Token}

theorem advance_spec (L : Llama C Token) (token : Token) (s : LoopState C Token) :
    (advance L token s).generatedTextBuffer = s.generatedTextBuffer ∧
      (advance L token s).drawn = s.drawn ∧ (advance L token s).yielded = s.yielded ∧
      ((∃ e, (advance L token s).ended = some (.failed e)) ∨
        (advance L token s).ended = s.ended ∧ (advance L token s).n_decode = s.n_decode + 1) := by
  rw [advance]
  split
  · exact ⟨rfl, rfl, rfl, .inl ⟨_, rfl⟩⟩
  · dsimp only
    split
    · exact ⟨rfl, rfl, rfl, .inl ⟨_, rfl⟩⟩
    · exact ⟨rfl, rfl, rfl, .inr ⟨rfl, rfl⟩⟩

/-- A pass ends the loop before it takes a token, or takes a token and ends
the loop with its piece, or takes a token, yields it and goes on unless the
context cannot take it. -/
theorem pass_cases (L : Llama C Token) (maxTokens : ℕ) (stops : List Text) (stopRequested : Bool)
    {s : LoopState C Token} (hs : s.ended = none) :
    let s' := pass L maxTokens stops stopRequested s
    (∃ e, s'.ended = some e ∧ e ≠ .stopSequence ∧ s'.generatedTextBuffer = s.generatedTextBuffer ∧
      s'.drawn = s.drawn ∧ s'.yielded = s.yielded) ∨
    (∃ token, let buffer := s.generatedTextBuffer ++ tokenToPiece L token
      s'.generatedTextBuffer = buffer ∧ s'.drawn = s.drawn ++ [token] ∧
      (shouldStop stops buffer (tokenToPiece L token) = true ∧ s'.ended = some .stopSequence ∧
        s'.yielded = s.yielded ∨
       shouldStop stops buffer (tokenToPiece L token) = false ∧ s'.yielded = s.yielded ++ [token] ∧
        ((∃ e, s'.ended = some (.failed e)) ∨
          s'.ended = none ∧ s'.n_decode = s.n_decode + 1 ∧ s.n_decode < maxTokens))) := by
  simp only [pass]
  split
  · rename_i hlimit
    split
    · exact .inl ⟨_, rfl, by decide, rfl, rfl, rfl⟩
    · split
      · exact .inl ⟨_, rfl, by decide, rfl, rfl, rfl⟩
      · refine .inr ⟨(L.sample s.context).1, ?_⟩
        split
        · rename_i hstop
          exact ⟨rfl, rfl, .inl ⟨hstop, rfl, rfl⟩⟩
        · rename_i hstop
          obtain ⟨hbuffer, hdrawn, hyielded, hended⟩ := advance_spec L (L.sample s.context).1
            { s with
              context := (L.sample s.context).2
              generatedTextBuffer := s.generatedTextBuffer ++ tokenToPiece L (L.sample s.context).1
              drawn := s.drawn ++ [(L.sample s.context).1]
              yielded := s.yielded ++ [(L.sample s.context).1] }
          refine ⟨hbuffer, hdrawn, .inr ⟨Bool.not_eq_true _ ▸ hstop, hyielded, ?_⟩⟩
          exact hended.imp_right fun h => ⟨h.1.trans hs, h.2, hlimit.1⟩
  · exact .inl ⟨_, rfl, by decide, rfl, rfl, rfl⟩

/-- What the loop keeps: the buffer is made of the pieces drawn, and every
piece drawn was yielded, up to the one that holds a stop sequence. -/
structure Kept (L : Llama C Token) (s : LoopState C Token) : Prop where
  buffer : s.generatedTextBuffer = s.drawn.flatMap (tokenToPiece L)
  yielded : s.ended ≠ some .stopSequence → s.yielded = s.drawn

theorem kept_start (L : Llama C Token) (context : C) (n_cur : ℕ) :
    Kept L (.start context n_cur : LoopState C Token) := ⟨rfl, fun _ => rfl⟩

theorem step_eq {s s' : LoopState C Token} (he : (loop L maxTokens stops).step s stopRequested = some s') :
    s.ended = none ∧ s' = pass L maxTokens stops stopRequested s := by
  simp only [loop] at he
  split at he
  · exact nomatch he
  · rename_i h
    cases he
    exact ⟨by simpa using h, rfl⟩

theorem Kept.step (h : Kept L s) (he : (loop L maxTokens stops).step s stopRequested = some s') :
    Kept L s' := by
  obtain ⟨hnone, rfl⟩ := step_eq he
  have hyielded := h.yielded (by rw [hnone]; exact nofun)
  rcases pass_cases L maxTokens stops stopRequested hnone with
    ⟨e, hended, hne, hb, hd, hy⟩ | ⟨token, hb, hd, ⟨_, hended, hy⟩ | ⟨_, hy, _⟩⟩
  · exact ⟨by rw [hb, hd, h.buffer], fun _ => by rw [hy, hd, hyielded]⟩
  · exact ⟨by simp [hb, hd, h.buffer], fun hne => absurd hended hne⟩
  · exact ⟨by simp [hb, hd, h.buffer], fun _ => by rw [hy, hd, hyielded]⟩

/-- The loop ends, after one pass more than it may draw tokens. -/
theorem length_le_of_run {flags : List Bool} (hs : s.ended = none)
    (hr : (loop L maxTokens stops).run s flags = some s') :
    flags.length ≤ maxTokens - s.n_decode + 1 := by
  induction flags generalizing s with
  | nil => exact Nat.zero_le _
  | cons stopRequested flags ih =>
    obtain ⟨t, he, hr⟩ := Machine.run_cons.mp hr
    have hlast (hended : t.ended.isSome) : flags = [] := by
      cases flags with
      | nil => rfl
      | cons b flags =>
        obtain ⟨u, hu, _⟩ := Machine.run_cons.mp hr
        rw [(step_eq hu).1] at hended
        exact nomatch hended
    obtain ⟨-, rfl⟩ := step_eq he
    rcases pass_cases L maxTokens stops stopRequested hs with
      ⟨e, hended, _⟩ | ⟨token, _, _, ⟨_, hended, _⟩ | ⟨_, _, ⟨e, hended⟩ | ⟨hended, hn, hlt⟩⟩⟩
    · simp [hlast (by rw [hended]; rfl)]
    · simp [hlast (by rw [hended]; rfl)]
    · simp [hlast (by rw [hended]; rfl)]
    · have := ih hended hr
      rw [hn] at this
      simp only [List.length_cons]
      omega

end SynapsNotes.Generation
