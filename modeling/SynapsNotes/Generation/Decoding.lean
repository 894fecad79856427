import SynapsNotes.Generation.Loop

/-!
# Pieces and the bytes of their tokens

The three loops decode token by token, and a token whose bytes are no text by
themselves, or more than the buffer holds, becomes the empty piece. The text
that is collected is the decoding of all bytes exactly if there is no such
token among them (`collected_eq_iff`): each that there is leaves the text
shorter, in bytes, than what it stands for.
-/

namespace SynapsNotes.Generation

open Framework

variable {C Token : Type} {L : Llama C Token}

/-- The bytes of the token are the encoding of a text, and fit the buffer. -/
def Whole (L : Llama C Token) (token : Token) : Prop :=
  (utf8Decode (L.tokenBytes token)).isSome ∧ (L.tokenBytes token).length ≤ 256

/-- If the bytes of the tokens are the encoding of a text, then this text was
collected exactly if each token is whole. -/
def DecodesIfWhole (L : Llama C Token) (tokens : List Token) (collected : Text) : Prop :=
  ∀ text, utf8Decode (tokens.flatMap L.tokenBytes) = some text →
    (collected = text ↔ ∀ token ∈ tokens, Whole L token)

theorem utf8_tokenToPiece {token : Token} (h : Whole L token) :
    utf8 (tokenToPiece L token) = L.tokenBytes token := by
  obtain ⟨t, ht⟩ := Option.isSome_iff_exists.mp h.1
  rw [tokenToPiece]
  split
  · rw [ht]
    exact utf8_of_utf8Decode ht
  · rename_i hlen
    have h0 : L.tokenBytes token = [] := List.length_eq_zero_iff.mp (by have := h.2; omega)
    rw [h0]
    rfl

/-- A token that is not whole has bytes, and becomes the empty piece. -/
theorem tokenToPiece_of_not_whole {token : Token} (h : ¬ Whole L token) :
    tokenToPiece L token = [] ∧ 0 < (L.tokenBytes token).length := by
  have hpos : 0 < (L.tokenBytes token).length := by
    by_contra h0
    have hnil : L.tokenBytes token = [] := List.length_eq_zero_iff.mp (by omega)
    refine h ⟨?_, by rw [hnil]; exact Nat.zero_le _⟩
    rw [hnil, show ([] : Bytes) = utf8 [] from rfl, utf8Decode_utf8]
    rfl
  refine ⟨?_, hpos⟩
  rw [tokenToPiece]
  split
  · rename_i hlen
    cases hd : utf8Decode (L.tokenBytes token) with
    | none => rfl
    | some t => exact absurd ⟨by rw [hd]; rfl, hlen.2⟩ h
  · rfl

theorem length_utf8_tokenToPiece_le (token : Token) :
    (utf8 (tokenToPiece L token)).length ≤ (L.tokenBytes token).length := by
  by_cases h : Whole L token
  · rw [utf8_tokenToPiece h]
  · rw [(tokenToPiece_of_not_whole h).1]
    exact Nat.zero_le _

theorem length_utf8_flatMap_le (tokens : List Token) :
    (utf8 (tokens.flatMap (tokenToPiece L))).length ≤ (tokens.flatMap L.tokenBytes).length := by
  induction tokens with
  | nil => exact Nat.le_refl _
  | cons token tokens ih =>
    have := length_utf8_tokenToPiece_le (L := L) token
    simp only [List.flatMap_cons, utf8_append, List.length_append]
    omega

/-- The pieces have the bytes of their tokens exactly if each is whole. -/
theorem utf8_flatMap_eq_iff (tokens : List Token) :
    utf8 (tokens.flatMap (tokenToPiece L)) = tokens.flatMap L.tokenBytes ↔ ∀ token ∈ tokens, Whole L token := by
  induction tokens with
  | nil => exact iff_of_true rfl fun _ h => nomatch h
  | cons token tokens ih =>
    simp only [List.flatMap_cons, utf8_append, List.mem_cons, forall_eq_or_imp]
    by_cases h : Whole L token
    · rw [utf8_tokenToPiece h, List.append_cancel_left_eq, ih]
      exact ⟨fun hall => ⟨h, hall⟩, fun hall => hall.2⟩
    · refine iff_of_false (fun heq => ?_) fun hall => h hall.1
      obtain ⟨hnil, hpos⟩ := tokenToPiece_of_not_whole h
      have hle := length_utf8_flatMap_le (L := L) tokens
      have hlen := congrArg List.length heq
      rw [hnil, List.length_append, List.length_append] at hlen
      simp only [utf8, List.flatMap_nil, List.length_nil] at hlen hle
      omega

theorem collected_eq_iff (tokens : List Token) :
    DecodesIfWhole L tokens (tokens.flatMap (tokenToPiece L)) := by
  intro text htext
  rw [← utf8_flatMap_eq_iff, ← utf8_of_utf8Decode htext]
  exact ⟨fun h => h ▸ rfl, utf8_injective⟩

/-! ## The loops -/

theorem buffer_decodes (maxTokens : ℕ) (stops : List Text) (context : C) (n_cur : ℕ) (flags : List Bool) :
    (loop L maxTokens stops).Always (fun s => DecodesIfWhole L s.drawn s.generatedTextBuffer)
      (.start context n_cur) flags := by
  refine (Machine.always_of_invariant (fun s b s' h he => Kept.step h he)
    (kept_start L context n_cur) flags).mono fun s h => ?_
  rw [h.buffer]
  exact collected_eq_iff _

/-- In every state of every run of the three loops: if the bytes of the tokens
yielded, or drawn, are the encoding of a text, then that text was streamed, or
collected, exactly if each token is whole. -/
theorem loops_decode_iff_whole (L : Llama C Token) (maxTokens : ℕ) (stops : List Text) (context : C)
    (n_cur : ℕ) (flags : List Bool) :
    (completionLoop L maxTokens).Always (fun s => DecodesIfWhole L s.yielded (s.streamed L))
      (.start context n_cur) flags ∧
    (generateTextLoop L maxTokens).Always (fun s => DecodesIfWhole L s.drawn s.generatedTextBuffer)
      (.start context n_cur) flags ∧
    (sampleTextLoop L maxTokens stops).Always (fun s => DecodesIfWhole L s.drawn s.generatedTextBuffer)
      (.start context n_cur) flags := by
  refine ⟨?_, buffer_decodes _ _ _ _ _, buffer_decodes _ _ _ _ _⟩
  exact (Machine.always_of_invariant (I := fun _ => True) (fun _ _ _ _ _ => trivial) trivial flags).mono
    fun s _ => collected_eq_iff s.yielded

/-- A model that writes given bytes, one list of them a token. -/
def Llama.bytes : Llama (List Bytes) Bytes where
  tokenize _ := []
  memoryClear context := context
  n_ctx := 4096
  n_batch := 512
  decode context _ := some context.tail
  sample context := (context.headD [], context)
  isEog token := token.isEmpty
  tokenBytes token := token

/-- The two bytes of `é`, a token each, are streamed as nothing. -/
theorem split_character_is_lost :
    ¬ (completionLoop .bytes 768).Always
      (fun s => ∀ text, utf8Decode (s.yielded.flatMap Llama.bytes.tokenBytes) = some text →
        s.streamed .bytes = text)
      (.start [[0xC3], [0xA9]] 0) [false, false] := by
  intro h
  have hlost := h.last rfl ['é'] (by decide +kernel)
  revert hlost
  decide +kernel

end SynapsNotes.Generation
