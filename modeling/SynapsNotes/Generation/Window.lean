import SynapsNotes.Generation.Feeding
import SynapsNotes.Retrieval.Result

/-!
# Texts longer than the context window

`completion` cuts its prompt to the context window. `embed` and `generateText`
feed all tokens of a text, in the same chunks: a text with more tokens than the
window has positions beyond it, and is neither embedded nor refined
(`inWindow_iff`).
-/

namespace SynapsNotes.Generation

open Framework SynapsNotes.Runtime FloatLike

variable {C Token : Type}

def embedChunkSize (L : Llama C Token) : ℕ := max 1 (min L.n_batch 1024)

/-- The vector of length one, of a vector that is not zero. -/
def normalized {α : Type} [FloatLike α] (embeddings : List α) : List α :=
  let sumSq := embeddings.foldl (fun sum x => sum + x * x) (lit 0)
  let norm := FloatLike.sqrt sumSq
  if norm > lit 0 then embeddings.map (· / norm) else embeddings

/-- `embed`: the batches handed over, and what comes of them. What
`llama_get_embeddings` returns is a parameter. -/
def embedFeed {α : Type} [FloatLike α] (L : Llama C Token) (getEmbeddings : C → Option (List α)) (text : String)
    (context : C) : List (Batch Token) × Except LlamaError (List α) :=
  let tokens := L.tokenize text
  if tokens.isEmpty then ([], .ok [])
  else
    let fed := decodeBatches L (embedChunkSize L) (L.memoryClear context) (promptBatches (embedChunkSize L) tokens)
    (fed.1, fed.2.bind fun context =>
      match getEmbeddings context with
      | none => .error .noEmbeddings
      | some embeddings => .ok (normalized embeddings))

/-- `generateText`: the batches handed over, and what comes of them in this
many passes. -/
def generateTextFeed (L : Llama C Token) (prompt : String) (maxTokens passes : ℕ) (context : C) :
    List (Batch Token) × Except LlamaError Text :=
  let tokens := L.tokenize prompt
  if tokens.isEmpty then ([], .ok [])
  else
    let fed := decodeBatches L (chunkSize L) (L.memoryClear context) (promptBatches (chunkSize L) tokens)
    match fed.2 with
    | .error e => (fed.1, .error e)
    | .ok context =>
      let generated := feedLoop L maxTokens [] (List.replicate passes false) (.start context tokens.length)
      (fed.1 ++ generated.1,
        match generated.2.ended with
        | some (.failed e) => .error e
        | _ => .ok (generateTextResult generated.2))

/-- Every token is handed over at a position in the context window. -/
def InWindow (L : Llama C Token) (batches : List (Batch Token)) : Prop :=
  ∀ batch ∈ batches, ∀ e ∈ batch, e.pos < L.n_ctx

section Window

variable {L : Llama C Token} {size : ℕ} {context : C} {promptTokens : List Token}
  {batches batches' : List (Batch Token)}

theorem inWindow_iff_flatten : InWindow L batches ↔ ∀ e ∈ batches.flatten, e.pos < L.n_ctx := by
  simp only [InWindow, List.mem_flatten]
  exact ⟨fun h e ⟨batch, hb, he⟩ => h batch hb e he, fun h batch hb e he => h e ⟨batch, hb, he⟩⟩

theorem inWindow_promptBatches_iff (L : Llama C Token) (hsize : 0 < size) (promptTokens : List Token) :
    InWindow L (promptBatches size promptTokens) ↔ promptTokens.length ≤ L.n_ctx := by
  rw [inWindow_iff_flatten, flatten_promptBatches hsize]
  constructor
  · intro h
    cases hn : promptTokens.length with
    | zero => exact Nat.zero_le _
    | succ n =>
      have hlast : n < (promptEntries promptTokens).length := by
        rw [promptEntries, List.length_mapIdx]
        omega
      have hpos := h _ (List.getElem_mem hlast)
      simp only [promptEntries, List.getElem_mapIdx] at hpos
      exact hpos
  · exact fun h e he => (pos_promptEntries_lt he).trans_le h

/-- Where `llama_decode` takes what lies in the window and nothing else, all
batches are handed over and taken, or one that lies beyond it is handed over
and refused. -/
theorem decodeBatches_window
    (hdecode : ∀ context batch, (L.decode context batch).isSome ↔ ∀ e ∈ batch, e.pos < L.n_ctx)
    (hlength : ∀ batch ∈ batches, batch.length ≤ size) (context : C) :
    (InWindow L batches ∧ (decodeBatches L size context batches).1 = batches ∧
        ∃ context', (decodeBatches L size context batches).2 = .ok context') ∨
      (¬ InWindow L batches ∧ ¬ InWindow L (decodeBatches L size context batches).1 ∧
        (decodeBatches L size context batches).2 = .error .decodeFailed) := by
  induction batches generalizing context with
  | nil => exact .inl ⟨fun batch hb => (by cases hb), rfl, context, rfl⟩
  | cons entries rest ih =>
    have hbuild : entries.foldlM (batchAdd size) [] = some entries :=
      foldlM_batchAdd (by simpa using hlength entries List.mem_cons_self)
    have hentries := hdecode context entries
    rw [decodeBatches, hbuild]
    dsimp only
    cases hcontext : L.decode context entries with
    | none =>
      rw [hcontext, Option.isSome_none] at hentries
      have hout : ∀ batches, ¬ InWindow L (entries :: batches) := fun batches h =>
        absurd (hentries.mpr (h entries List.mem_cons_self)) Bool.false_ne_true
      exact .inr ⟨hout rest, hout [], rfl⟩
    | some context' =>
      rw [hcontext, Option.isSome_some] at hentries
      have hin : ∀ e ∈ entries, e.pos < L.n_ctx := hentries.mp rfl
      have hcons : ∀ batches, InWindow L (entries :: batches) ↔ InWindow L batches := fun batches => by
        rw [InWindow, List.forall_mem_cons]
        exact and_iff_right hin
      obtain ⟨hrest, hfed, hok⟩ | ⟨hrest, hfed, herror⟩ :=
        ih (fun batch hb => hlength batch (List.mem_cons_of_mem _ hb)) context'
      · exact .inl ⟨(hcons rest).mpr hrest, congrArg (entries :: ·) hfed, hok⟩
      · exact .inr ⟨mt (hcons rest).mp hrest, mt (hcons _).mp hfed, herror⟩

/-- Batches in the window are handed over in the window. -/
theorem decodeBatches_inWindow (hlength : ∀ batch ∈ batches, batch.length ≤ size) (h : InWindow L batches)
    (context : C) : InWindow L (decodeBatches L size context batches).1 := by
  obtain ⟨hfed, -⟩ | ⟨hfed, -⟩ := decodeBatches_cases (L := L) hlength context
  · rwa [hfed]
  · exact fun batch hb => h batch (hfed.subset hb)

theorem InWindow.append (h : InWindow L batches) (h' : InWindow L batches') : InWindow L (batches ++ batches') :=
  fun batch hb => (List.mem_append.mp hb).elim (h batch) (h' batch)

section Loop

variable (maxTokens : ℕ) (stops : List Text) (stopRequested : Bool) (flags : List Bool) {s : LoopState C Token}

theorem passBatch_inWindow (hs : s.ended = none) :
    InWindow L (passBatch L maxTokens stops stopRequested s).toList := by
  obtain ⟨hb, -⟩ | ⟨hb, -, -, hwindow, -⟩ := pass_fed L maxTokens stops stopRequested hs
  · rw [hb]
    exact fun batch hb => (by cases hb)
  · rw [hb, Option.toList_some, InWindow, List.forall_mem_singleton, List.forall_mem_singleton]
    exact hwindow

/-- The loop stays in the window. -/
theorem feedLoop_inWindow (s : LoopState C Token) : InWindow L (feedLoop L maxTokens stops flags s).1 := by
  induction flags generalizing s with
  | nil => exact fun batch hb => (by cases hb)
  | cons stopRequested flags ih =>
    rw [feedLoop]
    cases hended : s.ended with
    | some e => exact fun batch hb => (by cases hb)
    | none => exact (passBatch_inWindow maxTokens stops stopRequested hended).append (ih _)

/-- Where `llama_decode` takes what lies in the window, it does not refuse the
loop. -/
theorem feedLoop_ended (haccepts : ∀ context batch, (∀ e ∈ batch, e.pos < L.n_ctx) → (L.decode context batch).isSome)
    (hs : ∀ e, s.ended ≠ some (.failed e)) (e : LlamaError) :
    (feedLoop L maxTokens stops flags s).2.ended ≠ some (.failed e) := by
  induction flags generalizing s with
  | nil => exact hs e
  | cons stopRequested flags ih =>
    rw [feedLoop]
    cases hended : s.ended with
    | some ending =>
      rw [if_pos (by simp)]
      exact hs e
    | none =>
      rw [if_neg (by simp)]
      refine ih fun e => ?_
      obtain ⟨-, -, -, -, ending, hlast, hne⟩ | ⟨-, -, -, hwindow, -, -, hlast⟩ :=
        pass_fed L maxTokens stops stopRequested hended
      · rw [hlast]
        exact fun heq => hne e (Option.some.inj heq)
      · have hin : ∀ e ∈ [(⟨(L.sample s.context).1, s.n_cur, true⟩ : BatchEntry Token)], e.pos < L.n_ctx :=
          List.forall_mem_singleton.mpr hwindow
        obtain ⟨context', htaken⟩ := Option.isSome_iff_exists.mp (haccepts (L.sample s.context).2 _ hin)
        rw [htaken] at hlast
        simp [hlast.1]

end Loop

end Window

section Fits

variable {α : Type} [FloatLike α] {L : Llama C Token}

/-- A text is fed within the window, or beyond it and refused, as it has no
more tokens than the window or more. -/
def FitsWindow (L : Llama C Token) (text : String) {β : Type} (fed : List (Batch Token) × Except LlamaError β) : Prop :=
  (InWindow L fed.1 ↔ (L.tokenize text).length ≤ L.n_ctx) ∧
    (fed.2 = .error .decodeFailed ↔ L.n_ctx < (L.tokenize text).length)

theorem embedChunkSize_pos (L : Llama C Token) : 0 < embedChunkSize L := by
  unfold embedChunkSize
  omega

theorem embedFeed_inWindow {text : String} (h : (L.tokenize text).length ≤ L.n_ctx)
    (getEmbeddings : C → Option (List α)) (context : C) :
    InWindow L (embedFeed L getEmbeddings text context).1 := by
  simp only [embedFeed]
  split
  · exact fun batch hb => (by cases hb)
  · exact decodeBatches_inWindow (length_promptBatches_le _ _)
      ((inWindow_promptBatches_iff L (embedChunkSize_pos L) _).mpr h) _

theorem generateTextFeed_inWindow {prompt : String} (h : (L.tokenize prompt).length ≤ L.n_ctx)
    (maxTokens passes : ℕ) (context : C) :
    InWindow L (generateTextFeed L prompt maxTokens passes context).1 := by
  have hprompt := decodeBatches_inWindow (length_promptBatches_le _ _)
    ((inWindow_promptBatches_iff L (chunkSize_pos L) _).mpr h) (L.memoryClear context)
  simp only [generateTextFeed]
  split
  · exact fun batch hb => (by cases hb)
  · split
    · exact hprompt
    · exact hprompt.append (feedLoop_inWindow maxTokens [] _ _)

/-- The prompt of `generateTextFeed` is that of `generateText`. -/
theorem generateTextFeed_error {prompt : String} {context : C} {e : LlamaError}
    (h : beginGenerateText L prompt context = .error e) (maxTokens passes : ℕ) :
    (generateTextFeed L prompt maxTokens passes context).2 = .error e := by
  simp only [beginGenerateText, decodePrompt_eq] at h
  simp only [generateTextFeed]
  split at h
  · cases h
  · rename_i hne
    rw [if_neg hne]
    split
    · rename_i e' he
      rw [he] at h
      exact congrArg Except.error (Except.error.inj h)
    · rename_i context' hok
      rw [hok] at h
      cases h

/-- The loop of `generateTextFeed` is that of `generateText`. -/
theorem generateTextFeed_ok {prompt : String} {context : C} {maxTokens passes : ℕ} {s₀ s : LoopState C Token}
    (h₀ : beginGenerateText L prompt context = .ok (some s₀))
    (h : (generateTextLoop L maxTokens).run s₀ (List.replicate passes false) = some s)
    (hended : ∀ e, s.ended ≠ some (.failed e)) :
    (generateTextFeed L prompt maxTokens passes context).2 = .ok (generateTextResult s) := by
  simp only [beginGenerateText, decodePrompt_eq] at h₀
  simp only [generateTextFeed]
  split at h₀
  · cases h₀
  · rename_i hne
    rw [if_neg hne]
    split
    · rename_i e he
      rw [he] at h₀
      cases h₀
    · rename_i context' hok
      rw [hok] at h₀
      obtain rfl := Option.some.inj (Except.ok.inj h₀)
      rw [feedLoop_snd h]
      split
      · rename_i e he
        exact absurd he (hended e)
      · rfl

theorem embedFeed_fits (hdecode : ∀ context batch, (L.decode context batch).isSome ↔ ∀ e ∈ batch, e.pos < L.n_ctx)
    (getEmbeddings : C → Option (List α)) (text : String) (context : C) :
    FitsWindow L text (embedFeed L getEmbeddings text context) := by
  have hiff := inWindow_promptBatches_iff L (embedChunkSize_pos L) (L.tokenize text)
  simp only [FitsWindow, embedFeed]
  split
  · rename_i hempty
    rw [List.isEmpty_iff.mp hempty]
    exact ⟨iff_of_true (fun batch hb => (by cases hb)) (Nat.zero_le _), iff_of_false (by simp) (by simp)⟩
  · obtain ⟨hin, hfed, context', hok⟩ | ⟨hout, hfed, herror⟩ := decodeBatches_window hdecode
      (length_promptBatches_le (embedChunkSize L) (L.tokenize text)) (L.memoryClear context)
    · rw [hfed, hok]
      refine ⟨hiff, iff_of_false ?_ (not_lt.mpr (hiff.mp hin))⟩
      show (match getEmbeddings context' with | none => _ | some embeddings => _ : Except LlamaError (List α)) ≠ _
      split <;> simp
    · rw [herror]
      exact ⟨iff_of_false hfed (mt hiff.mpr hout), iff_of_true rfl (not_le.mp (mt hiff.mpr hout))⟩

theorem generateTextFeed_fits
    (hdecode : ∀ context batch, (L.decode context batch).isSome ↔ ∀ e ∈ batch, e.pos < L.n_ctx)
    (prompt : String) (maxTokens passes : ℕ) (context : C) :
    FitsWindow L prompt (generateTextFeed L prompt maxTokens passes context) := by
  have hiff := inWindow_promptBatches_iff L (chunkSize_pos L) (L.tokenize prompt)
  simp only [FitsWindow, generateTextFeed]
  split
  · rename_i hempty
    rw [List.isEmpty_iff.mp hempty]
    exact ⟨iff_of_true (fun batch hb => (by cases hb)) (Nat.zero_le _), iff_of_false (by simp) (by simp)⟩
  · obtain ⟨hin, hfed, context', hok⟩ | ⟨hout, hfed, herror⟩ := decodeBatches_window hdecode
      (length_promptBatches_le (chunkSize L) (L.tokenize prompt)) (L.memoryClear context)
    · have hended := feedLoop_ended maxTokens [] (List.replicate passes false) (fun c b => (hdecode c b).mpr)
        (s := .start context' (L.tokenize prompt).length) (by simp [LoopState.start])
      rw [hfed, hok]
      dsimp only
      refine ⟨iff_of_true (hin.append (feedLoop_inWindow _ _ _ _)) (hiff.mp hin), iff_of_false ?_
        (not_lt.mpr (hiff.mp hin))⟩
      split
      · rename_i e he
        exact absurd he (hended e)
      · simp
    · rw [herror]
      exact ⟨iff_of_false hfed (mt hiff.mpr hout), iff_of_true rfl (not_le.mp (mt hiff.mpr hout))⟩

/-- For every text and every llama.cpp: `completion` stays in the window, and
`embed` and `generateText` do for a text with no more tokens than the window.
Where `llama_decode` takes what lies in the window and nothing else, they do
for no other, which are refused. -/
theorem inWindow_iff (L : Llama C Token) (hctx : 1 ≤ L.n_ctx) (getEmbeddings : C → Option (List α)) (text : String)
    (limit : ℤ) (maxTokens passes : ℕ) (flags : List Bool) (context : C) :
    InWindow L (completionFeed L text limit flags context).1 ∧
      ((L.tokenize text).length ≤ L.n_ctx → InWindow L (embedFeed L getEmbeddings text context).1 ∧
        InWindow L (generateTextFeed L text maxTokens passes context).1) ∧
      ((∀ context batch, (L.decode context batch).isSome ↔ ∀ e ∈ batch, e.pos < L.n_ctx) →
        FitsWindow L text (embedFeed L getEmbeddings text context) ∧
          FitsWindow L text (generateTextFeed L text maxTokens passes context)) := by
  refine ⟨?_, fun h => ⟨?_, ?_⟩, fun hdecode => ⟨?_, ?_⟩⟩
  · rw [inWindow_iff_flatten]
    exact fun e he => pos_completionFeed_lt hctx he
  · exact embedFeed_inWindow h getEmbeddings context
  · exact generateTextFeed_inWindow h maxTokens passes context
  · exact embedFeed_fits hdecode getEmbeddings text context
  · exact generateTextFeed_fits hdecode text maxTokens passes context

end Fits

/-- A llama that takes what lies in its window of four tokens. -/
def Llama.windowed : Llama (Batch ℕ) ℕ :=
  { Llama.noting with
    decode := fun fed batch => if ∀ e ∈ batch, e.pos < 4 then some (fed ++ batch) else none }

theorem windowed_inWindow :
    InWindow .windowed (completionFeed .windowed "abcd" 8 [false] []).1 ∧
      (4 ≤ 4 → InWindow .windowed (embedFeed .windowed (fun _ => some [(3 : ℚ), 4]) "abcd" []).1 ∧
        InWindow .windowed (generateTextFeed .windowed "abcd" 8 1 []).1) ∧
      FitsWindow .windowed "abcd" (embedFeed .windowed (fun _ => some [(3 : ℚ), 4]) "abcd" []) ∧
      FitsWindow .windowed "abcd" (generateTextFeed .windowed "abcd" 8 1 []) := by
  obtain ⟨hcompletion, hshort, hfits⟩ :=
    inWindow_iff Llama.windowed (by decide) (fun _ => some [(3 : ℚ), 4]) "abcd" 8 8 1 [false] []
  refine ⟨hcompletion, hshort, hfits fun context batch => ?_⟩
  simp only [Llama.windowed]
  split
  · rename_i h
    exact iff_of_true rfl h
  · rename_i h
    exact iff_of_false (by simp) h

/-- A text of five tokens is fed beyond the window, and refused. -/
theorem embed_beyond_window :
    ¬ InWindow .windowed (embedFeed .windowed (fun _ => some [(3 : ℚ), 4]) "abcde" []).1 ∧
      (embedFeed .windowed (fun _ => some [(3 : ℚ), 4]) "abcde" []).2 = .error .decodeFailed ∧
      ¬ InWindow .windowed (generateTextFeed .windowed "abcde" 8 1 []).1 ∧
      (generateTextFeed .windowed "abcde" 8 1 []).2 = .error .decodeFailed := by
  unfold InWindow
  decide +kernel

end SynapsNotes.Generation
