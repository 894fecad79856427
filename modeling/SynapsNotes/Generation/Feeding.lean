import SynapsNotes.Framework.Pieces
import SynapsNotes.Generation.Loop

/-!
# What llama.cpp is fed

`completion` hands its prompt to `llama_decode` in chunks and then one batch
for each token it draws. The batches are listed here beside what comes of them
(`decodeBatches`, `feedLoop`), also the one that `llama_decode` refuses. Put
together they are the end of the prompt and the tokens drawn, at the positions
0, 1, 2, …, each in the context window (`completion_feeds`).
-/

namespace SynapsNotes.Generation

open Framework SynapsNotes.Runtime

variable {C Token : Type}

/-- A batch as it is handed to `llama_decode`. -/
abbrev Batch (Token : Type) := List (BatchEntry Token)

/-! ## The batches of a prompt -/

/-- The batches one after another: those handed to `llama_decode`, and what
comes of them. -/
def decodeBatches (L : Llama C Token) (batchCapacity : ℕ) :
    C → List (Batch Token) → List (Batch Token) × Except LlamaError C
  | context, [] => ([], .ok context)
  | context, entries :: rest =>
    match entries.foldlM (batchAdd batchCapacity) [] with
    | none => ([], .error .batchOverflow)
    | some batch =>
      match L.decode context batch with
      | none => ([batch], .error .decodeFailed)
      | some context =>
        let fed := decodeBatches L batchCapacity context rest
        (batch :: fed.1, fed.2)

/-- The entries of a prompt, which asks for logits at its last token. -/
def promptEntries (promptTokens : List Token) : List (BatchEntry Token) :=
  promptTokens.mapIdx fun i token => ⟨token, i, i + 1 == promptTokens.length⟩

/-- The chunks of a prompt. -/
def promptBatches (chunkSize : ℕ) (promptTokens : List Token) : List (Batch Token) :=
  (List.range ((promptTokens.length + chunkSize - 1) / chunkSize)).map
    (piece chunkSize (promptEntries promptTokens))

section Prompt

variable {L : Llama C Token} {capacity : ℕ} {context : C}

theorem decodeBatches_snd (L : Llama C Token) (capacity : ℕ) (context : C) (batches : List (Batch Token)) :
    (decodeBatches L capacity context batches).2 = batches.foldlM (decodeBatch L capacity) context := by
  induction batches generalizing context with
  | nil => rfl
  | cons entries rest ih =>
    rw [decodeBatches, List.foldlM_cons, decodeBatch]
    cases hbuild : entries.foldlM (batchAdd capacity) [] with
    | none => rfl
    | some batch =>
      dsimp only
      cases hdecode : L.decode context batch with
      | none => rfl
      | some context => exact ih context

/-- `decodePrompt` hands over the chunks of the prompt. -/
theorem decodePrompt_eq (L : Llama C Token) (context : C) (promptTokens : List Token) :
    decodePrompt L context promptTokens =
      (decodeBatches L (chunkSize L) context (promptBatches (chunkSize L) promptTokens)).2 := by
  rw [decodeBatches_snd, promptBatches, List.foldlM_map]
  rfl

theorem foldlM_batchAdd {batch entries : Batch Token} (h : batch.length + entries.length ≤ capacity) :
    entries.foldlM (batchAdd capacity) batch = some (batch ++ entries) := by
  induction entries generalizing batch with
  | nil => simp
  | cons e entries ih =>
    rw [List.length_cons] at h
    rw [List.foldlM_cons, batchAdd, if_neg (by omega), Option.bind_eq_bind, Option.bind_some, ih, List.append_assoc]
    · rfl
    · rw [List.length_append, List.length_singleton]
      omega

/-- llama.cpp takes the first of the batches and refuses the next, the last one
that was handed over. -/
structure Refused (L : Llama C Token) (context : C) (batches fed : List (Batch Token)) : Prop where
  isPrefix : fed <+: batches
  last : ∃ taken batch context', fed = taken ++ [batch] ∧ taken.foldlM L.decode context = some context' ∧
    L.decode context' batch = none

/-- Batches within the capacity are all taken, or those up to the first that is
refused. -/
theorem decodeBatches_spec {batches : List (Batch Token)} (h : ∀ batch ∈ batches, batch.length ≤ capacity)
    (context : C) :
    match batches.foldlM L.decode context with
    | some context' => decodeBatches L capacity context batches = (batches, .ok context')
    | none => Refused L context batches (decodeBatches L capacity context batches).1 ∧
        (decodeBatches L capacity context batches).2 = .error .decodeFailed := by
  induction batches generalizing context with
  | nil => rfl
  | cons entries rest ih =>
    have hbuild : entries.foldlM (batchAdd capacity) [] = some entries :=
      foldlM_batchAdd (by simpa using h entries List.mem_cons_self)
    rw [decodeBatches, hbuild, List.foldlM_cons]
    dsimp only
    cases hdecode : L.decode context entries with
    | none => exact ⟨⟨List.prefix_append [entries] rest, [], entries, context, rfl, rfl, hdecode⟩, rfl⟩
    | some context₁ =>
      have hrest := ih (fun batch hb => h batch (List.mem_cons_of_mem _ hb)) context₁
      dsimp only [Option.bind_eq_bind, Option.bind_some]
      split at hrest
      · rw [hrest]
      · obtain ⟨⟨hfed, taken, batch, context', he, htaken, hrefused⟩, herror⟩ := hrest
        refine ⟨⟨List.cons_prefix_cons.mpr ⟨rfl, hfed⟩, entries :: taken, batch, context', ?_, ?_, hrefused⟩, herror⟩
        · exact congrArg (entries :: ·) he
        · rw [List.foldlM_cons, hdecode]
          exact htaken

/-- What is handed over is the start of the batches. -/
theorem decodeBatches_cases {batches : List (Batch Token)} (h : ∀ batch ∈ batches, batch.length ≤ capacity)
    (context : C) :
    ((decodeBatches L capacity context batches).1 = batches ∧
        ∃ context', (decodeBatches L capacity context batches).2 = .ok context') ∨
      (decodeBatches L capacity context batches).1 <+: batches ∧
        (decodeBatches L capacity context batches).2 = .error .decodeFailed := by
  have hspec := decodeBatches_spec (L := L) h context
  split at hspec
  · rename_i context' _
    rw [hspec]
    exact .inl ⟨rfl, context', rfl⟩
  · exact .inr ⟨hspec.1.isPrefix, hspec.2⟩

theorem length_promptBatches_le (size : ℕ) (promptTokens : List Token) :
    ∀ batch ∈ promptBatches size promptTokens, batch.length ≤ size := by
  intro batch hb
  obtain ⟨i, -, rfl⟩ := List.mem_map.mp hb
  exact List.length_take_le _ _

/-- The chunks are the prompt. -/
theorem flatten_promptBatches {size : ℕ} (h : 0 < size) (promptTokens : List Token) :
    (promptBatches size promptTokens).flatten = promptEntries promptTokens := by
  rw [promptBatches, ← List.flatMap_def]
  refine flatMap_piece ?_
  rw [promptEntries, List.length_mapIdx]
  exact length_le_ceil_mul h _

theorem pos_promptEntries_lt {promptTokens : List Token} {e : BatchEntry Token} (h : e ∈ promptEntries promptTokens) :
    e.pos < promptTokens.length := by
  obtain ⟨i, hi, rfl⟩ := List.mem_iff_getElem.mp h
  rw [promptEntries, List.length_mapIdx] at hi
  simpa [promptEntries] using hi

end Prompt

/-! ## The batches of the loop -/

/-- The batch that a pass hands to `llama_decode`. -/
def passBatch (L : Llama C Token) (maxTokens : ℕ) (stopSequences : List Text) (stopRequested : Bool)
    (s : LoopState C Token) : Option (Batch Token) :=
  if s.n_decode < maxTokens ∧ s.n_cur < L.n_ctx then
    if stopRequested then none
    else
      let newTokenId := (L.sample s.context).1
      if L.isEog newTokenId then none
      else
        let piece := tokenToPiece L newTokenId
        if shouldStop stopSequences (s.generatedTextBuffer ++ piece) piece then none
        else batchAdd (chunkSize L) [] ⟨newTokenId, s.n_cur, true⟩
  else none

/-- Pass after pass: the batches handed over, and the state reached. -/
def feedLoop (L : Llama C Token) (maxTokens : ℕ) (stopSequences : List Text) :
    List Bool → LoopState C Token → List (Batch Token) × LoopState C Token
  | [], s => ([], s)
  | stopRequested :: flags, s =>
    if s.ended.isSome then ([], s)
    else
      let fed := feedLoop L maxTokens stopSequences flags (pass L maxTokens stopSequences stopRequested s)
      ((passBatch L maxTokens stopSequences stopRequested s).toList ++ fed.1, fed.2)

section Loop

variable {L : Llama C Token} {maxTokens : ℕ} {stops : List Text} {stopRequested : Bool} {flags : List Bool}
  {s s' : LoopState C Token}

theorem chunkSize_pos (L : Llama C Token) : 0 < chunkSize L := by
  unfold chunkSize
  omega

/-- A pass ends the loop and hands over nothing, or hands over the token that
it draws and yields, which goes on or fails with what `llama_decode` says. -/
theorem pass_fed (L : Llama C Token) (maxTokens : ℕ) (stops : List Text) (stopRequested : Bool)
    {s : LoopState C Token} (hs : s.ended = none) :
    let s' := pass L maxTokens stops stopRequested s
    let batch : Batch Token := [⟨(L.sample s.context).1, s.n_cur, true⟩]
    (passBatch L maxTokens stops stopRequested s = none ∧ s'.yielded = s.yielded ∧
      s'.n_decode = s.n_decode ∧ s'.n_cur = s.n_cur ∧ ∃ e, s'.ended = some e ∧ ∀ error, e ≠ .failed error) ∨
    (passBatch L maxTokens stops stopRequested s = some batch ∧
      s'.yielded = s.yielded ++ [(L.sample s.context).1] ∧ s.n_decode < maxTokens ∧ s.n_cur < L.n_ctx ∧
      s'.n_decode = s.n_decode + 1 ∧ s'.n_cur = s.n_cur + 1 ∧
      match L.decode (L.sample s.context).2 batch with
      | some context => s'.ended = none ∧ s'.context = context
      | none => s'.ended = some (.failed .decodeFailed)) := by
  have hadd : ∀ e : BatchEntry Token, batchAdd (chunkSize L) [] e = some [e] := fun e => by
    rw [batchAdd, if_neg (by simpa using (chunkSize_pos L).ne')]
    rfl
  simp only [pass, passBatch]
  split
  · rename_i hlimit
    split
    · exact .inl ⟨rfl, rfl, rfl, rfl, _, rfl, by simp⟩
    split
    · exact .inl ⟨rfl, rfl, rfl, rfl, _, rfl, by simp⟩
    split
    · exact .inl ⟨rfl, rfl, rfl, rfl, _, rfl, by simp⟩
    · refine .inr ⟨hadd _, ?_⟩
      rw [advance, hadd]
      dsimp only
      cases hdecode : L.decode (L.sample s.context).2 [⟨(L.sample s.context).1, s.n_cur, true⟩] with
      | none => exact ⟨rfl, hlimit.1, hlimit.2, rfl, rfl, rfl⟩
      | some context => exact ⟨rfl, hlimit.1, hlimit.2, rfl, rfl, hs, rfl⟩
  · exact .inl ⟨rfl, rfl, rfl, rfl, _, rfl, by simp⟩

/-- The state reached is that of the run. -/
theorem feedLoop_snd (h : (loop L maxTokens stops).run s flags = some s') :
    (feedLoop L maxTokens stops flags s).2 = s' := by
  induction flags generalizing s with
  | nil => exact Option.some.inj h
  | cons stopRequested flags ih =>
    obtain ⟨t, he, hr⟩ := Machine.run_cons.mp h
    obtain ⟨hnone, rfl⟩ := step_eq he
    rw [feedLoop, if_neg (by rw [hnone]; exact Bool.false_ne_true)]
    exact ih hr

end Loop

/-! ## The tokens drawn -/

/-- Tokens drawn one after another from a context on, each handed back behind
those before it, and the context they lead to. -/
inductive Draws (L : Llama C Token) (pos : ℕ) (context : C) : List Token → C → Prop
  | nil : Draws L pos context [] context
  | concat {tokens : List Token} {context' context'' : C} (h : Draws L pos context tokens context')
    (hdecode : L.decode (L.sample context').2 [⟨(L.sample context').1, pos + tokens.length, true⟩] = some context'') :
    Draws L pos context (tokens ++ [(L.sample context').1]) context''

/-- A loop has yielded what was drawn; where it fails, llama.cpp has refused
the last token. -/
inductive Generated (L : Llama C Token) (pos : ℕ) (context : C) (s : LoopState C Token) : Prop
  | taken {context' : C} (h : Draws L pos context s.yielded context') (hended : ∀ e, s.ended ≠ some (.failed e))
  | refused {tokens : List Token} {context' : C} (h : Draws L pos context tokens context')
    (hyielded : s.yielded = tokens ++ [(L.sample context').1])
    (hdecode : L.decode (L.sample context').2 [⟨(L.sample context').1, pos + tokens.length, true⟩] = none)
    (hended : s.ended = some (.failed .decodeFailed))

/-! ## The prompt and the tokens drawn -/

/-- A prompt and the tokens generated behind it, at the positions from 0 on;
logits are asked for at the last token of the prompt and at each generated
one. -/
def feed (promptTokens generated : List Token) : Batch Token :=
  (promptTokens ++ generated).mapIdx fun i token => ⟨token, i, decide (promptTokens.length ≤ i + 1)⟩

section Feed

variable {L : Llama C Token} {maxTokens : ℕ} {stops : List Text} {stopRequested : Bool} {flags : List Bool}
  {s s' : LoopState C Token} {promptTokens : List Token}

theorem feed_nil (promptTokens : List Token) : feed promptTokens [] = promptEntries promptTokens := by
  refine List.ext_getElem (by simp [feed, promptEntries]) fun i hi _ => ?_
  rw [feed, List.length_mapIdx, List.append_nil] at hi
  have hlast : promptTokens.length ≤ i + 1 ↔ i + 1 = promptTokens.length := by omega
  simp [feed, promptEntries, hlast, beq_eq_decide]

theorem feed_concat (promptTokens generated : List Token) (token : Token) : feed promptTokens (generated ++ [token]) =
    feed promptTokens generated ++ [⟨token, promptTokens.length + generated.length, true⟩] := by
  rw [feed, ← List.append_assoc, List.mapIdx_concat, ← feed, List.length_append]
  simp only [List.append_cancel_left_eq, List.cons.injEq, BatchEntry.mk.injEq, decide_eq_true_eq, and_true, true_and]
  omega

theorem pos_feed_lt {generated : List Token} {e : BatchEntry Token} (h : e ∈ feed promptTokens generated) :
    e.pos < promptTokens.length + generated.length := by
  obtain ⟨i, hi, rfl⟩ := List.mem_iff_getElem.mp h
  rw [feed, List.length_mapIdx, List.length_append] at hi
  simpa [feed] using hi

/-- The counters of the loop count the tokens handed over, which fit the
context window. -/
structure Counted (L : Llama C Token) (maxTokens : ℕ) (promptTokens : List Token) (s : LoopState C Token) : Prop where
  n_cur : s.n_cur = promptTokens.length + s.yielded.length
  n_decode : s.n_decode = s.yielded.length
  length_le : s.yielded.length ≤ maxTokens
  window : promptTokens.length + s.yielded.length ≤ L.n_ctx
  noOverflow : s.ended ≠ some (.failed .batchOverflow)

theorem counted_start (maxTokens : ℕ) (context : C) (h : promptTokens.length ≤ L.n_ctx) :
    Counted L maxTokens promptTokens (.start context promptTokens.length) :=
  ⟨rfl, rfl, Nat.zero_le _, h, by simp [LoopState.start]⟩

/-- A pass hands over the token it yields, behind those before it. -/
theorem Counted.pass (h : Counted L maxTokens promptTokens s) (hs : s.ended = none) (stops : List Text)
    (stopRequested : Bool) :
    Counted L maxTokens promptTokens (pass L maxTokens stops stopRequested s) ∧
      feed promptTokens (Generation.pass L maxTokens stops stopRequested s).yielded =
        feed promptTokens s.yielded ++ (passBatch L maxTokens stops stopRequested s).toList.flatten := by
  obtain ⟨hb, hy, hd, hc, e, hended, hne⟩ | ⟨hb, hy, hlimit, hwindow, hd, hc, hended⟩ :=
    pass_fed L maxTokens stops stopRequested hs
  · refine ⟨⟨?_, ?_, ?_, ?_, ?_⟩, ?_⟩
    · rw [hc, hy, h.n_cur]
    · rw [hd, hy, h.n_decode]
    · rw [hy]
      exact h.length_le
    · rw [hy]
      exact h.window
    · rw [hended]
      exact fun heq => hne _ (Option.some.inj heq)
    · rw [hb, hy, Option.toList_none, List.flatten_nil, List.append_nil]
  · have hlength : (Generation.pass L maxTokens stops stopRequested s).yielded.length = s.yielded.length + 1 := by
      rw [hy, List.length_append, List.length_singleton]
    have hn_cur := h.n_cur
    have hn_decode := h.n_decode
    refine ⟨⟨?_, ?_, ?_, ?_, ?_⟩, ?_⟩
    · rw [hc, hlength, hn_cur, Nat.add_assoc]
    · rw [hd, hlength, hn_decode]
    · rw [hlength]
      omega
    · rw [hlength]
      omega
    · split at hended
      · simp [hended.1]
      · simp [hended]
    · rw [hb, hy, feed_concat, hn_cur]
      rfl

/-- What the loop hands over comes behind what was handed over before. -/
theorem Counted.feedLoop (h : Counted L maxTokens promptTokens s) (stops : List Text) (flags : List Bool) :
    Counted L maxTokens promptTokens (feedLoop L maxTokens stops flags s).2 ∧
      feed promptTokens (Generation.feedLoop L maxTokens stops flags s).2.yielded =
        feed promptTokens s.yielded ++ (Generation.feedLoop L maxTokens stops flags s).1.flatten := by
  induction flags generalizing s with
  | nil => exact ⟨h, by simp [Generation.feedLoop]⟩
  | cons stopRequested flags ih =>
    rw [Generation.feedLoop]
    cases hs : s.ended with
    | some e => exact ⟨by simpa using h, by simp⟩
    | none =>
      obtain ⟨hpass, hfed⟩ := h.pass hs stops stopRequested
      obtain ⟨hrest, hfed'⟩ := ih hpass
      rw [if_neg (by simp)]
      refine ⟨hrest, ?_⟩
      dsimp only
      rw [hfed', hfed, List.flatten_append, List.append_assoc]

/-- A pass that goes on has drawn one more token. -/
theorem Counted.generated_pass {context₀ : C} (h : Counted L maxTokens promptTokens s) (hs : s.ended = none)
    (hdraws : Draws L promptTokens.length context₀ s.yielded s.context) (stops : List Text) (stopRequested : Bool) :
    let s' := Generation.pass L maxTokens stops stopRequested s
    Generated L promptTokens.length context₀ s' ∧
      (s'.ended = none → Draws L promptTokens.length context₀ s'.yielded s'.context) := by
  intro s'
  obtain ⟨-, hy, -, -, e, hended, hne⟩ | ⟨-, hy, -, -, -, -, hdecode⟩ := pass_fed L maxTokens stops stopRequested hs
  · have hdraws' : Draws L promptTokens.length context₀ s'.yielded s.context := by
      rw [hy]
      exact hdraws
    refine ⟨.taken hdraws' fun error heq => ?_, fun heq => ?_⟩
    · exact hne error (Option.some.inj (hended.symm.trans heq))
    · cases hended.symm.trans heq
  · rw [h.n_cur] at hdecode
    split at hdecode
    · rename_i context' htaken
      have hdraws' : Draws L promptTokens.length context₀ s'.yielded s'.context := by
        rw [hy, hdecode.2]
        exact hdraws.concat htaken
      refine ⟨.taken hdraws' fun error heq => ?_, fun _ => hdraws'⟩
      cases hdecode.1.symm.trans heq
    · rename_i hrefused
      refine ⟨.refused hdraws hy hrefused hdecode, fun heq => ?_⟩
      cases hdecode.symm.trans heq

/-- And so has the loop. -/
theorem Counted.generated_feedLoop {context₀ : C} (h : Counted L maxTokens promptTokens s)
    (hgenerated : Generated L promptTokens.length context₀ s)
    (hdraws : s.ended = none → Draws L promptTokens.length context₀ s.yielded s.context) (stops : List Text)
    (flags : List Bool) :
    Generated L promptTokens.length context₀ (Generation.feedLoop L maxTokens stops flags s).2 := by
  induction flags generalizing s with
  | nil => exact hgenerated
  | cons stopRequested flags ih =>
    rw [Generation.feedLoop]
    cases hs : s.ended with
    | some e => exact hgenerated
    | none =>
      rw [if_neg (by simp)]
      obtain ⟨hpass, hnext⟩ := h.generated_pass hs (hdraws hs) stops stopRequested
      exact ih (h.pass hs stops stopRequested).1 hpass hnext

end Feed

/-! ## completion -/

/-- The last `n` tokens. -/
def lastTokens (n : ℕ) (tokens : List Token) : List Token := tokens.drop (tokens.length - n)

/-- `completion`: the batches handed over, and what comes of them when its
passes read these stop flags. -/
def completionFeed (L : Llama C Token) (prompt : String) (maxTokens : ℤ) (flags : List Bool) (context : C) :
    List (Batch Token) × Except LlamaError (LoopState C Token) :=
  let tokens := L.tokenize prompt
  let maxPromptTokens := max 1 (L.n_ctx - 1)
  let promptTokens := lastTokens maxPromptTokens tokens
  let fed := decodeBatches L (chunkSize L) (L.memoryClear context) (promptBatches (chunkSize L) promptTokens)
  match fed.2 with
  | .error e => (fed.1, .error e)
  | .ok context =>
    let max_tokens := max 128 (min maxTokens (L.n_ctx - 1))
    let generated := feedLoop L max_tokens.toNat stopSequences flags (.start context promptTokens.length)
    (fed.1 ++ generated.1, .ok generated.2)

section Completion

variable {L : Llama C Token} {prompt : String} {flags : List Bool} {context : C}

/-- The prompt of `completionFeed` is that of `completion`. -/
theorem completionFeed_error {maxTokens : ℤ} {e : LlamaError} (h : beginCompletion L prompt context = .error e) :
    (completionFeed L prompt maxTokens flags context).2 = .error e := by
  simp only [beginCompletion, decodePrompt_eq] at h
  simp only [completionFeed, lastTokens]
  split
  · rename_i e' he
    rw [he] at h
    exact h
  · rename_i context' hok
    rw [hok] at h
    cases h

/-- The loop of `completionFeed` is that of `completion`. -/
theorem completionFeed_ok (hctx : 1 ≤ L.n_ctx) {maxTokens : ℤ} {s₀ s : LoopState C Token}
    (h₀ : beginCompletion L prompt context = .ok s₀) (h : (completionLoop L maxTokens.toNat).run s₀ flags = some s) :
    (completionFeed L prompt maxTokens flags context).2 = .ok s := by
  have hmax : (max 128 (min maxTokens (L.n_ctx - 1))).toNat = max 128 (min maxTokens.toNat (L.n_ctx - 1)) := by omega
  simp only [beginCompletion, decodePrompt_eq] at h₀
  simp only [completionFeed, lastTokens]
  split
  · rename_i e he
    rw [he] at h₀
    cases h₀
  · rename_i context' hok
    rw [hok] at h₀
    obtain rfl := Except.ok.inj h₀
    rw [hmax]
    exact congrArg Except.ok (feedLoop_snd h)

/-- Where the chunks of the prompt are taken, `completion` hands over its
prompt and what its loop yields; where one is refused, it ends there. -/
theorem completionFeed_spec (hctx : 1 ≤ L.n_ctx) (prompt : String) (maxTokens : ℤ) (flags : List Bool) (context : C) :
    let promptTokens := lastTokens (max 1 (L.n_ctx - 1)) (L.tokenize prompt)
    let chunks := promptBatches (chunkSize L) promptTokens
    let fed := completionFeed L prompt maxTokens flags context
    match chunks.foldlM L.decode (L.memoryClear context) with
    | some context₀ => ∃ s, fed.2 = .ok s ∧
        Counted L (max 128 (min maxTokens (L.n_ctx - 1))).toNat promptTokens s ∧
        fed.1.flatten = feed promptTokens s.yielded ∧ Generated L promptTokens.length context₀ s
    | none => fed.2 = .error .decodeFailed ∧ Refused L (L.memoryClear context) chunks fed.1 := by
  have hlength : (lastTokens (max 1 (L.n_ctx - 1)) (L.tokenize prompt)).length ≤ L.n_ctx := by
    rw [lastTokens, List.length_drop]
    omega
  simp only [completionFeed]
  generalize lastTokens (max 1 (L.n_ctx - 1)) (L.tokenize prompt) = promptTokens at hlength ⊢
  have hflatten := flatten_promptBatches (chunkSize_pos L) promptTokens
  have hspec := decodeBatches_spec (L := L) (length_promptBatches_le (chunkSize L) promptTokens) (L.memoryClear context)
  split at hspec
  · rename_i context₀ htaken
    have hstart := counted_start (max 128 (min maxTokens (L.n_ctx - 1))).toNat context₀ hlength
    obtain ⟨hcounted, hrest⟩ := hstart.feedLoop stopSequences flags
    rw [hspec]
    refine ⟨_, rfl, hcounted, ?_, ?_⟩
    · rw [hrest, List.flatten_append, hflatten, LoopState.start, feed_nil]
    · exact hstart.generated_feedLoop (.taken .nil fun _ heq => by cases heq) (fun _ => .nil) stopSequences flags
  · rename_i hnone
    obtain ⟨hrefused, herror⟩ := hspec
    rw [herror]
    exact ⟨rfl, hrefused⟩

/-- What is handed over of a prompt that is refused is its start. -/
theorem Refused.flatten_isPrefix {promptTokens : List Token} {fed : List (Batch Token)}
    (h : Refused L context (promptBatches (chunkSize L) promptTokens) fed) :
    fed.flatten <+: feed promptTokens [] := by
  rw [feed_nil, ← flatten_promptBatches (chunkSize_pos L)]
  exact h.isPrefix.flatten

/-- All of it lies in the context window. -/
theorem pos_completionFeed_lt (hctx : 1 ≤ L.n_ctx) {maxTokens : ℤ} {e : BatchEntry Token}
    (h : e ∈ (completionFeed L prompt maxTokens flags context).1.flatten) : e.pos < L.n_ctx := by
  have hspec := completionFeed_spec hctx prompt maxTokens flags context
  dsimp only at hspec
  split at hspec
  · obtain ⟨s, -, hcounted, hall, -⟩ := hspec
    rw [hall] at h
    exact (pos_feed_lt h).trans_le hcounted.window
  · refine (pos_feed_lt (hspec.2.flatten_isPrefix.subset h)).trans_le ?_
    rw [lastTokens, List.length_drop, List.length_nil]
    omega

/-- The batches that `completion` hands over, and what comes of them: its
result is that of its prompt and of its loop; where the chunks of the prompt
are taken, the prompt and the tokens drawn behind it are fed, in order, and no
batch overflows; where one of them is refused, it is the last. -/
structure CompletionFed (L : Llama C Token) (prompt : String) (maxTokens : ℤ) (flags : List Bool) (context : C)
    (promptTokens : List Token) (fed : List (Batch Token) × Except LlamaError (LoopState C Token)) : Prop where
  begins : ∀ e, beginCompletion L prompt context = .error e → fed.2 = .error e
  runs : ∀ s₀ s, beginCompletion L prompt context = .ok s₀ →
    (completionLoop L maxTokens.toNat).run s₀ flags = some s → fed.2 = .ok s
  pos_lt : ∀ e ∈ fed.1.flatten, e.pos < L.n_ctx
  ok : ∀ context₀, (promptBatches (chunkSize L) promptTokens).foldlM L.decode (L.memoryClear context) = some context₀ →
    ∃ s, fed.2 = .ok s ∧ s.ended ≠ some (.failed .batchOverflow) ∧ fed.1.flatten = feed promptTokens s.yielded ∧
      Generated L promptTokens.length context₀ s ∧ (s.yielded.length : ℤ) ≤ max 128 (min maxTokens (L.n_ctx - 1))
  error : (promptBatches (chunkSize L) promptTokens).foldlM L.decode (L.memoryClear context) = none →
    fed.2 = .error .decodeFailed ∧ fed.1.flatten <+: feed promptTokens [] ∧
      Refused L (L.memoryClear context) (promptBatches (chunkSize L) promptTokens) fed.1

/-- For every prompt, every limit, every llama.cpp with room for two tokens and
all that is read of the stop flag. -/
theorem completion_feeds (L : Llama C Token) (hctx : 2 ≤ L.n_ctx) (prompt : String) (maxTokens : ℤ)
    (flags : List Bool) (context : C) :
    CompletionFed L prompt maxTokens flags context
      (lastTokens (min (L.tokenize prompt).length (L.n_ctx - 1)) (L.tokenize prompt))
      (completionFeed L prompt maxTokens flags context) := by
  have hdrop : lastTokens (min (L.tokenize prompt).length (L.n_ctx - 1)) (L.tokenize prompt) =
      lastTokens (max 1 (L.n_ctx - 1)) (L.tokenize prompt) := congrArg (L.tokenize prompt).drop (by omega)
  rw [hdrop]
  have hone : 1 ≤ L.n_ctx := by omega
  have hspec := completionFeed_spec hone prompt maxTokens flags context
  dsimp only at hspec
  refine ⟨fun e => completionFeed_error, fun s₀ s => completionFeed_ok hone, fun e => pos_completionFeed_lt hone,
    fun context₀ htaken => ?_, fun hrefused => ?_⟩
  · rw [htaken] at hspec
    obtain ⟨s, hok, hcounted, hall, hgenerated⟩ := hspec
    have hcount := hcounted.length_le
    exact ⟨s, hok, hcounted.noOverflow, hall, hgenerated, by omega⟩
  · rw [hrefused] at hspec
    exact ⟨hspec.1, hspec.2.flatten_isPrefix, hspec.2⟩

end Completion

/-- A llama that takes every batch and notes down what it is fed, with room for
four tokens; it draws the number of entries it has seen. -/
def Llama.noting : Llama (Batch ℕ) ℕ where
  tokenize text := text.toList.map Char.toNat
  memoryClear _ := []
  n_ctx := 4
  n_batch := 2
  decode fed batch := some (fed ++ batch)
  sample fed := (fed.length, fed)
  isEog _ := false
  tokenBytes _ := []

/-- Of five tokens the last three are fed, and then one more. -/
theorem noting_feeds :
    CompletionFed .noting "abcde" (-1) [false, false] [] (lastTokens 3 [97, 98, 99, 100, 101])
      (completionFeed .noting "abcde" (-1) [false, false] []) :=
  completion_feeds .noting (by decide) "abcde" (-1) [false, false] []

example : (completionFeed .noting "abcde" (-1) [false, false] []).1.flatten =
    [⟨99, 0, false⟩, ⟨100, 1, false⟩, ⟨101, 2, true⟩, ⟨3, 3, true⟩] := by
  decide +kernel

end SynapsNotes.Generation
