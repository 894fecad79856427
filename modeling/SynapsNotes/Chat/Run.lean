import SynapsNotes.Chat.Session
import SynapsNotes.Framework.Transition

/-!
# Generation runs

`sendMessage` stores the user's message and creates a task. The task runs on
the main actor from one `await` to the next: `resumeRun` is one such segment,
by where the task is suspended and what it is resumed with. While it is
suspended, anything else on the main actor may run, so `chatMachine` lets the
user's actions and the segments of all tasks come in any order.

What retrieval and the model answer is part of the action, so nothing is
assumed of it. `RAG` preparation may suspend any number of times.
-/

namespace SynapsNotes.Chat

open Framework

variable {E : Type}

/-- What a suspended task is resumed with: the start of the task, the end of
one more `await` of the preparation, its result (whether the query is to be
embedded), the query's embedding, the retrieved sources, the prompt, the
stream, and then what the stream yields. -/
inductive Resumption (E : Type)
  | begin
  | suspended
  | ragReady (embedQuery : Bool)
  | queryEmbedded
  | retrieved (rag : RagContext E)
  | templated (now : Date)
  | opened
  | token (c : ModelContext) (now : Date) (piece : String)
  | ended (c : ModelContext)
  | failed (c : ModelContext) (now : Date) (error : String)

namespace ViewModel

/-- The end of every task, cancelled or not. -/
def finishRun (c : ModelContext) (s : ViewModel E) : ViewModel E :=
  { refreshSessions c s with isGenerating := false, generationStage := none }

/-- The assistant message of a run, still empty. -/
def assistantMessage (r : Run E) (rag : RagContext E) (now : Date) (s : ViewModel E) : ChatMessage :=
  { id := s.nextId
    role := "assistant"
    content := ""
    thoughtProcess := none
    sourceNoteIds := rag.ragNotes.map Note.id
    sourceKnowledgeChunkIds := rag.ragChunks.map KnowledgeChunk.id
    createdAt := now
    session := some r.session }

/-- A change of the assistant message of a run, and of its session's date. -/
def updateAnswer (r : Run E) (assistant : UUID) (now : Date) (f : ChatMessage → ChatMessage)
    (s : ViewModel E) : ViewModel E :=
  (s.updateMessages fun m => if m.id = assistant then f m else m).updateSession r.session
    fun x => { x with updatedAt := now }

/-- One segment of the task of a run, up to its next `await`. -/
def resumeRun (r : Run E) (s : ViewModel E) :
    Suspension E → Resumption E → Option (ViewModel E × Suspension E)
  | .created, .begin =>
    if r.hasSources then some ({ s with generationStage := some .searchingSources }, .preparing)
    else some (s, .templating s.chatMessages .none)
  | .preparing, .suspended => some (s, .preparing)
  | .preparing, .ragReady true => some (s, .embedding)
  | .preparing, .ragReady false =>
    some ({ s with generationStage := some .rankingSources }, .ranking)
  | .embedding, .queryEmbedded => some ({ s with generationStage := some .rankingSources }, .ranking)
  | .ranking, .retrieved rag => some (s, .templating s.chatMessages rag)
  | .templating _ rag, .templated now =>
    some ({ s.insertMessage (s.assistantMessage r rag now) with
            nextId := s.nextId + 1, generationStage := some .draftingAnswer }, .opening s.nextId)
  | .opening assistant, .opened => some (s, .streaming assistant "")
  | .streaming assistant fullResponse, .token c now piece =>
    if r.isCancelled then some (s.finishRun c, .finished)
    else
      let parsed := parseThinkTags (fullResponse ++ piece)
      some (s.updateAnswer r assistant now fun m =>
        { m with content := parsed.1, thoughtProcess := parsed.2 },
        .streaming assistant (fullResponse ++ piece))
  | .streaming _ _, .ended c => some (s.finishRun c, .finished)
  | .streaming assistant _, .failed c now error =>
    some ((s.updateAnswer r assistant now fun m => { m with content := "Error: " ++ error }).finishRun c,
      .finished)
  | _, _ => none

/-- `sendMessage`, up to the creation of its task. -/
def sendMessage (c : ModelContext) (now : Date) (text : String) (hasSources strictGrounding : Bool)
    (s : ViewModel E) : ViewModel E :=
  if s.isChatModelLoaded && !s.isGenerating then
    match ensureActiveSession c now (bootstrapIfNeeded c now s) with
    | (s, none) => s
    | (s, some session) =>
      let userMessageText := trimmed text
      if userMessageText.isEmpty then s
      else
        let shouldAutoTitle := s.chatMessages.isEmpty && session.title == SessionDefaults.newChatTitle
        let s := s.updateSession session.id fun x =>
          { x with
            title := if shouldAutoTitle then autoTitle userMessageText else x.title
            updatedAt := now }
        let s := s.insertMessage
          ⟨s.nextId, "user", userMessageText, none, [], [], now, some session.id⟩
        { s with
          nextId := s.nextId + 1
          isGenerating := true
          generationStage := some .searchingSources
          generationTask := some s.runs.length
          runs := s.runs ++ [⟨session.id, hasSources, strictGrounding, false, .created⟩] }
  else s

end ViewModel

/-- The user's actions, the loading of the chat model, and the segments of
the tasks. -/
inductive Action (E : Type)
  | sendMessage (c : ModelContext) (now : Date) (text : String) (hasSources strictGrounding : Bool)
  | stopGeneration
  | selectSession (c : ModelContext) (session : ChatSession)
  | createNewChatSession (c : ModelContext) (now : Date)
  | deleteChatSession (c : ModelContext) (now : Date) (session : ChatSession)
  | setChatModelLoaded (loaded : Bool)
  | resume (i : Nat) (e : Resumption E)

open ViewModel

/-- Main-actor code, interleaved at each `await` of the tasks. -/
def chatMachine : Machine (ViewModel E) (Action E) where
  step s
    | .sendMessage c now text hasSources strict => some (s.sendMessage c now text hasSources strict)
    | .stopGeneration => some s.stopGeneration
    | .selectSession c session => some (s.selectSession c session)
    | .createNewChatSession c now => some (s.createNewChatSession c now)
    | .deleteChatSession c now session => some (s.deleteChatSession c now session)
    | .setChatModelLoaded loaded => some { s with isChatModelLoaded := loaded }
    | .resume i e => do
      let r ← s.runs[i]?
      let (s', at') ← resumeRun r s r.at_ e
      some { s' with runs := s'.runs.set i { r with at_ := at' } }

/-- The messages that the prompt of a run is built from, while it awaits its
template. -/
def Run.history (r : Run E) : List ChatMessage :=
  match r.at_ with
  | .templating history _ => history
  | _ => []

/-- The prompt of a run that awaits its template. -/
def Run.prompt (r : Run E) : Option (List PromptMessage) :=
  match r.at_ with
  | .templating history rag => some (buildMessageHistory history rag r.strictGrounding)
  | _ => none

/-- The state after launch: any store, no task, nothing on screen. -/
structure Initial (s : ViewModel E) : Prop where
  chatMessages : s.chatMessages = []
  runs : s.runs = []
  isGenerating : s.isGenerating = false

/-- A launch with two sessions in the store, the second with a message. -/
def twoSessions : ViewModel Unit :=
  let store := { Store.empty Unit with
    sessions := [⟨0, "Plans", 0, 1⟩, ⟨1, "Diary", 0, 0⟩]
    messages := [⟨2, "user", "Dear diary", none, [], [], 0, some 1⟩] }
  { ViewModel.launch store 3 with isChatModelLoaded := true }

theorem initial_twoSessions : Initial twoSessions := ⟨rfl, rfl, rfl⟩

/-! ## What a segment does -/

/-- The segments that call `buildMessageHistory`. -/
def Run.buildsPrompt (r : Run E) (e : Resumption E) : Bool :=
  match r.at_, e with
  | .created, .begin => !r.hasSources
  | .ranking, .retrieved _ => true
  | _, _ => false

/-- The segment that appends the assistant message. -/
def Run.appendsAnswer (r : Run E) (e : Resumption E) : Bool :=
  match r.at_, e with
  | .templating _ _, .templated _ => true
  | _, _ => false

section Segment

variable {r : Run E} {s s' : ViewModel E} {e : Resumption E} {at' : Suspension E}

@[simp] theorem finishRun_screen (c : ModelContext) (s : ViewModel E) :
    (s.finishRun c).screen = s.screen := refreshSessions_screen c s

theorem finishRun_runs (c : ModelContext) (s : ViewModel E) : (s.finishRun c).runs = s.runs :=
  (Prod.mk.inj (refreshSessions_tasks c s)).1

/-- A segment leaves the other tasks and the active session alone. -/
theorem resumeRun_frame (h : resumeRun r s r.at_ e = some (s', at')) :
    s'.runs = s.runs ∧ s'.activeSessionId = s.activeSessionId ∧
      s'.generationTask = s.generationTask := by
  have fin : ∀ (c : ModelContext) (t : ViewModel E), (t.finishRun c).runs = t.runs ∧
      (t.finishRun c).activeSessionId = t.activeSessionId ∧
      (t.finishRun c).generationTask = t.generationTask := fun c t =>
    ⟨finishRun_runs c t, (Prod.mk.inj (finishRun_screen c t)).1,
      (Prod.mk.inj (Prod.mk.inj (Prod.mk.inj (refreshSessions_tasks c t)).2).2).2⟩
  revert h
  fun_cases resumeRun r s r.at_ e <;> intro h <;>
    simp only [Option.some.injEq, Prod.mk.injEq, reduceCtorEq] at h
  all_goals obtain ⟨rfl, -⟩ := h
  all_goals first | exact ⟨rfl, rfl, rfl⟩ | exact fin _ _

/-- The answer of a run stays in the session it is in. -/
theorem updateAnswer_chatMessages (assistant : UUID) (now : Date) {f : ChatMessage → ChatMessage}
    (hf : ∀ m, (f m).session = m.session) :
    ∃ g : ChatMessage → ChatMessage, (∀ m, (g m).session = m.session) ∧
      (s.updateAnswer r assistant now f).chatMessages = s.chatMessages.map g := by
  refine ⟨fun m => if m.id = assistant then f m else m, fun m => ?_, rfl⟩
  show (if m.id = assistant then f m else m).session = m.session
  split
  · exact hf m
  · rfl

/-- A segment appends one message of its own session, or else rewrites
messages on screen without moving them to another session. -/
theorem resumeRun_chatMessages (h : resumeRun r s r.at_ e = some (s', at')) :
    if r.appendsAnswer e then
      ∃ m, m.session = some r.session ∧ s'.chatMessages = s.chatMessages ++ [m]
    else ∃ f : ChatMessage → ChatMessage, (∀ m, (f m).session = m.session) ∧
      s'.chatMessages = s.chatMessages.map f := by
  have fin : ∀ (c : ModelContext) (t : ViewModel E), (t.finishRun c).chatMessages = t.chatMessages :=
    fun c t => (Prod.mk.inj (finishRun_screen c t)).2
  have same : ∀ l : List ChatMessage, ∃ f : ChatMessage → ChatMessage,
      (∀ m, (f m).session = m.session) ∧ l = l.map f :=
    fun l => ⟨id, fun _ => rfl, (List.map_id l).symm⟩
  generalize hat : r.at_ = at₀ at h
  revert h
  fun_cases resumeRun r s at₀ e <;> intro h <;>
    simp only [Option.some.injEq, Prod.mk.injEq, reduceCtorEq] at h
  all_goals obtain ⟨rfl, -⟩ := h
  all_goals simp only [Run.appendsAnswer, hat, ↓reduceIte, Bool.false_eq_true]
  case case8 => exact ⟨_, rfl, rfl⟩
  case case10 | case12 => rw [fin]; exact same _
  case case11 => exact updateAnswer_chatMessages _ _ fun _ => rfl
  case case13 => rw [fin]; exact updateAnswer_chatMessages _ _ fun _ => rfl
  all_goals exact same _

/-- A segment builds the prompt from the messages on screen, or leaves none
to be templated. -/
theorem resumeRun_history (h : resumeRun r s r.at_ e = some (s', at')) :
    (Run.history { r with at_ := at' }) = if r.buildsPrompt e then s.chatMessages else [] := by
  generalize hat : r.at_ = at₀ at h
  revert h
  fun_cases resumeRun r s at₀ e <;> intro h <;>
    simp only [Option.some.injEq, Prod.mk.injEq, reduceCtorEq] at h
  all_goals obtain ⟨-, rfl⟩ := h
  all_goals simp_all [Run.buildsPrompt, Run.history]

end Segment

/-! ## What an action does to the tasks -/

section Actions

variable {s s' : ViewModel E}

/-- A call of `sendMessage` leaves the tasks alone, or starts one, which it
does only while nothing is being generated. -/
theorem sendMessage_cases (c : ModelContext) (now : Date) (text : String) (hasSources strict : Bool)
    (s : ViewModel E) :
    (s.sendMessage c now text hasSources strict).tasks = s.tasks ∨
      s.isGenerating = false ∧ ∃ session,
        (s.sendMessage c now text hasSources strict).tasks =
          (s.runs ++ [⟨session, hasSources, strict, false, .created⟩], true, some .searchingSources,
            some s.runs.length) := by
  have ht := (ensureActiveSession_tasks c now (bootstrapIfNeeded c now s)).trans
    (bootstrapIfNeeded_tasks c now s)
  unfold sendMessage
  split
  · rename_i hguard
    have hgen : s.isGenerating = false := by simpa using (Bool.and_eq_true_iff.mp hguard).2
    split
    · rename_i t he
      rw [he] at ht
      exact .inl ht
    · rename_i t session he
      rw [he] at ht
      dsimp only
      split
      · exact .inl ht
      · refine .inr ⟨hgen, session.id, ?_⟩
        have hruns : t.runs = s.runs := (Prod.mk.inj ht).1
        simp only [tasks, insertMessage, updateSession, hruns]
  · exact .inl rfl

/-- The user's message goes to the active session. -/
theorem displayed_sendMessage (c : ModelContext) (now : Date) (text : String)
    (hasSources strict : Bool) (h : s.Displayed) :
    (s.sendMessage c now text hasSources strict).Displayed := by
  have ht := displayed_ensureActiveSession c now (displayed_bootstrapIfNeeded c now h)
  unfold sendMessage
  split
  · split
    · rename_i t he
      rwa [he] at ht
    · rename_i t session he
      have ha := ensureActiveSession_spec c now he
      rw [he] at ht
      dsimp only
      split
      · exact ht
      · intro m hm
        rcases List.mem_append.mp hm with hm | hm
        · exact ht m hm
        · refine ⟨session.id, ha, ?_⟩
          rw [List.mem_singleton.mp hm]
  · exact h

/-- Stopping marks a task cancelled; no task moves. -/
theorem mem_stopGeneration_runs {r : Run E} (h : r ∈ s.stopGeneration.runs) :
    ∃ r' ∈ s.runs, r'.session = r.session ∧ r'.at_ = r.at_ := by
  have hrun : s.stopGeneration.runs = s.cancelTask.runs := rfl
  rw [hrun, cancelTask] at h
  split at h
  · rename_i i
    obtain ⟨j, hj⟩ := List.mem_iff_getElem?.mp h
    rw [List.getElem?_modify] at hj
    obtain ⟨r', hr', rfl⟩ := Option.map_eq_some_iff.mp hj
    refine ⟨r', List.mem_of_getElem? hr', ?_⟩
    split <;> exact ⟨rfl, rfl⟩
  · exact ⟨r, h, rfl, rfl⟩

/-- A resumed task takes one segment, and its new suspension replaces the old. -/
theorem step_resume {i : Nat} {e : Resumption E} (h : chatMachine.step s (.resume i e) = some s') :
    ∃ r t at', s.runs[i]? = some r ∧ resumeRun r s r.at_ e = some (t, at') ∧
      s' = { t with runs := s.runs.set i { r with at_ := at' } } := by
  obtain ⟨r, hr, h⟩ := Option.bind_eq_some_iff.mp h
  obtain ⟨⟨t, at'⟩, ht, h⟩ := Option.bind_eq_some_iff.mp h
  cases h
  refine ⟨r, t, at', hr, ht, ?_⟩
  rw [(resumeRun_frame ht).1]

end Actions

end SynapsNotes.Chat
