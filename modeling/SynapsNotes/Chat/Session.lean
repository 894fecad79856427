import SynapsNotes.Chat.Prompt
import SynapsNotes.Framework.Sort

/-!
# Sessions and the messages on screen

The chat state of `GlobalViewModel` and the operations on sessions: each runs
on the main actor without an `await`, so each is one function of the state.
What the store answers to a fetch (or that it fails) is a `ModelContext`,
which the operations are given: an answer holds the records asked for, in the
order asked for, records with equal keys in any order.

`Displayed` is the invariant of this part: the messages on screen belong to
the active session. Every operation here establishes or keeps it.
-/

namespace SynapsNotes.Chat

open Framework

variable {E : Type}

/-! ## The state -/

inductive GenerationStage
  | searchingSources
  | rankingSources
  | draftingAnswer
  deriving DecidableEq

/-- Where the task of a run is suspended, with what it still needs. Created
tasks have not begun, and a `templating` run awaits the template of the
prompt that `buildMessageHistory` makes of `history` and `rag`. -/
inductive Suspension (E : Type)
  | created
  | preparing
  | embedding
  | ranking
  | templating (history : List ChatMessage) (rag : RagContext E)
  | opening (assistant : UUID)
  | streaming (assistant : UUID) (fullResponse : String)
  | finished

/-- The task that one `sendMessage` creates. -/
structure Run (E : Type) where
  session : UUID
  hasSources : Bool
  strictGrounding : Bool
  isCancelled : Bool
  at_ : Suspension E

def Run.isFinished (r : Run E) : Bool :=
  match r.at_ with
  | .finished => true
  | _ => false

/-- The chat state of `GlobalViewModel`, with the store it works on and the
tasks `sendMessage` has created (`generationTask` is the position of one). -/
structure ViewModel (E : Type) where
  store : Store E
  sessions : List ChatSession
  activeSessionId : Option UUID
  savedSessionId : Option UUID
  chatMessages : List ChatMessage
  modelError : Option String
  hasBootstrappedData : Bool
  isChatModelLoaded : Bool
  isGenerating : Bool
  generationStage : Option GenerationStage
  generationTask : Option Nat
  runs : List (Run E)
  nextId : UUID

/-- The state at launch, on a store whose ids are below `nextId`. -/
def ViewModel.launch (store : Store E) (nextId : UUID) : ViewModel E where
  store
  sessions := []
  activeSessionId := none
  savedSessionId := none
  chatMessages := []
  modelError := none
  hasBootstrappedData := false
  isChatModelLoaded := false
  isGenerating := false
  generationStage := none
  generationTask := none
  runs := []
  nextId

/-- The answers of a `ModelContext` to the fetches of this part, from the
records it holds; `fetchMessages` is asked for the messages of one session,
or (`none`) of no session. -/
structure ModelContext where
  fetchSessions : List ChatSession → Except String (List ChatSession)
  fetchTitled : List ChatSession → String → Except String (List ChatSession)
  fetchMessages : List ChatMessage → Option UUID → Except String (List ChatMessage)
  save : Except String Unit
  fetchSessions_perm {ss l} : fetchSessions ss = .ok l → l.Perm ss
  fetchSessions_sorted {ss l} : fetchSessions ss = .ok l →
    SortedOn (fun s => OrderDual.toDual s.updatedAt) l
  fetchTitled_perm {ss t l} : fetchTitled ss t = .ok l → l.Perm (ss.filter (·.title == t))
  fetchTitled_sorted {ss t l} : fetchTitled ss t = .ok l → SortedOn ChatSession.createdAt l
  fetchMessages_perm {ms i l} : fetchMessages ms i = .ok l → l.Perm (ms.filter (·.session == i))
  fetchMessages_sorted {ms i l} : fetchMessages ms i = .ok l → SortedOn ChatMessage.createdAt l

/-- The messages a fetch returns are of the session asked for. -/
theorem ModelContext.session_of_mem (c : ModelContext) {ms l : List ChatMessage} {i : Option UUID}
    (h : c.fetchMessages ms i = .ok l) {m : ChatMessage} (hm : m ∈ l) : m.session = i := by
  have := (c.fetchMessages_perm h).mem_iff.mp hm
  simpa using (List.mem_filter.mp this).2

/-- The context that never fails and sorts the records stably, from the
arrangement in which it keeps them. -/
def ModelContext.sorting (arrange : ∀ {β : Type}, List β → List β)
    (h : ∀ {β : Type} (l : List β), (arrange l).Perm l) : ModelContext where
  fetchSessions ss := .ok (sortOn (fun s => OrderDual.toDual s.updatedAt) (arrange ss))
  fetchTitled ss t := .ok (sortOn ChatSession.createdAt (arrange (ss.filter (·.title == t))))
  fetchMessages ms i := .ok (sortOn ChatMessage.createdAt (arrange (ms.filter (·.session == i))))
  save := .ok ()
  fetchSessions_perm := by rintro ss l ⟨⟩; exact (sortOn_perm _ _).trans (h _)
  fetchSessions_sorted := by rintro ss l ⟨⟩; exact sortOn_sorted _ _
  fetchTitled_perm := by rintro ss t l ⟨⟩; exact (sortOn_perm _ _).trans (h _)
  fetchTitled_sorted := by rintro ss t l ⟨⟩; exact sortOn_sorted _ _
  fetchMessages_perm := by rintro ms i l ⟨⟩; exact (sortOn_perm _ _).trans (h _)
  fetchMessages_sorted := by rintro ms i l ⟨⟩; exact sortOn_sorted _ _

/-- The records as they were stored. -/
def ModelContext.stable : ModelContext := .sorting (fun l => l) fun _ => .refl _

/-- The records last stored first. -/
def ModelContext.reversed : ModelContext := .sorting List.reverse List.reverse_perm

def SessionDefaults.legacyTitle : String := "Legacy Chat"
def SessionDefaults.newChatTitle : String := "New Chat"

namespace ViewModel

/-! ## The operations -/

/-- A change of the session with an id: every reference to it sees it. -/
def updateSession (id : UUID) (f : ChatSession → ChatSession) (s : ViewModel E) : ViewModel E :=
  let g := fun x => if x.id = id then f x else x
  { s with sessions := s.sessions.map g, store := { s.store with sessions := s.store.sessions.map g } }

/-- A change of messages: the store and the screen hold the same objects. -/
def updateMessages (f : ChatMessage → ChatMessage) (s : ViewModel E) : ViewModel E :=
  { s with
    chatMessages := s.chatMessages.map f
    store := { s.store with messages := s.store.messages.map f } }

/-- `modelContext.insert(message)` and `chatMessages.append(message)`. -/
def insertMessage (m : ChatMessage) (s : ViewModel E) : ViewModel E :=
  { s with
    chatMessages := s.chatMessages ++ [m]
    store := { s.store with messages := s.store.messages ++ [m] } }

def insertSession (x : ChatSession) (s : ViewModel E) : ViewModel E :=
  { s with store := { s.store with sessions := s.store.sessions ++ [x] } }

/-- A `ChatSession(title:)`, with a fresh id. -/
def newSession (title : String) (now : Date) (s : ViewModel E) : ViewModel E × ChatSession :=
  ({ s with nextId := s.nextId + 1 }, ⟨s.nextId, title, now, now⟩)

/-- `try? refreshSessions`: a failed fetch leaves the list as it is. -/
def refreshSessions (c : ModelContext) (s : ViewModel E) : ViewModel E :=
  match c.fetchSessions s.store.sessions with
  | .ok l => { s with sessions := l }
  | .error _ => s

def loadMessages (c : ModelContext) (session : ChatSession) (s : ViewModel E) : ViewModel E :=
  match c.fetchMessages s.store.messages (some session.id) with
  | .ok l => { s with chatMessages := l }
  | .error e =>
    { s with chatMessages := [], modelError := some ("Failed to load session messages: " ++ e) }

def selectSession (c : ModelContext) (session : ChatSession) (s : ViewModel E) : ViewModel E :=
  loadMessages c session
    { s with activeSessionId := some session.id, savedSessionId := some session.id }

def createNewChatSession (c : ModelContext) (now : Date) (s : ViewModel E) : ViewModel E :=
  let (s, session) := s.newSession SessionDefaults.newChatTitle now
  selectSession c session (refreshSessions c (s.insertSession session))

def renameChatSession (c : ModelContext) (now : Date) (session : ChatSession) (title : String) (s : ViewModel E) :
    ViewModel E :=
  let title := trimmed title
  if title.isEmpty then s
  else refreshSessions c (s.updateSession session.id fun x => { x with title, updatedAt := now })

/-- Cancels the task of `generationTask`; the task itself goes on until it
looks. -/
def cancelTask (s : ViewModel E) : ViewModel E :=
  match s.generationTask with
  | some i => { s with runs := s.runs.modify i fun r => { r with isCancelled := true } }
  | none => s

def stopGeneration (s : ViewModel E) : ViewModel E :=
  { s.cancelTask with generationTask := none, isGenerating := false, generationStage := none }

/-- Deleting a session deletes its messages (`deleteRule: .cascade`). -/
def deleteSession (id : UUID) (s : ViewModel E) : ViewModel E :=
  { s with
    store := { s.store with
      sessions := s.store.sessions.filter (·.id != id)
      messages := s.store.messages.filter (·.session != some id) } }

def deleteChatSession (c : ModelContext) (now : Date) (session : ChatSession) (s : ViewModel E) :
    ViewModel E :=
  let s := if s.activeSessionId = some session.id then s.stopGeneration else s
  let s := refreshSessions c (s.deleteSession session.id)
  match s.sessions with
  | [] => createNewChatSession c now s
  | first :: _ => if s.activeSessionId = some session.id then selectSession c first s else s

def activeSession (s : ViewModel E) : Option ChatSession :=
  s.sessions.find? fun x => some x.id == s.activeSessionId

def restoreSelectedSession (s : ViewModel E) : Option ChatSession :=
  match s.activeSessionId with
  | some id => s.sessions.find? fun x => x.id == id
  | none => none

def ensureActiveSession (c : ModelContext) (now : Date) (s : ViewModel E) :
    ViewModel E × Option ChatSession :=
  match s.activeSession with
  | some current => (s, some current)
  | none =>
    match s.sessions with
    | [] => let s := createNewChatSession c now s; (s, s.activeSession)
    | first :: _ => (selectSession c first s, some first)

def fetchOrCreateLegacySession (c : ModelContext) (now : Date) (s : ViewModel E) :
    Except String (ViewModel E × ChatSession) :=
  match c.fetchTitled s.store.sessions SessionDefaults.legacyTitle with
  | .ok (existing :: _) => .ok (s, existing)
  | .ok [] =>
    let (s, legacy) := s.newSession SessionDefaults.legacyTitle now
    .ok (s.insertSession legacy, legacy)
  | .error e => .error e

/-- The messages of no session go to the legacy one, whose date of change
follows theirs. What was changed before a failure stays changed. -/
def migrateUngroupedMessagesIntoLegacySession (c : ModelContext) (now : Date) (s : ViewModel E) :
    ViewModel E × Except String Unit :=
  match c.fetchMessages s.store.messages none with
  | .error e => (s, .error e)
  | .ok [] => (s, .ok ())
  | .ok ungrouped =>
    match fetchOrCreateLegacySession c now s with
    | .error e => (s, .error e)
    | .ok (s, legacy) =>
      let s := s.updateMessages fun m =>
        if m.session = none then { m with session := some legacy.id } else m
      let s := s.updateSession legacy.id fun x =>
        { x with updatedAt := ungrouped.foldl (fun d m => max d m.createdAt) x.updatedAt }
      (s, c.save)

def ensureAtLeastOneSession (c : ModelContext) (now : Date) (s : ViewModel E) :
    ViewModel E × Except String Unit :=
  match c.fetchSessions s.store.sessions with
  | .error e => (s, .error e)
  | .ok [] =>
    let (s, session) := s.newSession SessionDefaults.newChatTitle now
    (s.insertSession session, c.save)
  | .ok (_ :: _) => (s, .ok ())

/-- What follows a `try`: nothing, if it threw. -/
def andThen (r : ViewModel E × Except String Unit) (k : ViewModel E → ViewModel E × Except String Unit) :
    ViewModel E × Except String Unit :=
  match r.2 with
  | .ok () => k r.1
  | .error e => (r.1, .error e)

/-- The selected session of the last launch, or else the first. -/
def selectInitialSession (c : ModelContext) (s : ViewModel E) : ViewModel E :=
  match s.restoreSelectedSession with
  | some selected => selectSession c selected s
  | none =>
    match s.sessions with
    | first :: _ => selectSession c first s
    | [] => s

/-- The body of the `do` in `bootstrapIfNeeded`. -/
def bootstrap (c : ModelContext) (now : Date) (s : ViewModel E) : ViewModel E × Except String Unit :=
  andThen (migrateUngroupedMessagesIntoLegacySession c now s) fun s =>
    andThen (ensureAtLeastOneSession c now s) fun s =>
      match c.fetchSessions s.store.sessions with
      | .error e => (s, .error e)
      | .ok l => (selectInitialSession c { s with sessions := l }, .ok ())

def bootstrapIfNeeded (c : ModelContext) (now : Date) (s : ViewModel E) : ViewModel E :=
  if s.hasBootstrappedData then s
  else
    match bootstrap c now { s with hasBootstrappedData := true } with
    | (s, .ok ()) => s
    | (s, .error e) =>
      { s with modelError := some ("Failed to bootstrap chat history: " ++ e) }

/-! ## What the operations leave alone -/

/-- What is on screen: the active session and the messages shown. -/
def screen (s : ViewModel E) : Option UUID × List ChatMessage := (s.activeSessionId, s.chatMessages)

/-- The tasks and the flags that go with them. -/
def tasks (s : ViewModel E) : List (Run E) × Bool × Option GenerationStage × Option Nat :=
  (s.runs, s.isGenerating, s.generationStage, s.generationTask)

/-- The messages on screen belong to the active session. -/
def Displayed (s : ViewModel E) : Prop :=
  ∀ m ∈ s.chatMessages, ∃ id, s.activeSessionId = some id ∧ m.session = some id

theorem displayed_iff {s : ViewModel E} :
    s.Displayed ↔ ∀ m ∈ s.chatMessages, m.session ≠ none ∧ s.activeSessionId = m.session := by
  refine forall₂_congr fun m _ => ?_
  constructor
  · rintro ⟨id, ha, hm⟩
    rw [ha, hm]
    exact ⟨Option.some_ne_none id, rfl⟩
  · rintro ⟨hne, ha⟩
    obtain ⟨id, hm⟩ := Option.ne_none_iff_exists'.mp hne
    exact ⟨id, ha.trans hm, hm⟩

instance (s : ViewModel E) : Decidable s.Displayed := decidable_of_iff _ displayed_iff.symm

theorem Displayed.congr {s t : ViewModel E} (h : t.screen = s.screen) (hs : s.Displayed) :
    t.Displayed := by
  obtain ⟨ha, hm⟩ := Prod.mk.inj h
  rwa [Displayed, ha, hm]

section Frame

variable (c : ModelContext) (now : Date)

@[simp] theorem refreshSessions_screen (s : ViewModel E) : (refreshSessions c s).screen = s.screen := by
  unfold refreshSessions; split <;> rfl

@[simp] theorem refreshSessions_tasks (s : ViewModel E) : (refreshSessions c s).tasks = s.tasks := by
  unfold refreshSessions; split <;> rfl

@[simp] theorem selectSession_tasks (x : ChatSession) (s : ViewModel E) :
    (selectSession c x s).tasks = s.tasks := by
  unfold selectSession loadMessages; split <;> rfl

/-- The messages shown, where the fetch does not fail. -/
theorem loadMessages_chatMessages {x : ChatSession} {s : ViewModel E} {l : List ChatMessage}
    (h : c.fetchMessages s.store.messages (some x.id) = .ok l) : (loadMessages c x s).chatMessages = l := by
  rw [loadMessages, h]

theorem selectSession_activeSessionId (x : ChatSession) (s : ViewModel E) :
    (selectSession c x s).activeSessionId = some x.id := by
  unfold selectSession loadMessages; split <;> rfl

/-- Selecting a session shows its messages, whatever was on screen. -/
theorem displayed_selectSession (x : ChatSession) (s : ViewModel E) :
    (selectSession c x s).Displayed := by
  intro m hm
  refine ⟨x.id, selectSession_activeSessionId c x s, ?_⟩
  unfold selectSession loadMessages at hm
  split at hm
  · rename_i l hl
    exact c.session_of_mem hl hm
  · cases hm

@[simp] theorem createNewChatSession_tasks (s : ViewModel E) :
    (createNewChatSession c now s).tasks = s.tasks := by
  simp only [createNewChatSession, selectSession_tasks, refreshSessions_tasks]
  rfl

theorem displayed_createNewChatSession (s : ViewModel E) :
    (createNewChatSession c now s).Displayed := displayed_selectSession c _ _

@[simp] theorem ensureActiveSession_tasks (s : ViewModel E) :
    (ensureActiveSession c now s).1.tasks = s.tasks := by
  unfold ensureActiveSession
  split
  · rfl
  · split
    · exact createNewChatSession_tasks c now s
    · exact selectSession_tasks c _ s

theorem activeSession_spec {s : ViewModel E} {x : ChatSession} (h : s.activeSession = some x) :
    s.activeSessionId = some x.id := by
  unfold activeSession at h
  have := List.find?_some h
  exact (eq_of_beq this).symm

/-- The session `ensureActiveSession` returns is the active one. -/
theorem ensureActiveSession_spec {s t : ViewModel E} {x : ChatSession}
    (h : ensureActiveSession c now s = (t, some x)) : t.activeSessionId = some x.id := by
  unfold ensureActiveSession at h
  split at h
  · obtain ⟨rfl, hx⟩ := Prod.mk.inj h
    cases hx
    exact activeSession_spec ‹_›
  · split at h
    · obtain ⟨rfl, hx⟩ := Prod.mk.inj h
      exact activeSession_spec hx
    · obtain ⟨rfl, hx⟩ := Prod.mk.inj h
      cases hx
      exact selectSession_activeSessionId c _ s

theorem displayed_ensureActiveSession {s : ViewModel E} (h : s.Displayed) :
    (ensureActiveSession c now s).1.Displayed := by
  unfold ensureActiveSession
  split
  · exact h
  · split
    · exact displayed_createNewChatSession c now s
    · exact displayed_selectSession c _ s

theorem fetchOrCreateLegacySession_frame {s t : ViewModel E} {x : ChatSession}
    (h : fetchOrCreateLegacySession c now s = .ok (t, x)) :
    t.screen = s.screen ∧ t.tasks = s.tasks := by
  unfold fetchOrCreateLegacySession at h
  split at h
  · cases h; exact ⟨rfl, rfl⟩
  · cases h; exact ⟨rfl, rfl⟩
  · cases h

@[simp] theorem migrate_tasks (s : ViewModel E) :
    (migrateUngroupedMessagesIntoLegacySession c now s).1.tasks = s.tasks := by
  unfold migrateUngroupedMessagesIntoLegacySession
  split
  · rfl
  · rfl
  · split
    · rfl
    · rename_i h
      exact (fetchOrCreateLegacySession_frame c now h).2

/-- The migration moves messages of no session, and none is on screen. -/
theorem displayed_migrate {s : ViewModel E} (h : s.Displayed) :
    (migrateUngroupedMessagesIntoLegacySession c now s).1.Displayed := by
  unfold migrateUngroupedMessagesIntoLegacySession
  split
  · exact h
  · exact h
  · split
    · exact h
    · rename_i t legacy hl
      have ht := h.congr (fetchOrCreateLegacySession_frame c now hl).1
      intro m hm
      obtain ⟨m', hm', rfl⟩ := List.mem_map.mp hm
      obtain ⟨id, ha, hs⟩ := ht m' hm'
      have hne : m'.session ≠ none := by rw [hs]; exact Option.some_ne_none id
      exact ⟨id, ha, by rw [if_neg hne]; exact hs⟩

theorem ensureAtLeastOneSession_frame (s : ViewModel E) :
    (ensureAtLeastOneSession c now s).1.screen = s.screen ∧
      (ensureAtLeastOneSession c now s).1.tasks = s.tasks := by
  unfold ensureAtLeastOneSession
  split <;> exact ⟨rfl, rfl⟩

theorem andThen_preserves {P : ViewModel E → Prop} {r : ViewModel E × Except String Unit}
    {k : ViewModel E → ViewModel E × Except String Unit} (hr : P r.1)
    (hk : ∀ s, P s → P (k s).1) : P (andThen r k).1 := by
  unfold andThen
  split
  · exact hk _ hr
  · exact hr

/-- `bootstrapIfNeeded` keeps what its steps keep. -/
theorem bootstrapIfNeeded_preserves {P : ViewModel E → Prop}
    (hboot : ∀ s, P s → P { s with hasBootstrappedData := true })
    (hmigrate : ∀ s, P s → P (migrateUngroupedMessagesIntoLegacySession c now s).1)
    (hone : ∀ s, P s → P (ensureAtLeastOneSession c now s).1)
    (hlist : ∀ s l, P s → P { s with sessions := l })
    (hselect : ∀ s x, P s → P (selectSession c x s))
    (herror : ∀ s e, P s → P { s with modelError := e }) {s : ViewModel E} (h : P s) :
    P (bootstrapIfNeeded c now s) := by
  have hinit : ∀ s, P s → P (selectInitialSession c s) := fun s h => by
    unfold selectInitialSession
    split
    · exact hselect _ _ h
    · split
      · exact hselect _ _ h
      · exact h
  have hb : ∀ s, P s → P (bootstrap c now s).1 := fun s h =>
    andThen_preserves (hmigrate s h) fun s h => andThen_preserves (hone s h) fun s h => by
      split
      · exact h
      · exact hinit _ (hlist s _ h)
  have hb := hb _ (hboot s h)
  unfold bootstrapIfNeeded
  split
  · exact h
  · split
    · rename_i he; rw [he] at hb; exact hb
    · rename_i he; rw [he] at hb; exact herror _ _ hb

@[simp] theorem bootstrapIfNeeded_tasks (s : ViewModel E) :
    (bootstrapIfNeeded c now s).tasks = s.tasks :=
  bootstrapIfNeeded_preserves c now (P := fun t => t.tasks = s.tasks) (fun _ h => h)
    (fun t h => (migrate_tasks c now t).trans h)
    (fun t h => (ensureAtLeastOneSession_frame c now t).2.trans h) (fun _ _ h => h)
    (fun t x h => (selectSession_tasks c x t).trans h) (fun _ _ h => h) rfl

theorem displayed_bootstrapIfNeeded {s : ViewModel E} (h : s.Displayed) :
    (bootstrapIfNeeded c now s).Displayed :=
  bootstrapIfNeeded_preserves c now (P := Displayed) (fun _ h => h)
    (fun _ h => displayed_migrate c now h)
    (fun t h => h.congr (ensureAtLeastOneSession_frame c now t).1) (fun _ _ h => h)
    (fun t x _ => displayed_selectSession c x t) (fun _ _ h => h) h

@[simp] theorem stopGeneration_screen (s : ViewModel E) : s.stopGeneration.screen = s.screen := by
  unfold stopGeneration cancelTask; split <;> rfl

@[simp] theorem deleteSession_tasks (id : UUID) (s : ViewModel E) :
    (s.deleteSession id).tasks = s.tasks := rfl

/-- Deleting the active session stops its generation first. -/
theorem deleteChatSession_tasks (x : ChatSession) (s : ViewModel E) :
    (deleteChatSession c now x s).tasks =
      (if s.activeSessionId = some x.id then s.stopGeneration else s).tasks := by
  simp only [deleteChatSession]
  generalize (if s.activeSessionId = some x.id then s.stopGeneration else s) = t
  split
  · rw [createNewChatSession_tasks, refreshSessions_tasks, deleteSession_tasks]
  · split
    · rw [selectSession_tasks, refreshSessions_tasks, deleteSession_tasks]
    · rw [refreshSessions_tasks, deleteSession_tasks]

theorem displayed_deleteChatSession (x : ChatSession) {s : ViewModel E} (h : s.Displayed) :
    (deleteChatSession c now x s).Displayed := by
  have ht : (if s.activeSessionId = some x.id then s.stopGeneration else s).Displayed := by
    split
    · exact h.congr (stopGeneration_screen s)
    · exact h
  simp only [deleteChatSession]
  generalize (if s.activeSessionId = some x.id then s.stopGeneration else s) = t at ht
  split
  · exact displayed_createNewChatSession c now _
  · split
    · exact displayed_selectSession c _ _
    · exact ht.congr (refreshSessions_screen c _)

end Frame

end ViewModel

end SynapsNotes.Chat
