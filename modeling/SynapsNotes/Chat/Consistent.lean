import SynapsNotes.Chat.Session
import SynapsNotes.Framework.Transition

/-!
# Sessions, as they are stored, listed and selected

What `bootstrapIfNeeded` establishes and every operation on sessions keeps,
where no operation of the store fails (`Consistent`): the list holds the
stored sessions, one of them is active and saved as such, and every message
belongs to one. `bootstrapIfNeeded` does so on any store, with messages of no
session and an active session that is gone; `consistent_bootstrapIfNeeded` and
`Consistent.step` are the two halves of the run lemma.
-/

namespace SynapsNotes.Chat

open Framework

variable {E : Type}

/-- A context whose operations succeed. -/
structure WorkingContext extends ModelContext where
  fetchSessions_ok : ∀ ss, ∃ l, fetchSessions ss = .ok l
  fetchTitled_ok : ∀ ss title, ∃ l, fetchTitled ss title = .ok l
  fetchMessages_ok : ∀ ms i, ∃ l, fetchMessages ms i = .ok l
  save_ok : save = .ok ()

/-- The records as they were stored. -/
def WorkingContext.stable : WorkingContext where
  toModelContext := ModelContext.stable
  fetchSessions_ok _ := ⟨_, rfl⟩
  fetchTitled_ok _ _ := ⟨_, rfl⟩
  fetchMessages_ok _ _ := ⟨_, rfl⟩
  save_ok := rfl

/-- A store as it is kept: a message refers to a stored session, or to
none. -/
structure SavedStore (E : Type) where
  store : Store E
  related : ∀ m ∈ store.messages, ∀ id, m.session = some id → ∃ x ∈ store.sessions, x.id = id

/-- The state at launch, with the active session of the last launch. -/
def ViewModel.relaunch (saved : SavedStore E) (activeChatSessionId : Option UUID) (nextId : UUID) : ViewModel E :=
  { ViewModel.launch saved.store nextId with
    activeSessionId := activeChatSessionId
    savedSessionId := activeChatSessionId }

/-! ## The operations -/

/-- The calls of the chat view. -/
inductive SessionCall
  | createNewChatSession
  | renameChatSession (session : ChatSession) (title : String)
  | deleteChatSession (session : ChatSession)
  | selectSession (session : ChatSession)

/-- A call with the store's answers to it and the time of it. -/
structure Call where
  context : WorkingContext
  now : Date
  call : SessionCall

namespace ViewModel

/-- What the chat view calls, on a session of the list. -/
def sessionMachine : Machine (ViewModel E) Call where
  step s a :=
    match a.call with
    | .createNewChatSession => some (s.createNewChatSession a.context.toModelContext a.now)
    | .renameChatSession x title =>
      if x ∈ s.sessions then some (s.renameChatSession a.context.toModelContext a.now x title) else none
    | .deleteChatSession x =>
      if x ∈ s.sessions then some (s.deleteChatSession a.context.toModelContext a.now x) else none
    | .selectSession x => if x ∈ s.sessions then some (s.selectSession a.context.toModelContext x) else none

/-- Every stored message belongs to a stored session. -/
def Grouped (s : ViewModel E) : Prop := ∀ m ∈ s.store.messages, ∃ x ∈ s.store.sessions, m.session = some x.id

/-- The list holds the stored sessions, of which there is one at least; one of
them is active, and saved as the active one; and every stored message belongs
to one. -/
structure Consistent (s : ViewModel E) : Prop where
  nonempty : s.sessions ≠ []
  listed : s.sessions.Perm s.store.sessions
  active : ∃ x ∈ s.sessions, s.activeSession = some x ∧ s.savedSessionId = some x.id
  grouped : s.Grouped

section Operations

variable {s : ViewModel E} (c : WorkingContext) (now : Date)

/-- An active session is a listed one with the active id. -/
theorem Consistent.of_mem {x : ChatSession} (hx : x ∈ s.sessions) (hlisted : s.sessions.Perm s.store.sessions)
    (hgrouped : s.Grouped) (hactive : s.activeSessionId = some x.id) (hsaved : s.savedSessionId = some x.id) :
    s.Consistent where
  nonempty := List.ne_nil_of_mem hx
  listed := hlisted
  active := by
    have hfound : s.activeSession.isSome := by
      unfold activeSession
      rw [List.find?_isSome]
      exact ⟨x, hx, by rw [hactive]; exact beq_self_eq_true _⟩
    obtain ⟨y, hy⟩ := Option.isSome_iff_exists.mp hfound
    refine ⟨y, List.mem_of_find?_eq_some hy, hy, ?_⟩
    rw [hsaved, ← hactive]
    exact activeSession_spec hy
  grouped := hgrouped

theorem Consistent.active_id (h : s.Consistent) :
    ∃ x ∈ s.sessions, s.activeSessionId = some x.id ∧ s.savedSessionId = some x.id := by
  obtain ⟨x, hx, hactive, hsaved⟩ := h.active
  exact ⟨x, hx, activeSession_spec hactive, hsaved⟩

theorem refreshSessions_ok (s : ViewModel E) :
    ∃ l, l.Perm s.store.sessions ∧ refreshSessions c.toModelContext s = { s with sessions := l } := by
  obtain ⟨l, hl⟩ := c.fetchSessions_ok s.store.sessions
  refine ⟨l, c.fetchSessions_perm hl, ?_⟩
  rw [refreshSessions, hl]

/-- Selecting a session changes the active one and the messages shown. -/
theorem selectSession_frame (c : ModelContext) (x : ChatSession) (s : ViewModel E) :
    (selectSession c x s).sessions = s.sessions ∧ (selectSession c x s).store = s.store ∧
      (selectSession c x s).savedSessionId = some x.id := by
  unfold selectSession loadMessages
  split <;> exact ⟨rfl, rfl, rfl⟩

/-- A listed session is selected. -/
theorem consistent_selectSession {x : ChatSession} (hx : x ∈ s.sessions) (hlisted : s.sessions.Perm s.store.sessions)
    (hgrouped : s.Grouped) : (selectSession c.toModelContext x s).Consistent := by
  obtain ⟨hsessions, hstore, hsaved⟩ := selectSession_frame c.toModelContext x s
  refine Consistent.of_mem (hsessions ▸ hx) ?_ ?_ (selectSession_activeSessionId _ x s) hsaved
  · rw [hsessions, hstore]
    exact hlisted
  · unfold Grouped
    rw [hstore]
    exact hgrouped

theorem Grouped.insertSession (h : s.Grouped) (x : ChatSession) : (s.insertSession x).Grouped := by
  intro m hm
  obtain ⟨y, hy, hsession⟩ := h m hm
  exact ⟨y, List.mem_append_left _ hy, hsession⟩

/-- A change of sessions that keeps their ids. -/
theorem Grouped.updateSession (h : s.Grouped) (id : UUID) {f : ChatSession → ChatSession}
    (hf : ∀ x, (f x).id = x.id) : (s.updateSession id f).Grouped := by
  intro m hm
  obtain ⟨x, hx, hsession⟩ := h m hm
  refine ⟨_, List.mem_map_of_mem hx, hsession.trans ?_⟩
  split
  · rw [hf]
  · rfl

/-- The messages of a deleted session are deleted with it. -/
theorem Grouped.deleteSession (h : s.Grouped) (id : UUID) : (s.deleteSession id).Grouped := by
  intro m hm
  obtain ⟨hm, hne⟩ := List.mem_filter.mp hm
  obtain ⟨x, hx, hsession⟩ := h m hm
  refine ⟨x, List.mem_filter.mpr ⟨hx, ?_⟩, hsession⟩
  rw [hsession, bne_iff_ne] at hne
  exact bne_iff_ne.mpr fun he => hne (congrArg some he)

/-- Whatever was listed and active, the new session is. -/
theorem consistent_createNewChatSession (hgrouped : s.Grouped) :
    (createNewChatSession c.toModelContext now s).Consistent := by
  unfold createNewChatSession newSession
  dsimp only
  generalize hx : (⟨s.nextId, SessionDefaults.newChatTitle, now, now⟩ : ChatSession) = x
  have hgrouped : (insertSession x { s with nextId := s.nextId + 1 }).Grouped :=
    Grouped.insertSession (s := { s with nextId := s.nextId + 1 }) hgrouped x
  obtain ⟨l, hperm, hl⟩ := refreshSessions_ok c (insertSession x { s with nextId := s.nextId + 1 })
  rw [hl]
  refine consistent_selectSession c (hperm.mem_iff.mpr ?_) hperm hgrouped
  exact List.mem_append_right _ (List.mem_singleton.mpr rfl)

/-- A renamed session keeps its id, and so its messages and its place as the
active one. -/
theorem Consistent.renameChatSession (h : s.Consistent) (x : ChatSession) (title : String) :
    (renameChatSession c.toModelContext now x title s).Consistent := by
  unfold ViewModel.renameChatSession
  dsimp only
  split
  · exact h
  obtain ⟨y, hy, hactive, hsaved⟩ := h.active_id
  have hgrouped := h.grouped.updateSession x.id
    (f := fun z => { z with title := trimmed title, updatedAt := now }) fun _ => rfl
  obtain ⟨l, hperm, hl⟩ := refreshSessions_ok c
    (s.updateSession x.id fun z => { z with title := trimmed title, updatedAt := now })
  rw [hl]
  have hmem := List.mem_map_of_mem (f := fun z =>
    if z.id = x.id then { z with title := trimmed title, updatedAt := now } else z) (h.listed.mem_iff.mp hy)
  have hid : (if y.id = x.id then { y with title := trimmed title, updatedAt := now } else y).id = y.id := by
    split <;> rfl
  refine Consistent.of_mem (hperm.mem_iff.mpr hmem) hperm hgrouped ?_ ?_
  · rw [hid]
    exact hactive
  · rw [hid]
    exact hsaved

/-- Stopping the generation changes neither the sessions nor which one is
active. -/
theorem stopGeneration_frame (s : ViewModel E) : s.stopGeneration.sessions = s.sessions ∧
    s.stopGeneration.store = s.store ∧ s.stopGeneration.activeSessionId = s.activeSessionId ∧
      s.stopGeneration.savedSessionId = s.savedSessionId := by
  unfold stopGeneration cancelTask
  split <;> exact ⟨rfl, rfl, rfl, rfl⟩

/-- Where the last session is deleted, another is created; where the active
one is, another is selected. -/
theorem Consistent.deleteChatSession (h : s.Consistent) (x : ChatSession) :
    (deleteChatSession c.toModelContext now x s).Consistent := by
  unfold ViewModel.deleteChatSession
  dsimp only
  obtain ⟨t, ht, hstore, hactiveId, hsavedId⟩ : ∃ t,
      t = (if s.activeSessionId = some x.id then s.stopGeneration else s) ∧
      t.store = s.store ∧ t.activeSessionId = s.activeSessionId ∧ t.savedSessionId = s.savedSessionId := by
    refine ⟨_, rfl, ?_⟩
    split
    · exact (stopGeneration_frame s).2
    · exact ⟨rfl, rfl, rfl⟩
  rw [← ht]
  have hgrouped : (t.deleteSession x.id).Grouped := by
    refine Grouped.deleteSession ?_ x.id
    unfold Grouped
    rw [hstore]
    exact h.grouped
  obtain ⟨l, hperm, hl⟩ := refreshSessions_ok c (t.deleteSession x.id)
  rw [hl]
  split
  · exact consistent_createNewChatSession c now hgrouped
  rename_i first rest hsessions
  have hsessions : l = first :: rest := hsessions
  have hfirst : first ∈ l := hsessions ▸ List.mem_cons_self
  split
  · exact consistent_selectSession c hfirst hperm hgrouped
  · rename_i hother
    obtain ⟨y, hy, hactive, hsaved⟩ := h.active_id
    have hactive : t.activeSessionId = some y.id := hactiveId.trans hactive
    have hne : y.id ≠ x.id := fun he => hother (hactive.trans (congrArg some he))
    refine Consistent.of_mem (x := y) (hperm.mem_iff.mpr (List.mem_filter.mpr ⟨?_, bne_iff_ne.mpr hne⟩)) hperm hgrouped
      hactive (hsavedId.trans hsaved)
    rw [hstore]
    exact h.listed.mem_iff.mp hy

/-- Every call keeps the sessions consistent. -/
theorem Consistent.step {t : ViewModel E} {a : Call} (h : s.Consistent) (hs : sessionMachine.step s a = some t) :
    t.Consistent := by
  obtain ⟨c, now, call⟩ := a
  cases call with
  | createNewChatSession =>
    cases hs
    exact consistent_createNewChatSession c now h.grouped
  | renameChatSession x title =>
    obtain ⟨-, hs⟩ := Option.ite_none_right_eq_some.mp hs
    cases hs
    exact h.renameChatSession c now x title
  | deleteChatSession x =>
    obtain ⟨-, hs⟩ := Option.ite_none_right_eq_some.mp hs
    cases hs
    exact h.deleteChatSession c now x
  | selectSession x =>
    obtain ⟨hx, hs⟩ := Option.ite_none_right_eq_some.mp hs
    cases hs
    exact consistent_selectSession c hx h.listed h.grouped

/-! ## The first call -/

/-- The session of a message that has one is stored. -/
def Related (s : ViewModel E) : Prop :=
  ∀ m ∈ s.store.messages, ∀ id, m.session = some id → ∃ x ∈ s.store.sessions, x.id = id

/-- The legacy session is stored, and none goes for it. -/
theorem fetchOrCreateLegacySession_ok (s : ViewModel E) : ∃ t legacy,
    fetchOrCreateLegacySession c.toModelContext now s = .ok (t, legacy) ∧ legacy ∈ t.store.sessions ∧
      s.store.sessions ⊆ t.store.sessions ∧ t.store.messages = s.store.messages := by
  obtain ⟨l, hl⟩ := c.fetchTitled_ok s.store.sessions SessionDefaults.legacyTitle
  have hperm := c.fetchTitled_perm hl
  unfold fetchOrCreateLegacySession
  rw [hl]
  cases l with
  | nil =>
    refine ⟨_, _, rfl, List.mem_append_right _ (List.mem_singleton.mpr rfl), ?_, rfl⟩
    exact List.subset_append_left _ _
  | cons existing rest =>
    refine ⟨s, existing, rfl, ?_, List.Subset.refl _, rfl⟩
    exact (List.mem_filter.mp (hperm.mem_iff.mp List.mem_cons_self)).1

/-- After the migration every message has a stored session. -/
theorem grouped_migrate (h : s.Related) :
    ∃ t, migrateUngroupedMessagesIntoLegacySession c.toModelContext now s = (t, .ok ()) ∧ t.Grouped := by
  obtain ⟨ungrouped, hungrouped⟩ := c.fetchMessages_ok s.store.messages none
  have hperm := c.fetchMessages_perm hungrouped
  unfold migrateUngroupedMessagesIntoLegacySession
  rw [hungrouped]
  cases ungrouped with
  | nil =>
    refine ⟨s, rfl, fun m hm => ?_⟩
    cases hsession : m.session with
    | none =>
      have := hperm.mem_iff.mpr (List.mem_filter.mpr ⟨hm, beq_iff_eq.mpr hsession⟩)
      cases this
    | some id =>
      obtain ⟨x, hx, rfl⟩ := h m hm id hsession
      exact ⟨x, hx, rfl⟩
  | cons m₀ rest =>
    obtain ⟨t, legacy, ht, hlegacy, hsub, hmessages⟩ := fetchOrCreateLegacySession_ok c now s
    rw [ht]
    refine ⟨_, congrArg (Prod.mk _) c.save_ok, ?_⟩
    refine Grouped.updateSession ?_ legacy.id fun _ => rfl
    intro m hm
    obtain ⟨m', hm', rfl⟩ := List.mem_map.mp hm
    split
    · exact ⟨legacy, hlegacy, rfl⟩
    · rename_i hsome
      obtain ⟨id, hid⟩ := Option.ne_none_iff_exists'.mp hsome
      obtain ⟨x, hx, rfl⟩ := h m' (hmessages ▸ hm') id hid
      exact ⟨x, hsub hx, hid⟩

theorem grouped_ensureAtLeastOneSession (h : s.Grouped) :
    ∃ t, ensureAtLeastOneSession c.toModelContext now s = (t, .ok ()) ∧ t.Grouped ∧ t.store.sessions ≠ [] := by
  obtain ⟨l, hl⟩ := c.fetchSessions_ok s.store.sessions
  have hperm := c.fetchSessions_perm hl
  unfold ensureAtLeastOneSession
  rw [hl]
  cases l with
  | nil =>
    refine ⟨_, congrArg (Prod.mk _) c.save_ok, ?_, List.append_ne_nil_of_right_ne_nil _ (List.cons_ne_nil _ _)⟩
    exact Grouped.insertSession (s := { s with nextId := s.nextId + 1 }) h _
  | cons first rest =>
    refine ⟨s, rfl, h, fun he => ?_⟩
    rw [he] at hperm
    cases hperm.eq_nil

/-- A listed session is selected: the one that was active, or the first. -/
theorem consistent_selectInitialSession (hne : s.sessions ≠ []) (hlisted : s.sessions.Perm s.store.sessions)
    (hgrouped : s.Grouped) : (selectInitialSession c.toModelContext s).Consistent := by
  unfold selectInitialSession
  split
  · rename_i selected hselected
    refine consistent_selectSession c ?_ hlisted hgrouped
    unfold restoreSelectedSession at hselected
    split at hselected
    · exact List.mem_of_find?_eq_some hselected
    · cases hselected
  · split
    · rename_i first rest hsessions
      exact consistent_selectSession c (hsessions ▸ List.mem_cons_self) hlisted hgrouped
    · exact absurd ‹_› hne

theorem andThen_ok (s : ViewModel E) (k : ViewModel E → ViewModel E × Except String Unit) :
    andThen (s, .ok ()) k = k s := rfl

/-- `bootstrapIfNeeded` makes the sessions consistent, if it has not run. -/
theorem consistent_bootstrapIfNeeded (h : s.Related) (hfirst : s.hasBootstrappedData = false) :
    (bootstrapIfNeeded c.toModelContext now s).Consistent := by
  obtain ⟨s₁, hmigrate, hgrouped⟩ := grouped_migrate (s := { s with hasBootstrappedData := true }) c now h
  obtain ⟨s₂, hensure, hgrouped, hne⟩ := grouped_ensureAtLeastOneSession c now hgrouped
  obtain ⟨l, hl⟩ := c.fetchSessions_ok s₂.store.sessions
  have hperm := c.fetchSessions_perm hl
  have hboot : bootstrap c.toModelContext now { s with hasBootstrappedData := true } =
      (selectInitialSession c.toModelContext { s₂ with sessions := l }, .ok ()) := by
    unfold bootstrap
    rw [hmigrate, andThen_ok, hensure, andThen_ok, hl]
  unfold bootstrapIfNeeded
  rw [hfirst, if_neg Bool.false_ne_true, hboot]
  refine consistent_selectInitialSession c (fun he => hne ?_) hperm hgrouped
  obtain rfl : l = [] := he
  exact hperm.symm.eq_nil

end Operations

/-- From every store, whatever session the last launch has left as the active
one: after `bootstrapIfNeeded`, and after every sequence of calls of the chat
view, the sessions are consistent. -/
theorem sessions_consistent (saved : SavedStore E) (activeChatSessionId : Option UUID) (nextId : UUID)
    (c : WorkingContext) (now : Date) (calls : List Call) :
    sessionMachine.Always Consistent
      (bootstrapIfNeeded c.toModelContext now (relaunch saved activeChatSessionId nextId)) calls :=
  Machine.always_of_invariant (fun _ _ _ h hs => h.step hs)
    (consistent_bootstrapIfNeeded (s := relaunch saved activeChatSessionId nextId) c now saved.related rfl) calls

/-- A message of no session, and a saved session that is gone. -/
example :
    let message : ChatMessage := ⟨0, "user", "Hello", none, [], [], 4, none⟩
    let saved : SavedStore Unit := ⟨{ Store.empty Unit with messages := [message] }, by decide⟩
    let s := bootstrapIfNeeded ModelContext.stable 9 (relaunch saved (some 5) 1)
    s.activeSession = some ⟨1, "Legacy Chat", 9, 9⟩ ∧ s.chatMessages = [{ message with session := some 1 }] := by
  decide

end ViewModel

end SynapsNotes.Chat
