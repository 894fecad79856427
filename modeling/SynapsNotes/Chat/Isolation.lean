import SynapsNotes.Chat.Run

/-!
# Runs and the session they belong to

A run keeps the session it was started in, but it reads the messages on
screen when it builds its prompt and appends its answer to them, after one
or more suspensions. Another session may be on screen by then:
`deleteChatSession` stops the generation first, `selectSession` and
`createNewChatSession` do not.

`isolated_iff` is the exact condition: the messages on screen and every
prompt stay within their session in every state of a run of the system if
and only if each segment that reads or extends the screen does it while the
run's own session is on screen.
-/

namespace SynapsNotes.Chat

open Framework ViewModel

variable {E : Type}

/-- The prompt that a run awaits the template of, if any, is built from
messages of the run's session only. -/
def Run.OwnPrompt (r : Run E) : Prop := ∀ m ∈ r.history, m.session = some r.session

instance (r : Run E) : Decidable r.OwnPrompt :=
  inferInstanceAs (Decidable (∀ m ∈ r.history, m.session = some r.session))

/-- Nothing crosses from one session to another: not on screen, not into a
prompt. -/
structure Isolated (s : ViewModel E) : Prop where
  displayed : s.Displayed
  ownPrompts : ∀ r ∈ s.runs, r.OwnPrompt

instance (s : ViewModel E) : Decidable (Isolated s) :=
  decidable_of_iff (s.Displayed ∧ ∀ r ∈ s.runs, r.OwnPrompt)
    ⟨fun h => ⟨h.1, h.2⟩, fun h => ⟨h.displayed, h.ownPrompts⟩⟩

/-- A run that reads the screen for its prompt finds its own session there,
or no message; one that appends its answer finds its own session. -/
def OnScreen (s : ViewModel E) : Action E → Prop
  | .resume i e => ∀ r ∈ s.runs[i]?,
    (r.buildsPrompt e → s.chatMessages = [] ∨ s.activeSessionId = some r.session) ∧
      (r.appendsAnswer e → s.activeSessionId = some r.session)
  | _ => True

/-- Tasks that have not begun, or stand where they stood, keep the prompts. -/
theorem ownPrompts_of_mem {s t : ViewModel E} (hs : ∀ r ∈ s.runs, r.OwnPrompt)
    (h : ∀ r ∈ t.runs, r.at_ = .created ∨ ∃ r' ∈ s.runs, r'.session = r.session ∧ r'.at_ = r.at_) :
    ∀ r ∈ t.runs, r.OwnPrompt := by
  intro r hr
  unfold Run.OwnPrompt
  rcases h r hr with hc | ⟨r', hr', hsess, hat⟩
  · rw [Run.history, hc]
    exact List.forall_mem_nil _
  · rw [Run.history, ← hat, ← hsess]
    exact hs r' hr'

theorem ownPrompts_congr {s t : ViewModel E} (h : t.tasks = s.tasks) (hs : ∀ r ∈ s.runs, r.OwnPrompt) :
    ∀ r ∈ t.runs, r.OwnPrompt :=
  ownPrompts_of_mem hs fun r hr => .inr ⟨r, by rwa [← (Prod.mk.inj h).1], rfl, rfl⟩

theorem ownPrompts_stopGeneration {s : ViewModel E} (hs : ∀ r ∈ s.runs, r.OwnPrompt) :
    ∀ r ∈ s.stopGeneration.runs, r.OwnPrompt :=
  ownPrompts_of_mem hs fun _ hr => .inr (mem_stopGeneration_runs hr)

theorem ownPrompts_sendMessage (c : ModelContext) (now : Date) (text : String)
    (hasSources strict : Bool) {s : ViewModel E} (hs : ∀ r ∈ s.runs, r.OwnPrompt) :
    ∀ r ∈ (s.sendMessage c now text hasSources strict).runs, r.OwnPrompt := by
  rcases sendMessage_cases c now text hasSources strict s with h | ⟨-, session, h⟩
  · exact ownPrompts_congr h hs
  · refine ownPrompts_of_mem hs fun r hr => ?_
    rw [show (s.sendMessage c now text hasSources strict).runs = _ from (Prod.mk.inj h).1] at hr
    rcases List.mem_append.mp hr with hr | hr
    · exact .inr ⟨r, hr, rfl, rfl⟩
    · exact .inl (by rw [List.mem_singleton.mp hr])

theorem isolated_of_initial {s : ViewModel E} (h : Initial s) : Isolated s where
  displayed m hm := by rw [h.chatMessages] at hm; cases hm
  ownPrompts r hr := by rw [h.runs] at hr; cases hr

section Resume

variable {s s' : ViewModel E} {i : Nat} {e : Resumption E}

/-- A resumed run keeps the isolation if its own session is on screen. -/
theorem isolated_resume (hs : Isolated s) (hok : OnScreen s (.resume i e))
    (h : chatMachine.step s (.resume i e) = some s') : Isolated s' := by
  obtain ⟨r, t, at', hr, ht, rfl⟩ := step_resume h
  obtain ⟨hbuild, happend⟩ := hok r hr
  refine ⟨?_, fun r' hr' => ?_⟩
  · have hact := (resumeRun_frame ht).2.1
    have hmsgs := resumeRun_chatMessages ht
    show t.Displayed
    split at hmsgs
    · rename_i happ
      obtain ⟨m, hm, hmap⟩ := hmsgs
      intro m' hm'
      rw [hmap] at hm'
      rw [hact]
      rcases List.mem_append.mp hm' with hm' | hm'
      · exact hs.displayed m' hm'
      · rw [List.mem_singleton.mp hm']
        exact ⟨r.session, happend happ, hm⟩
    · obtain ⟨f, hf, hmap⟩ := hmsgs
      intro m hm
      rw [hmap] at hm
      obtain ⟨m', hm', rfl⟩ := List.mem_map.mp hm
      rw [hact, hf]
      exact hs.displayed m' hm'
  · rcases List.mem_or_eq_of_mem_set hr' with hr' | rfl
    · exact hs.ownPrompts r' hr'
    · intro m hm
      rw [resumeRun_history ht] at hm
      split at hm
      · rename_i hb
        obtain ⟨id, hact, hsess⟩ := hs.displayed m hm
        rcases hbuild hb with hnil | hown
        · rw [hnil] at hm
          cases hm
        · rw [hsess, ← hact, hown]
      · cases hm

/-- Conversely a segment that keeps the isolation has found its own session
on screen. -/
theorem onScreen_of_isolated (hs : Isolated s) (h : chatMachine.step s (.resume i e) = some s')
    (hs' : Isolated s') : OnScreen s (.resume i e) := by
  obtain ⟨r₀, t, at', hr₀, ht, rfl⟩ := step_resume h
  intro r hr
  obtain rfl : r₀ = r := Option.some.inj (hr₀.symm.trans hr)
  refine ⟨fun hb => ?_, fun ha => ?_⟩
  · have hhist := resumeRun_history ht
    rw [if_pos hb] at hhist
    rcases hcm : s.chatMessages with _ | ⟨m, ms⟩
    · exact .inl rfl
    · right
      have hm : m ∈ s.chatMessages := by rw [hcm]; exact List.mem_cons_self
      obtain ⟨hi, -⟩ := List.getElem?_eq_some_iff.mp hr
      have hown := hs'.ownPrompts _ (List.mem_set hi _) m (by rwa [hhist])
      obtain ⟨id, hact, hsess⟩ := hs.displayed m hm
      rw [hact, ← hsess, hown]
  · have hmsgs := resumeRun_chatMessages ht
    rw [if_pos ha] at hmsgs
    obtain ⟨m, hm, hmap⟩ := hmsgs
    have hlast : m ∈ t.chatMessages := by
      rw [hmap]
      exact List.mem_append_right _ (List.mem_singleton_self m)
    obtain ⟨id, hact, hsess⟩ := hs'.displayed m hlast
    rw [← (resumeRun_frame ht).2.1, hact, ← hsess, hm]

end Resume

/-- One step, of any kind. -/
theorem isolated_step {s s' : ViewModel E} {a : Action E} (hs : Isolated s) (hok : OnScreen s a)
    (h : chatMachine.step s a = some s') : Isolated s' := by
  cases a with
  | sendMessage c now text hasSources strict =>
    cases h
    exact ⟨displayed_sendMessage c now text hasSources strict hs.displayed,
      ownPrompts_sendMessage c now text hasSources strict hs.ownPrompts⟩
  | stopGeneration =>
    cases h
    exact ⟨hs.displayed.congr (stopGeneration_screen s), ownPrompts_stopGeneration hs.ownPrompts⟩
  | selectSession c session =>
    cases h
    exact ⟨displayed_selectSession c session s, ownPrompts_congr (selectSession_tasks c session s) hs.ownPrompts⟩
  | createNewChatSession c now =>
    cases h
    exact ⟨displayed_createNewChatSession c now s,
      ownPrompts_congr (createNewChatSession_tasks c now s) hs.ownPrompts⟩
  | deleteChatSession c now session =>
    cases h
    refine ⟨displayed_deleteChatSession c now session hs.displayed,
      ownPrompts_congr (deleteChatSession_tasks c now session s) ?_⟩
    split
    · exact ownPrompts_stopGeneration hs.ownPrompts
    · exact hs.ownPrompts
  | setChatModelLoaded loaded =>
    cases h
    exact ⟨hs.displayed, hs.ownPrompts⟩
  | resume i e => exact isolated_resume hs hok h

/-- From launch on, whatever the order of calls and segments: the messages on
screen are of the active session and the prompts of their run's, in every
state, if and only if every segment that reads or extends the screen runs
while its own session is on screen. -/
theorem isolated_iff {s : ViewModel E} (h₀ : Initial s) (as : List (Action E)) :
    chatMachine.Always Isolated s as ↔ chatMachine.Meets OnScreen s as := by
  refine Machine.always_iff_meets (I := Isolated) (fun _ h => h) (fun _ _ _ => isolated_step)
    (fun s a s' hs h hs' => ?_) (isolated_of_initial h₀) as
  cases a with
  | resume i e => exact onScreen_of_isolated hs h hs'
  | _ => trivial

/-! ## A session switched away from -/

/-- A message sent from the first session, with the prompt built while that
session is still on screen. -/
theorem isolated_twoSessions :
    chatMachine.Always Isolated twoSessions
      [.sendMessage .stable 2 "Next steps?" false false, .resume 0 .begin] := by
  refine (isolated_iff initial_twoSessions _).mpr fun t ht => ⟨trivial, fun t' _ => ⟨fun r hr => ?_, trivial⟩⟩
  cases ht
  cases hr
  exact ⟨fun _ => .inr rfl, fun h => nomatch h⟩

/-- The second session is selected before the task begins: the prompt of the
first session's run holds the diary, and the answer is shown there. -/
theorem not_isolated_twoSessions :
    Initial twoSessions ∧ ¬ chatMachine.Always Isolated twoSessions
      [.sendMessage .stable 2 "Next steps?" false false, .selectSession .stable ⟨1, "Diary", 0, 0⟩,
        .resume 0 .begin, .resume 0 (.templated 3)] :=
  ⟨initial_twoSessions, Machine.not_always_of_run (by decide +kernel)⟩

end SynapsNotes.Chat
