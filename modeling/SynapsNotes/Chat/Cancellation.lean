import SynapsNotes.Chat.Run
import Mathlib.Data.List.Count

/-!
# Stopping a generation

`stopGeneration` resets the flags and cancels the task, but the task looks at
its cancellation only between two tokens of the answer, and its last segment
resets the flags whether it was cancelled or not. By then `isGenerating` may
be the flag of a later run.

`stopped_iff` is the exact condition: stopped runs are silent and the flag
follows the one live run if and only if no stopped run is resumed at a
segment that writes.
-/

namespace SynapsNotes.Chat

open Framework ViewModel

variable {E : Type}

/-- Started, not stopped and not finished. -/
def Run.isLive (r : Run E) : Bool := !r.isCancelled && !r.isFinished

/-- The flag is up exactly while one run is live, and there is never a
second. -/
def Tracked (s : ViewModel E) : Prop := s.runs.countP Run.isLive = if s.isGenerating then 1 else 0

instance (s : ViewModel E) : Decidable (Tracked s) :=
  inferInstanceAs (Decidable (_ = _))

/-- A segment that writes neither flag, whatever it finds in them, and
inserts no message. -/
def Silent (r : Run E) (s : ViewModel E) (e : Resumption E) : Prop :=
  ∀ generating stage s' at',
    resumeRun r { s with isGenerating := generating, generationStage := stage } r.at_ e = some (s', at') →
      s'.isGenerating = generating ∧ s'.generationStage = stage ∧
        s'.chatMessages.length = s.chatMessages.length ∧
        s'.store.messages.length = s.store.messages.length

/-- A stopped run that is resumed is silent. -/
def StoppedSilent (s : ViewModel E) : Action E → Prop
  | .resume i e => ∀ r ∈ s.runs[i]?, r.isCancelled → Silent r s e
  | _ => True

/-- The segments of a run that write a flag or insert a message: the start
and the end of the retrieval, the answer's insertion, and what the stream
yields to a run that has been stopped. -/
def Run.writes (r : Run E) (e : Resumption E) : Bool :=
  match r.at_, e with
  | .created, .begin => r.hasSources
  | .preparing, .ragReady embedQuery => !embedQuery
  | .embedding, .queryEmbedded => true
  | .templating _ _, .templated _ => true
  | .streaming _ _, .token _ _ _ => r.isCancelled
  | .streaming _ _, .ended _ => true
  | .streaming _ _, .failed _ _ _ => true
  | _, _ => false

/-- No stopped run is resumed at a segment that writes. -/
def StaysStopped (s : ViewModel E) : Action E → Prop
  | .resume i e => ∀ r ∈ s.runs[i]?, r.isCancelled → r.writes e = false
  | _ => True

/-! ## Segments -/

section Segment

variable {r : Run E} {s s' : ViewModel E} {e : Resumption E} {at' : Suspension E}

/-- Only the last segment of a run touches `isGenerating`. -/
theorem resumeRun_isGenerating (h : resumeRun r s r.at_ e = some (s', at')) :
    s'.isGenerating = (s.isGenerating && !Run.isFinished { r with at_ := at' }) := by
  generalize hat : r.at_ = at₀ at h
  revert h
  fun_cases resumeRun r s at₀ e <;> intro h <;>
    simp only [Option.some.injEq, Prod.mk.injEq, reduceCtorEq] at h
  all_goals obtain ⟨rfl, rfl⟩ := h
  all_goals simp [Run.isFinished, finishRun, updateAnswer, updateSession, updateMessages, insertMessage]

/-- A finished run is not resumed. -/
theorem resumeRun_unfinished (h : resumeRun r s r.at_ e = some (s', at')) : r.isFinished = false := by
  cases hat : r.at_ with
  | finished =>
    rw [hat] at h
    cases e <;> exact nomatch h
  | _ => simp only [Run.isFinished, hat]

/-- A segment of a stopped run that writes is not silent: it leaves another
flag than it found, or one message more. -/
theorem Silent.writes_eq_false (hc : r.isCancelled) (hs : Silent r s e) : r.writes e = false := by
  rw [Bool.eq_false_iff]
  intro hw
  replace hs := hs true none
  revert hw
  fun_cases Run.writes r e <;> intro hw
  case case1 hat =>
    rw [hat, resumeRun, if_pos hw] at hs
    exact nomatch (hs _ _ rfl).2.1
  case case2 embedQuery hat =>
    rw [hat, (Bool.not_eq_true' embedQuery).mp hw] at hs
    exact nomatch (hs _ _ rfl).2.1
  case case3 hat | case4 hat =>
    rw [hat] at hs
    exact nomatch (hs _ _ rfl).2.1
  case case5 hat =>
    rw [hat, resumeRun, if_pos hc] at hs
    exact nomatch (hs _ _ rfl).1
  case case6 hat | case7 hat =>
    rw [hat] at hs
    exact nomatch (hs _ _ rfl).1
  case case8 => exact nomatch hw

/-- The other segments of a stopped run are silent. -/
theorem silent_of_writes_eq_false (hc : r.isCancelled) (hw : r.writes e = false) : Silent r s e := by
  intro generating stage s' at' h
  generalize hat : r.at_ = at₀ at h
  unfold Run.writes at hw
  rw [hat] at hw
  revert h
  fun_cases resumeRun r { s with isGenerating := generating, generationStage := stage } at₀ e <;> intro h <;>
    simp only [Option.some.injEq, Prod.mk.injEq, reduceCtorEq] at h
  all_goals obtain ⟨rfl, rfl⟩ := h
  all_goals first
    | exact ⟨rfl, rfl, rfl, rfl⟩
    | simp_all

end Segment

theorem stoppedSilent_iff {s : ViewModel E} {a : Action E} : StoppedSilent s a ↔ StaysStopped s a := by
  cases a with
  | resume i e =>
    refine forall₂_congr fun r _ => forall_congr' fun hc => ?_
    exact ⟨Silent.writes_eq_false hc, silent_of_writes_eq_false hc⟩
  | _ => rfl

/-! ## The invariant -/

/-- The flag follows the live run, which `generationTask` refers to. -/
structure Owned (s : ViewModel E) : Prop where
  tracked : Tracked s
  task : ∀ i, ∀ r ∈ s.runs[i]?, r.isLive → s.generationTask = some i

theorem Owned.congr {s t : ViewModel E} (h : t.tasks = s.tasks) (hs : Owned s) : Owned t := by
  simp only [tasks, Prod.mk.injEq] at h
  obtain ⟨hruns, hgen, -, htask⟩ := h
  refine ⟨?_, ?_⟩
  · rw [Tracked, hruns, hgen]
    exact hs.tracked
  · rw [hruns, htask]
    exact hs.task

theorem owned_of_initial {s : ViewModel E} (h : Initial s) : Owned s := by
  refine ⟨?_, fun i r hr => ?_⟩
  · rw [Tracked, h.runs, h.isGenerating]
    rfl
  · rw [h.runs] at hr
    exact nomatch hr

/-- A new run starts while none is live. -/
theorem owned_sendMessage (c : ModelContext) (now : Date) (text : String) (hasSources strict : Bool)
    {s : ViewModel E} (hs : Owned s) : Owned (s.sendMessage c now text hasSources strict) := by
  rcases sendMessage_cases c now text hasSources strict s with h | ⟨hgen, session, h⟩
  · exact hs.congr h
  · simp only [tasks, Prod.mk.injEq] at h
    obtain ⟨hruns, hgen', -, htask⟩ := h
    have hnone : s.runs.countP Run.isLive = 0 := by
      have := hs.tracked
      rwa [Tracked, hgen] at this
    refine ⟨?_, fun i r hr hl => ?_⟩
    · rw [Tracked, hruns, hgen', List.countP_append, hnone]
      rfl
    · rw [hruns] at hr
      rw [htask]
      rcases Nat.lt_or_ge i s.runs.length with hi | hi
      · rw [Option.mem_def, List.getElem?_append_left hi] at hr
        exact absurd hl (List.countP_eq_zero.mp hnone r (List.mem_of_getElem? hr))
      · obtain ⟨hi', -⟩ := List.getElem?_eq_some_iff.mp hr
        rw [List.length_append, List.length_singleton] at hi'
        rw [show i = s.runs.length by omega]

/-- Stopping cancels the one run that may be live. -/
theorem owned_stopGeneration {s : ViewModel E} (hs : Owned s) : Owned s.stopGeneration := by
  have hdead : ∀ (i : Nat) (r : Run E), s.cancelTask.runs[i]? = some r → r.isLive = false := by
    intro i r hr
    unfold cancelTask at hr
    split at hr
    · rename_i j hj
      rw [List.getElem?_modify] at hr
      obtain ⟨r', hr', rfl⟩ := Option.map_eq_some_iff.mp hr
      split
      · rfl
      · rename_i hne
        rw [Bool.eq_false_iff]
        intro hl
        exact hne (Option.some.inj (hj.symm.trans (hs.task i r' hr' hl)))
    · rename_i hnone
      rw [Bool.eq_false_iff]
      intro hl
      exact nomatch hnone.symm.trans (hs.task i r hr hl)
  refine ⟨?_, fun i r hr hl => absurd hl (Bool.eq_false_iff.mp (hdead i r hr))⟩
  show s.cancelTask.runs.countP Run.isLive = 0
  rw [List.countP_eq_zero]
  intro r hr
  obtain ⟨i, hi⟩ := List.mem_iff_getElem?.mp hr
  exact Bool.eq_false_iff.mp (hdead i r hi)

/-- A run in its new suspension, in the count of live runs. -/
theorem countP_isLive_set {s : ViewModel E} {i : Nat} {r : Run E} (hr : s.runs[i]? = some r) (at' : Suspension E) :
    (s.runs.set i { r with at_ := at' }).countP Run.isLive =
      s.runs.countP Run.isLive - (if r.isLive then 1 else 0) + if Run.isLive { r with at_ := at' } then 1 else 0 := by
  obtain ⟨hi, hri⟩ := List.getElem?_eq_some_iff.mp hr
  rw [List.countP_set hi, hri]

/-- A stopped run does not count, and leaves the flag as it was. -/
theorem tracked_resume_stopped {s t : ViewModel E} {i : Nat} {r : Run E} {e : Resumption E} {at' : Suspension E}
    (hs : Tracked s) (hr : s.runs[i]? = some r) (ht : resumeRun r s r.at_ e = some (t, at'))
    (hc : r.isCancelled) (hw : r.writes e = false) : Tracked { t with runs := s.runs.set i { r with at_ := at' } } := by
  obtain ⟨hkeep, -⟩ := silent_of_writes_eq_false (s := s) hc hw s.isGenerating s.generationStage t at' ht
  have h₁ : r.isLive = false := by simp [Run.isLive, hc]
  have h₂ : Run.isLive { r with at_ := at' } = false := by simp [Run.isLive, hc]
  show (s.runs.set i { r with at_ := at' }).countP Run.isLive = if t.isGenerating then 1 else 0
  rw [countP_isLive_set hr, h₁, h₂, hkeep]
  exact hs

/-- The flag is that of the one live run, until it finishes. -/
theorem tracked_resume_live {s t : ViewModel E} {i : Nat} {r : Run E} {e : Resumption E} {at' : Suspension E}
    (hs : Tracked s) (hr : s.runs[i]? = some r) (ht : resumeRun r s r.at_ e = some (t, at'))
    (hc : ¬ r.isCancelled) : Tracked { t with runs := s.runs.set i { r with at_ := at' } } := by
  have h₁ : r.isLive = true := by simp [Run.isLive, hc, resumeRun_unfinished ht]
  have h₂ : Run.isLive { r with at_ := at' } = !Run.isFinished { r with at_ := at' } := by
    simp [Run.isLive, hc]
  have hpos : 0 < s.runs.countP Run.isLive :=
    List.countP_pos_iff.mpr ⟨r, List.mem_of_getElem? hr, h₁⟩
  unfold Tracked at hs
  have hup : s.isGenerating = true := by
    by_contra hdown
    rw [if_neg hdown] at hs
    omega
  rw [hup, if_pos rfl] at hs
  show (s.runs.set i { r with at_ := at' }).countP Run.isLive = if t.isGenerating then 1 else 0
  rw [countP_isLive_set hr, h₁, h₂, resumeRun_isGenerating ht, hup, hs]
  cases Run.isFinished { r with at_ := at' } <;> rfl

/-- A resumed run keeps the flag its own until it finishes, unless it was
stopped, and then it must not write. -/
theorem owned_resume {s s' : ViewModel E} {i : Nat} {e : Resumption E} (hs : Owned s)
    (hok : StaysStopped s (.resume i e)) (h : chatMachine.step s (.resume i e) = some s') : Owned s' := by
  obtain ⟨r, t, at', hr, ht, rfl⟩ := step_resume h
  obtain ⟨hi, -⟩ := List.getElem?_eq_some_iff.mp hr
  refine ⟨?_, fun j r' hr' hl => ?_⟩
  · by_cases hc : r.isCancelled
    · exact tracked_resume_stopped hs.tracked hr ht hc (hok r hr hc)
    · exact tracked_resume_live hs.tracked hr ht hc
  · show t.generationTask = some j
    rw [(resumeRun_frame ht).2.2]
    have hr' : (s.runs.set i { r with at_ := at' })[j]? = some r' := hr'
    by_cases hj : i = j
    · subst hj
      rw [List.getElem?_set_self hi] at hr'
      obtain rfl := Option.some.inj hr'
      -- a run that is live after its segment was live before it
      have hlive : r.isLive := by
        simp only [Run.isLive, Bool.and_eq_true] at hl ⊢
        exact ⟨hl.1, by rw [resumeRun_unfinished ht]; rfl⟩
      exact hs.task i r hr hlive
    · rw [List.getElem?_set_ne hj] at hr'
      exact hs.task j r' hr' hl

theorem owned_step {s s' : ViewModel E} {a : Action E} (hs : Owned s) (hok : StaysStopped s a)
    (h : chatMachine.step s a = some s') : Owned s' := by
  cases a with
  | sendMessage c now text hasSources strict =>
    cases h
    exact owned_sendMessage c now text hasSources strict hs
  | stopGeneration =>
    cases h
    exact owned_stopGeneration hs
  | selectSession c session =>
    cases h
    exact hs.congr (selectSession_tasks c session s)
  | createNewChatSession c now =>
    cases h
    exact hs.congr (createNewChatSession_tasks c now s)
  | deleteChatSession c now session =>
    cases h
    refine Owned.congr (deleteChatSession_tasks c now session s) ?_
    split
    · exact owned_stopGeneration hs
    · exact hs
  | setChatModelLoaded loaded =>
    cases h
    exact ⟨hs.tracked, hs.task⟩
  | resume i e => exact owned_resume hs hok h

/-- From launch on, whatever the order of calls and segments: stopped runs
write nothing more and the flag is up exactly while one run is live, if and
only if no stopped run is resumed at a segment that writes. -/
theorem stopped_iff {s : ViewModel E} (h₀ : Initial s) (as : List (Action E)) :
    chatMachine.Meets StoppedSilent s as ∧ chatMachine.Always Tracked s as ↔
      chatMachine.Meets StaysStopped s as := by
  have hiff : chatMachine.Meets StoppedSilent s as ↔ chatMachine.Meets StaysStopped s as :=
    Machine.steps_congr fun _ _ _ _ => stoppedSilent_iff
  rw [hiff]
  refine ⟨And.left, fun h => ⟨h, ?_⟩⟩
  exact (Machine.Meets.always (fun _ _ _ => owned_step) (owned_of_initial h₀) h).mono fun _ => Owned.tracked

/-- A run that is stopped before it begins and resumed once: so far nothing
is written. -/
theorem stopped_twoSessions :
    chatMachine.Meets StoppedSilent twoSessions
        [.sendMessage .stable 2 "Next steps?" false false, .stopGeneration, .resume 0 .begin] ∧
      chatMachine.Always Tracked twoSessions
        [.sendMessage .stable 2 "Next steps?" false false, .stopGeneration, .resume 0 .begin] := by
  refine (stopped_iff initial_twoSessions _).mpr fun t ht => ⟨trivial, fun t' ht' =>
    ⟨trivial, fun t'' _ => ⟨fun r hr _ => ?_, trivial⟩⟩⟩
  cases ht
  cases ht'
  cases hr
  rfl

/-- The first run is stopped, a second starts, and the first runs to its end:
the flag is down while the second is live. -/
theorem not_stopped_twoSessions :
    ¬ (chatMachine.Meets StoppedSilent twoSessions
          [.sendMessage .stable 2 "Next steps?" false false, .stopGeneration,
            .sendMessage .stable 3 "And then?" false false, .resume 0 .begin, .resume 0 (.templated 4),
            .resume 0 .opened, .resume 0 (.ended .stable)] ∧
        chatMachine.Always Tracked twoSessions
          [.sendMessage .stable 2 "Next steps?" false false, .stopGeneration,
            .sendMessage .stable 3 "And then?" false false, .resume 0 .begin, .resume 0 (.templated 4),
            .resume 0 .opened, .resume 0 (.ended .stable)]) :=
  fun h => Machine.not_always_of_run (by decide +kernel) h.2

end SynapsNotes.Chat
