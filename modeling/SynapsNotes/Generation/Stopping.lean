import SynapsNotes.Generation.Loop

/-!
# Stop calls and the jobs of the actor

`completion` returns its stream at once and leaves the generation to a task
of its own, a job of the actor that no other job interrupts; `stopCompletion`
is a job that sets a flag, as unloading the model does, and the generation
resets the flag when it starts. The jobs run in any order, and callers enqueue
them at any time. A consumer that stops reading, or is cancelled, tells the
actor nothing: the stream has no termination handler and the task has no
handle.

So a loop reads the flag only while it is down (`Consistent.flag`), and a stop
call made while a stream was open is heeded only if the loop of that stream
never runs (`Consistent.heededIfFailed`). `stopsHeeded_iff_loopAvoided` says
when that is so: no stop call is made while a loop runs, and no loop begins
for a stream that was open when one was made.
-/

namespace SynapsNotes.Generation

open Framework SynapsNotes.Runtime

variable {C Token : Type}

/-- What `completion` returned: its generation has not begun, runs, or has
finished the stream. -/
inductive Stream (C Token : Type)
  | waiting (prompt : String) (maxTokens : ℕ)
  | generating (maxTokens : ℕ) (s : LoopState C Token)
  | finished (result : Except LlamaError (LoopState C Token))

def Stream.isOpen : Stream C Token → Bool
  | .finished _ => false
  | _ => true

/-- The tokens that were decoded for the stream. -/
def Stream.decoded : Stream C Token → ℕ
  | .waiting _ _ => 0
  | .generating _ s => s.n_decode
  | .finished (.ok s) => s.n_decode
  | .finished (.error _) => 0

/-- A call of `stopCompletion`: the streams that were open when it was made,
and, once its job has run, the tokens decoded until then. -/
structure StopCall where
  window : ℕ → Bool
  ranAt : Option (ℕ → ℕ)

/-- The actor, with the jobs that were enqueued. `running` is the generation
that holds the actor. -/
structure LlamaActor (C Token : Type) where
  stopRequested : Bool
  isLoaded : Bool
  context : C
  running : Option ℕ
  calls : List (String × ℕ)
  streams : ℕ → Option (Stream C Token)
  nextStream : ℕ
  stops : ℕ → Option StopCall
  nextStop : ℕ

def LlamaActor.initial (context : C) : LlamaActor C Token :=
  ⟨false, false, context, none, [], fun _ => none, 0, fun _ => none, 0⟩

inductive Job (C : Type)
  | callCompletion (prompt : String) (maxTokens : ℕ)
  | completion (i : ℕ)
  | generate (i : ℕ)
  | pass
  | callStop
  | stopCompletion (k : ℕ)
  /-- The context of the model that is loaded; a load that fails leaves none. -/
  | loadModel (context : Option C)
  | unloadChat

namespace LlamaActor

variable (L : Llama C Token)

def isOpen (s : LlamaActor C Token) (i : ℕ) : Bool := (s.streams i).any Stream.isOpen

def decoded (s : LlamaActor C Token) (i : ℕ) : ℕ := ((s.streams i).map Stream.decoded).getD 0

def setStream (i : ℕ) (stream : Stream C Token) (s : LlamaActor C Token) : LlamaActor C Token :=
  { s with streams := Function.update s.streams i (some stream) }

theorem streams_setStream (s : LlamaActor C Token) (i j : ℕ) (stream : Stream C Token) :
    (s.setStream i stream).streams j = if j = i then some stream else s.streams j :=
  Function.update_apply ..

/-- The stream of a call that is waiting. -/
def completion (i : ℕ) (s : LlamaActor C Token) : Option (LlamaActor C Token) :=
  s.calls[i]?.map fun call =>
    { s.setStream s.nextStream (.waiting call.1 call.2) with
      calls := s.calls.eraseIdx i
      nextStream := s.nextStream + 1 }

/-- The task of a stream, up to its loop. -/
def generate (i : ℕ) (s : LlamaActor C Token) : Option (LlamaActor C Token) :=
  match s.streams i with
  | some (.waiting prompt maxTokens) =>
    if s.isLoaded then
      match beginCompletion L prompt s.context with
      | .error e =>
        some { s.setStream i (.finished (.error e)) with
          stopRequested := false, context := L.memoryClear s.context }
      | .ok g =>
        some { s.setStream i (.generating maxTokens g) with stopRequested := false, running := some i }
    else some (s.setStream i (.finished (.error .notLoaded)))
  | _ => none

/-- One pass of the loop that holds the actor. -/
def pass (s : LlamaActor C Token) : Option (LlamaActor C Token) :=
  match s.running with
  | none => none
  | some i =>
    match s.streams i with
    | some (.generating maxTokens g) =>
      ((completionLoop L maxTokens).step g s.stopRequested).map fun g' =>
        if g'.ended.isSome then
          { s.setStream i (.finished (.ok g')) with running := none, context := g'.context }
        else s.setStream i (.generating maxTokens g')
    | _ => none

def callStop (s : LlamaActor C Token) : LlamaActor C Token :=
  { s with
    stops := Function.update s.stops s.nextStop (some ⟨s.isOpen, none⟩)
    nextStop := s.nextStop + 1 }

def stopCompletion (k : ℕ) (s : LlamaActor C Token) : Option (LlamaActor C Token) :=
  match s.stops k with
  | some ⟨window, none⟩ =>
    some { s with
      stopRequested := true
      stops := Function.update s.stops k (some ⟨window, some s.decoded⟩) }
  | _ => none

def loadModel (context : Option C) (s : LlamaActor C Token) : LlamaActor C Token :=
  { s with isLoaded := context.isSome, context := context.getD s.context }

def unloadChat (s : LlamaActor C Token) : LlamaActor C Token := { s with stopRequested := true, isLoaded := false }

end LlamaActor

open LlamaActor

/-- Calls are made at any time; a job runs when no generation holds the
actor. -/
def llamaActor (L : Llama C Token) : Machine (LlamaActor C Token) (Job C) where
  step s
    | .callCompletion prompt maxTokens => some { s with calls := s.calls ++ [(prompt, maxTokens)] }
    | .callStop => some s.callStop
    | .pass => s.pass L
    | .completion i => if s.running.isNone then s.completion i else none
    | .generate i => if s.running.isNone then s.generate L i else none
    | .stopCompletion k => if s.running.isNone then s.stopCompletion k else none
    | .loadModel context => if s.running.isNone then some (s.loadModel context) else none
    | .unloadChat => if s.running.isNone then some s.unloadChat else none

/-! ## What becomes of a stop call -/

/-- The loop of the stream, if it has ended, was ended by the flag, and no
token was decoded after the job of the stop call had run. -/
def Heeded (s : LlamaActor C Token) (call : StopCall) (i : ℕ) : Prop :=
  (∀ g, s.streams i = some (.finished (.ok g)) → g.ended = some .stopped) ∧
    ∀ decoded, call.ranAt = some decoded → s.decoded i ≤ decoded i

/-- The stop calls that were made while a stream was open were heeded, if the
stream has finished. -/
def StopsHeeded (s : LlamaActor C Token) : Prop :=
  ∀ k call, s.stops k = some call → ∀ i, call.window i = true →
    ∀ result, s.streams i = some (.finished result) → Heeded s call i

/-- A stop call was made while the stream was open. -/
def ToStop (s : LlamaActor C Token) (i : ℕ) : Prop := ∃ k call, s.stops k = some call ∧ call.window i = true

/-- No loop is there to miss a stop call: none runs when it is made, and for a
stream that is to be stopped none begins, since no model is loaded or the
prompt does not decode. -/
def LoopAvoided (L : Llama C Token) (s : LlamaActor C Token) : Job C → Prop
  | .callStop => s.running = none
  | .generate i => ToStop s i → s.isLoaded = true → ∀ prompt maxTokens,
      s.streams i = some (.waiting prompt maxTokens) → ∃ e, beginCompletion L prompt s.context = .error e
  | _ => True

/-- Of the streams that were open when a stop call was made, those whose loop
never ran have heeded it, and no other. -/
def HeededIfFailed (s : LlamaActor C Token) : Prop :=
  ∀ k call, s.stops k = some call → ∀ i, call.window i = true →
    ∀ result, s.streams i = some (.finished result) → (Heeded s call i ↔ ∃ e, result = .error e)

/-! ## The invariant -/

/-- A pass that reads the flag down does not end the loop as stopped. -/
theorem pass_ended_ne_stopped (L : Llama C Token) (maxTokens : ℕ) (stops : List Text)
    {g : LoopState C Token} (hg : g.ended = none) :
    (Generation.pass L maxTokens stops false g).ended ≠ some .stopped := by
  simp only [Generation.pass, Bool.false_eq_true, if_false]
  split
  · split
    · simp
    · split
      · simp
      · rcases (advance_spec L (L.sample g.context).1 _).2.2.2 with ⟨e, he⟩ | ⟨he, _⟩
        · rw [he]
          simp
        · rw [he, hg]
          simp
  · simp

/-- While a generation holds the actor the flag is down, and no loop ended
because of it. -/
structure Consistent (s : LlamaActor C Token) : Prop where
  flag : s.running.isSome → s.stopRequested = false
  loops : ∀ i g, s.streams i = some (.finished (.ok g)) → g.ended ≠ some .stopped

theorem consistent_initial (context : C) : Consistent (LlamaActor.initial context : LlamaActor C Token) :=
  ⟨nofun, nofun⟩

/-- A stream that did not end its loop may be put in any place. -/
theorem loops_setStream {s : LlamaActor C Token} (h : Consistent s) {i : ℕ} {stream : Stream C Token}
    (hstream : ∀ g, stream = .finished (.ok g) → g.ended ≠ some .stopped) (j : ℕ) (g : LoopState C Token)
    (hj : (s.setStream i stream).streams j = some (.finished (.ok g))) : g.ended ≠ some .stopped := by
  rw [streams_setStream] at hj
  split at hj
  · exact hstream g (Option.some.inj hj)
  · exact h.loops j g hj

section Step

variable {L : Llama C Token} {s s' : LlamaActor C Token}

theorem Consistent.completion (h : Consistent s) {i : ℕ} (he : s.completion i = some s') : Consistent s' := by
  obtain ⟨call, _, rfl⟩ := Option.map_eq_some_iff.mp he
  exact ⟨h.flag, loops_setStream h nofun⟩

theorem Consistent.generate (h : Consistent s) {i : ℕ} (he : s.generate L i = some s') : Consistent s' := by
  rw [LlamaActor.generate] at he
  split at he
  · split at he
    · split at he
      · cases he
        exact ⟨fun _ => rfl, loops_setStream h nofun⟩
      · cases he
        exact ⟨fun _ => rfl, loops_setStream h nofun⟩
    · cases he
      exact ⟨h.flag, loops_setStream h nofun⟩
  · exact nomatch he

theorem Consistent.pass (h : Consistent s) (he : s.pass L = some s') : Consistent s' := by
  rw [LlamaActor.pass] at he
  split at he
  · exact nomatch he
  · rename_i i hi
    split at he
    · rename_i maxTokens g hg
      obtain ⟨g', hstep, rfl⟩ := Option.map_eq_some_iff.mp he
      obtain ⟨hnone, rfl⟩ := step_eq hstep
      rw [h.flag (by rw [hi]; rfl)]
      split
      · refine ⟨nofun, loops_setStream h fun g'' hg'' => ?_⟩
        cases hg''
        exact pass_ended_ne_stopped L _ _ hnone
      · exact ⟨h.flag, loops_setStream h nofun⟩
    · exact nomatch he

theorem Consistent.stopCompletion (h : Consistent s) (hidle : s.running.isNone) {k : ℕ}
    (he : s.stopCompletion k = some s') : Consistent s' := by
  rw [LlamaActor.stopCompletion] at he
  split at he
  · cases he
    refine ⟨fun hrun => ?_, h.loops⟩
    rw [Option.isNone_iff_eq_none.mp hidle] at hrun
    exact nomatch hrun
  · exact nomatch he

theorem Consistent.step (h : Consistent s) {job : Job C} (he : (llamaActor L).step s job = some s') :
    Consistent s' := by
  cases job with
  | callCompletion prompt maxTokens =>
    cases he
    exact ⟨h.flag, h.loops⟩
  | callStop =>
    cases he
    exact ⟨h.flag, h.loops⟩
  | pass => exact h.pass he
  | completion i =>
    obtain ⟨-, he⟩ := Option.ite_none_right_eq_some.mp he
    exact h.completion he
  | generate i =>
    obtain ⟨-, he⟩ := Option.ite_none_right_eq_some.mp he
    exact h.generate he
  | stopCompletion k =>
    obtain ⟨hidle, he⟩ := Option.ite_none_right_eq_some.mp he
    exact h.stopCompletion hidle he
  | loadModel context =>
    obtain ⟨-, he⟩ := Option.ite_none_right_eq_some.mp he
    cases he
    exact ⟨h.flag, h.loops⟩
  | unloadChat =>
    obtain ⟨hidle, he⟩ := Option.ite_none_right_eq_some.mp he
    cases he
    refine ⟨fun hrun => ?_, h.loops⟩
    rw [unloadChat, Option.isNone_iff_eq_none.mp hidle] at hrun
    exact nomatch hrun

end Step

theorem Consistent.heededIfFailed {s : LlamaActor C Token} (h : Consistent s) : HeededIfFailed s := by
  intro k call hk i hi result hresult
  cases result with
  | ok g =>
    refine iff_of_false (fun hheeded => ?_) (by rintro ⟨e, he⟩; exact nomatch he)
    exact h.loops i g hresult (hheeded.1 g hresult)
  | error e =>
    refine iff_of_true ⟨fun g hg => ?_, fun decoded _ => ?_⟩ ⟨e, rfl⟩
    · rw [hresult] at hg
      exact nomatch hg
    · rw [LlamaActor.decoded, hresult]
      exact Nat.zero_le _

/-! ## Streams with a loop -/

/-- A loop has been begun for the stream. -/
def Stream.hasLoop : Stream C Token → Bool
  | .generating _ _ => true
  | .finished (.ok _) => true
  | _ => false

/-- No loop has been begun for a stream that is to be stopped. -/
def NoneLooped (s : LlamaActor C Token) : Prop := ∀ i, ToStop s i → (s.streams i).any Stream.hasLoop = false

/-- The loop that runs is that of `running`, and the streams and the stop calls
are numbered in their order. -/
structure Tracked (s : LlamaActor C Token) : Prop where
  running : ∀ i, s.running = some i ↔ ∃ maxTokens g, s.streams i = some (.generating maxTokens g)
  streams : ∀ i, s.nextStream ≤ i → s.streams i = none
  stops : ∀ k, s.nextStop ≤ k → s.stops k = none

theorem tracked_initial (context : C) : Tracked (LlamaActor.initial context : LlamaActor C Token) :=
  ⟨fun _ => iff_of_false nofun nofun, fun _ _ => rfl, fun _ _ => rfl⟩

/-- While no generation runs, no stream has a loop, and one may have
finished. -/
theorem Tracked.any_hasLoop_of_idle {s : LlamaActor C Token} (ht : Tracked s) (hidle : s.running = none) (i : ℕ) :
    (s.streams i).any Stream.hasLoop = false ∨ ∃ result, s.streams i = some (.finished result) := by
  cases hs : s.streams i with
  | none => exact .inl rfl
  | some stream =>
    cases stream with
    | waiting prompt maxTokens => exact .inl rfl
    | generating maxTokens g => exact nomatch hidle.symm.trans ((ht.running i).mpr ⟨maxTokens, g, hs⟩)
    | finished result => exact .inr ⟨result, rfl⟩

section Streams

variable {L : Llama C Token} {s s' : LlamaActor C Token} {i : ℕ} {stream : Stream C Token}

theorem any_hasLoop_setStream (h : (s.streams i).any Stream.hasLoop = stream.hasLoop) (j : ℕ) :
    ((s.setStream i stream).streams j).any Stream.hasLoop = (s.streams j).any Stream.hasLoop := by
  rw [streams_setStream]
  split
  · subst_vars
    exact h.symm
  · rfl

theorem NoneLooped.congr (hstop : ∀ i, ToStop s' i ↔ ToStop s i)
    (hloop : ∀ i, (s'.streams i).any Stream.hasLoop = (s.streams i).any Stream.hasLoop) :
    NoneLooped s' ↔ NoneLooped s :=
  forall_congr' fun i => by rw [hstop, hloop]

theorem running_setStream {r : Option ℕ}
    (hrest : ∀ j, j ≠ i → (r = some j ↔ ∃ maxTokens g, s.streams j = some (.generating maxTokens g)))
    (hi : r = some i ↔ ∃ maxTokens g, stream = .generating maxTokens g) (j : ℕ) :
    r = some j ↔ ∃ maxTokens g, (s.setStream i stream).streams j = some (.generating maxTokens g) := by
  rw [streams_setStream]
  split
  · subst_vars
    simpa using hi
  · exact hrest j ‹_›

theorem Tracked.streams_setStream (ht : Tracked s) (hi : (s.streams i).isSome) (stream : Stream C Token) (j : ℕ)
    (hj : s.nextStream ≤ j) : (s.setStream i stream).streams j = none := by
  rw [LlamaActor.streams_setStream, if_neg, ht.streams j hj]
  rintro rfl
  rw [ht.streams j hj] at hi
  cases hi

theorem Tracked.completion (ht : Tracked s) (he : s.completion i = some s') : Tracked s' := by
  obtain ⟨call, _, rfl⟩ := Option.map_eq_some_iff.mp he
  have hfresh := ht.streams s.nextStream le_rfl
  refine ⟨running_setStream (fun j _ => ht.running j) ?_, fun j hj => ?_, ht.stops⟩
  · show s.running = some s.nextStream ↔ _
    rw [ht.running, hfresh]
    simp
  · show (s.setStream s.nextStream _).streams j = none
    rw [LlamaActor.streams_setStream, if_neg (Nat.lt_of_succ_le hj).ne', ht.streams j (Nat.le_of_succ_le hj)]

theorem Tracked.generate (ht : Tracked s) (hidle : s.running = none) (he : s.generate L i = some s') :
    Tracked s' := by
  have hrest : ∀ j, none = some j ↔ ∃ maxTokens g, s.streams j = some (.generating maxTokens g) := hidle ▸ ht.running
  rw [LlamaActor.generate] at he
  split at he
  · rename_i prompt maxTokens hi
    have hfresh := ht.streams_setStream (hi ▸ rfl : (s.streams i).isSome)
    split at he
    · split at he
      · cases he
        exact ⟨running_setStream (fun j _ => ht.running j) (by simp [setStream, hidle]), hfresh _, ht.stops⟩
      · cases he
        refine ⟨running_setStream (fun j hj => ?_) (by simp), hfresh _, ht.stops⟩
        rw [← hrest j]
        exact iff_of_false (fun heq => hj (Option.some.inj heq).symm) nofun
    · cases he
      exact ⟨running_setStream (fun j _ => ht.running j) (by simp [setStream, hidle]), hfresh _, ht.stops⟩
  · cases he

theorem Tracked.pass (ht : Tracked s) (he : s.pass L = some s') : Tracked s' := by
  rw [LlamaActor.pass] at he
  split at he
  · cases he
  · rename_i i hi
    split at he
    · rename_i maxTokens g hg
      have hfresh := ht.streams_setStream (hg ▸ rfl : (s.streams i).isSome)
      obtain ⟨g', -, rfl⟩ := Option.map_eq_some_iff.mp he
      split
      · refine ⟨running_setStream (fun j hj => ?_) (by simp), hfresh _, ht.stops⟩
        rw [← ht.running j, hi]
        exact iff_of_false nofun fun heq => hj (Option.some.inj heq).symm
      · exact ⟨running_setStream (fun j _ => ht.running j) (by simp [setStream, hi]), hfresh _, ht.stops⟩
    · cases he

theorem Tracked.step (ht : Tracked s) {job : Job C} (he : (llamaActor L).step s job = some s') : Tracked s' := by
  cases job with
  | callCompletion prompt maxTokens =>
    cases he
    exact ⟨ht.running, ht.streams, ht.stops⟩
  | callStop =>
    cases he
    refine ⟨ht.running, ht.streams, fun k hk => ?_⟩
    exact (Function.update_of_ne (Nat.lt_of_succ_le hk).ne' ..).trans (ht.stops k (Nat.le_of_succ_le hk))
  | pass => exact ht.pass he
  | completion i =>
    obtain ⟨-, he⟩ := Option.ite_none_right_eq_some.mp he
    exact ht.completion he
  | generate i =>
    obtain ⟨hidle, he⟩ := Option.ite_none_right_eq_some.mp he
    exact ht.generate (Option.isNone_iff_eq_none.mp hidle) he
  | stopCompletion k =>
    obtain ⟨-, he⟩ := Option.ite_none_right_eq_some.mp he
    rw [LlamaActor.stopCompletion] at he
    split at he
    · rename_i window hk
      cases he
      refine ⟨ht.running, ht.streams, fun j hj => ?_⟩
      refine (Function.update_of_ne ?_ ..).trans (ht.stops j hj)
      rintro rfl
      exact nomatch hk.symm.trans (ht.stops j hj)
    · cases he
  | loadModel context =>
    obtain ⟨-, he⟩ := Option.ite_none_right_eq_some.mp he
    cases he
    exact ⟨ht.running, ht.streams, ht.stops⟩
  | unloadChat =>
    obtain ⟨-, he⟩ := Option.ite_none_right_eq_some.mp he
    cases he
    exact ⟨ht.running, ht.streams, ht.stops⟩

/-- A stop call that is put in place of one that stops no more streams adds
the streams it is to stop. -/
theorem toStop_update {k : ℕ} {call : StopCall} (hs' : s'.stops = Function.update s.stops k (some call))
    (hwindow : ∀ old, s.stops k = some old → ∀ i, old.window i = true → call.window i = true) (i : ℕ) :
    ToStop s' i ↔ ToStop s i ∨ call.window i = true := by
  simp only [ToStop, hs', Function.update_apply]
  constructor
  · rintro ⟨j, other, hj, hi⟩
    split at hj
    · obtain rfl := Option.some.inj hj
      exact .inr hi
    · exact .inl ⟨j, other, hj, hi⟩
  · rintro (⟨j, old, hj, hi⟩ | hi)
    · by_cases heq : j = k
      · subst heq
        exact ⟨j, call, if_pos rfl, hwindow old hj i hi⟩
      · exact ⟨j, old, (if_neg heq).trans hj, hi⟩
    · exact ⟨k, call, if_pos rfl, hi⟩

/-- The streams that a new stop call is to stop are the open ones. -/
theorem toStop_callStop (ht : Tracked s) (i : ℕ) : ToStop s.callStop i ↔ ToStop s i ∨ s.isOpen i = true := by
  have hstops : s.callStop.stops = Function.update s.stops s.nextStop (some ⟨s.isOpen, none⟩) := rfl
  refine toStop_update hstops (fun old hold => ?_) i
  rw [ht.stops _ le_rfl] at hold
  cases hold

theorem noneLooped_callStop_iff (ht : Tracked s) : NoneLooped s.callStop ↔ NoneLooped s ∧ s.running = none := by
  constructor
  · intro h
    refine ⟨fun i hi => h i ((toStop_callStop ht i).mpr (.inl hi)), ?_⟩
    refine Option.eq_none_iff_forall_not_mem.mpr fun i hi => ?_
    obtain ⟨maxTokens, g, hg⟩ := (ht.running i).mp hi
    have hnone := h i ((toStop_callStop ht i).mpr (.inr (by rw [isOpen, hg]; rfl)))
    rw [show s.callStop.streams i = s.streams i from rfl, hg] at hnone
    cases hnone
  · rintro ⟨h, hidle⟩ i hi
    rcases (toStop_callStop ht i).mp hi with hi | hopen
    · exact h i hi
    · show (s.streams i).any Stream.hasLoop = false
      obtain hloop | ⟨result, hs⟩ := ht.any_hasLoop_of_idle hidle i
      · exact hloop
      · rw [isOpen, hs] at hopen
        cases hopen

theorem noneLooped_pass_iff (he : s.pass L = some s') : NoneLooped s' ↔ NoneLooped s := by
  rw [LlamaActor.pass] at he
  split at he
  · cases he
  · split at he
    · rename_i maxTokens g hg
      obtain ⟨g', -, rfl⟩ := Option.map_eq_some_iff.mp he
      split
      · exact NoneLooped.congr (fun _ => Iff.rfl) (any_hasLoop_setStream (by rw [hg]; rfl))
      · exact NoneLooped.congr (fun _ => Iff.rfl) (any_hasLoop_setStream (by rw [hg]; rfl))
    · cases he

theorem noneLooped_stopCompletion_iff {k : ℕ} (he : s.stopCompletion k = some s') : NoneLooped s' ↔ NoneLooped s := by
  rw [LlamaActor.stopCompletion] at he
  split at he
  · rename_i window hk
    cases he
    refine NoneLooped.congr (fun i => ?_) fun _ => rfl
    have hran {t : LlamaActor C Token} (ht : t.stops = Function.update s.stops k (some ⟨window, some s.decoded⟩)) :
        ToStop t i ↔ ToStop s i := by
      refine (toStop_update ht (fun old hold => ?_) i).trans (or_iff_left_of_imp fun hi => ⟨k, _, hk, hi⟩)
      cases hk.symm.trans hold
      exact fun _ => id
    exact hran rfl
  · cases he

/-- A loop that begins is one more that has been begun. -/
theorem noneLooped_generating_iff {maxTokens : ℕ} {g : LoopState C Token}
    (hi : (s.streams i).any Stream.hasLoop = false)
    (hs' : s'.streams = (s.setStream i (.generating maxTokens g)).streams) (hstops : s'.stops = s.stops) :
    NoneLooped s' ↔ NoneLooped s ∧ ¬ ToStop s i := by
  have hstop (j : ℕ) : ToStop s' j ↔ ToStop s j := by rw [ToStop, ToStop, hstops]
  constructor
  · intro h
    refine ⟨fun j hj => ?_, fun hstopped => ?_⟩
    · by_cases heq : j = i
      · rw [heq, hi]
      · have hloop := h j ((hstop j).mpr hj)
        rwa [hs', streams_setStream, if_neg heq] at hloop
    · have hloop := h i ((hstop i).mpr hstopped)
      rw [hs', streams_setStream, if_pos rfl] at hloop
      cases hloop
  · rintro ⟨h, hnot⟩ j hj
    have heq : j ≠ i := fun heq => hnot (heq ▸ (hstop j).mp hj)
    rw [hs', streams_setStream, if_neg heq]
    exact h j ((hstop j).mp hj)

theorem noneLooped_generate_iff (he : s.generate L i = some s') :
    NoneLooped s' ↔ NoneLooped s ∧ LoopAvoided L s (.generate i) := by
  rw [LlamaActor.generate] at he
  split at he
  · rename_i prompt maxTokens hi
    have hwaiting : (s.streams i).any Stream.hasLoop = false := by rw [hi]; rfl
    split at he
    · rename_i hloaded
      split at he
      · rename_i e hbegin
        cases he
        have havoided : LoopAvoided L s (.generate i) := by
          intro _ _ prompt' maxTokens' hi'
          cases hi.symm.trans hi'
          exact ⟨e, hbegin⟩
        rw [and_iff_left havoided]
        exact NoneLooped.congr (fun _ => Iff.rfl) (any_hasLoop_setStream hwaiting)
      · rename_i g hbegin
        cases he
        refine (noneLooped_generating_iff hwaiting rfl rfl).trans (and_congr_right fun _ => ?_)
        refine ⟨fun hnot hstopped => absurd hstopped hnot, fun havoided hstopped => ?_⟩
        obtain ⟨e, he⟩ := havoided hstopped hloaded prompt maxTokens hi
        rw [hbegin] at he
        cases he
    · rename_i hloaded
      cases he
      rw [and_iff_left (show LoopAvoided L s (.generate i) from fun _ h => absurd h hloaded)]
      exact NoneLooped.congr (fun _ => Iff.rfl) (any_hasLoop_setStream hwaiting)
  · cases he

/-- A job begins a loop for a stream that is to be stopped, or makes a stop
call that a loop misses, exactly if it does not avoid that. -/
theorem noneLooped_step_iff (ht : Tracked s) {job : Job C} (he : (llamaActor L).step s job = some s') :
    NoneLooped s' ↔ NoneLooped s ∧ LoopAvoided L s job := by
  cases job with
  | callCompletion prompt maxTokens =>
    cases he
    exact (and_iff_left trivial).symm
  | callStop =>
    cases he
    exact noneLooped_callStop_iff ht
  | pass =>
    rw [and_iff_left (show LoopAvoided L s .pass from trivial)]
    exact noneLooped_pass_iff he
  | completion i =>
    obtain ⟨-, he⟩ := Option.ite_none_right_eq_some.mp he
    rw [and_iff_left (show LoopAvoided L s (.completion i) from trivial)]
    obtain ⟨call, _, rfl⟩ := Option.map_eq_some_iff.mp he
    exact NoneLooped.congr (fun _ => Iff.rfl) (any_hasLoop_setStream (by rw [ht.streams _ le_rfl]; rfl))
  | generate i =>
    obtain ⟨-, he⟩ := Option.ite_none_right_eq_some.mp he
    exact noneLooped_generate_iff he
  | stopCompletion k =>
    obtain ⟨-, he⟩ := Option.ite_none_right_eq_some.mp he
    rw [and_iff_left (show LoopAvoided L s (.stopCompletion k) from trivial)]
    exact noneLooped_stopCompletion_iff he
  | loadModel context =>
    obtain ⟨-, he⟩ := Option.ite_none_right_eq_some.mp he
    cases he
    exact (and_iff_left trivial).symm
  | unloadChat =>
    obtain ⟨-, he⟩ := Option.ite_none_right_eq_some.mp he
    cases he
    exact (and_iff_left trivial).symm

end Streams

/-- Without a loop that could miss them, the stop calls are heeded. -/
theorem NoneLooped.stopsHeeded {s : LlamaActor C Token} (h : NoneLooped s) (hc : Consistent s) : StopsHeeded s := by
  intro k call hk i hi result hresult
  refine (hc.heededIfFailed k call hk i hi result hresult).mpr ?_
  have hloop := h i ⟨k, call, hk, hi⟩
  rw [hresult] at hloop
  cases result with
  | ok g => cases hloop
  | error e => exact ⟨e, rfl⟩

/-- A loop that has ended has missed them. -/
theorem StopsHeeded.noneLooped {s : LlamaActor C Token} (h : StopsHeeded s) (hc : Consistent s) (ht : Tracked s)
    (hidle : s.running = none) : NoneLooped s := by
  rintro i ⟨k, call, hk, hi⟩
  obtain hloop | ⟨result, hs⟩ := ht.any_hasLoop_of_idle hidle i
  · exact hloop
  · obtain ⟨e, rfl⟩ := (hc.heededIfFailed k call hk i hi result hs).mp (h k call hk i hi result hs)
    rw [hs]
    rfl

/-- In every schedule whose jobs avoid a loop for a stream that is to be
stopped, every stop call is heeded at any time; and after a schedule whose
loops have all ended, they were all heeded only then. -/
theorem stopsHeeded_iff_loopAvoided (L : Llama C Token) (context : C) (jobs : List (Job C)) :
    ((llamaActor L).Meets (LoopAvoided L) (LlamaActor.initial context) jobs →
      (llamaActor L).Always StopsHeeded (LlamaActor.initial context) jobs) ∧
    ∀ s, (llamaActor L).run (LlamaActor.initial context) jobs = some s → s.running = none →
      (StopsHeeded s ↔ (llamaActor L).Meets (LoopAvoided L) (LlamaActor.initial context) jobs) := by
  have hinv : ∀ s job s', Consistent s ∧ Tracked s → (llamaActor L).step s job = some s' →
      Consistent s' ∧ Tracked s' := fun _ _ _ h he => ⟨h.1.step he, h.2.step he⟩
  have hc₀ : Consistent (LlamaActor.initial context : LlamaActor C Token) := consistent_initial context
  have ht₀ : Tracked (LlamaActor.initial context : LlamaActor C Token) := tracked_initial context
  have hnone : NoneLooped (LlamaActor.initial context : LlamaActor C Token) := fun _ _ => rfl
  constructor
  · intro hmeets
    have hkeep : ∀ s job s', (Consistent s ∧ Tracked s) ∧ NoneLooped s → LoopAvoided L s job →
        (llamaActor L).step s job = some s' → (Consistent s' ∧ Tracked s') ∧ NoneLooped s' :=
      fun s job s' h hok he => ⟨hinv s job s' h.1 he, (noneLooped_step_iff h.1.2 he).mpr ⟨h.2, hok⟩⟩
    exact (Machine.Meets.always hkeep ⟨⟨hc₀, ht₀⟩, hnone⟩ hmeets).mono fun s h => h.2.stopsHeeded h.1.1
  · intro s hr hidle
    obtain ⟨hc, ht⟩ := (Machine.always_of_invariant hinv ⟨hc₀, ht₀⟩ jobs).last hr
    have hrun := Machine.run_iff_meets hinv (fun _ _ _ h he => noneLooped_step_iff h.2 he) ⟨hc₀, ht₀⟩ hr
    rw [and_iff_right hnone] at hrun
    rw [← hrun]
    exact ⟨fun h => h.noneLooped hc ht hidle, fun h => h.stopsHeeded hc⟩

/-- A model that goes on for as long as it may. -/
def Llama.endless : Llama Unit Unit where
  tokenize _ := [()]
  memoryClear _ := ()
  n_ctx := 4
  n_batch := 512
  decode _ _ := some ()
  sample _ := ((), ())
  isEog _ := false
  tokenBytes _ := [97]

/-- The stop job runs between the return of the stream and its generation:
the loop decodes three tokens after it, and ends at its limit. -/
theorem stop_before_generation_is_lost :
    ¬ (llamaActor .endless).Always StopsHeeded (LlamaActor.initial ())
      [.loadModel (some ()), .callCompletion "hello" 768, .completion 0, .callStop, .stopCompletion 0,
        .generate 0, .pass, .pass, .pass, .pass] := by
  intro h
  have hlost := (h.last rfl 0 _ rfl 0 rfl _ rfl).2 _ rfl
  revert hlost
  decide +kernel

end SynapsNotes.Generation
