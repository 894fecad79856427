import SynapsNotes.Editor.Controller

/-!
# Late cleanups

`isGenerating` and `generationTask` belong to the generation that was started
last, but the cleanup of every task resets them. `Owned` is what holds while
no task cleans up after a later one: earlier generations are dead, the flag
says whether the last one is alive, and `generationTask` points at it while it
is, so that a call that cancels reaches it (`Owned.cancelTask`).
`proceed_cases` says what a segment of a task can do, and
`exact_iff_meets` what follows for a run.
-/

namespace SynapsNotes.Editor

open Framework

namespace Controller

variable {c c' : Controller} {i j : Nat} {g : Generation}

/-- The generation started last has neither ended nor been cancelled. -/
def lastIsLive (c : Controller) : Bool := c.generations.getLast?.any Generation.isLive

/-- `isGenerating` is true exactly when the generation started last has
neither ended nor been cancelled, and at most one generation can write the
preview. -/
structure Exact (c : Controller) : Prop where
  isGenerating : c.isGenerating = c.lastIsLive
  atMostOne : c.generations.countP Generation.isLive ≤ 1

instance (c : Controller) : Decidable c.Exact :=
  decidable_of_iff (c.isGenerating = c.lastIsLive ∧ c.generations.countP Generation.isLive ≤ 1)
    ⟨fun h => ⟨h.1, h.2⟩, fun h => ⟨h.isGenerating, h.atMostOne⟩⟩

/-- A task that this step ends was created last, or the one that was does not
run. -/
def CleansUpItsOwn (c : Controller) : Action → Prop
  | .proceed i event => ∀ g ∈ c.generations[i]?, event.ends g = true →
      i + 1 = c.generations.length ∨ c.lastIsLive = false
  | _ => True

/-! ## Which generations are alive -/

def liveAt (c : Controller) (i : Nat) : Bool := c.generations[i]?.any Generation.isLive

theorem lastIsLive_eq (c : Controller) : c.lastIsLive = c.liveAt (c.generations.length - 1) := by
  rw [lastIsLive, liveAt, List.getLast?_eq_getElem?]

theorem lt_of_liveAt (h : c.liveAt i = true) : i < c.generations.length := by
  obtain ⟨g, hg, -⟩ := (Option.any_eq_true _ _).mp h
  exact (List.getElem?_eq_some_iff.mp hg).1

theorem liveAt_setGeneration (hg : c.generations[i]? = some g) (g' : Generation) (j : Nat) :
    (c.setGeneration i g').liveAt j = if i = j then g'.isLive else c.liveAt j := by
  have hi := (List.getElem?_eq_some_iff.mp hg).1
  rw [liveAt, setGeneration, List.getElem?_set]
  split
  · rfl
  · rfl

/-- The task that `generationTask` points at is cancelled, and no other. -/
theorem liveAt_cancelTask (c : Controller) (j : Nat) :
    c.cancelTask.liveAt j = (c.liveAt j && c.generationTask != some j) := by
  unfold cancelTask
  split
  · rename_i i hi
    rw [hi, liveAt, List.getElem?_modify]
    by_cases hj : i = j
    · subst hj
      cases hg : c.generations[i]? with
      | none => simp [liveAt, hg]
      | some g => simp [liveAt, hg, Generation.isLive]
    · have hne : some i ≠ some j := fun h => hj (Option.some.inj h)
      rw [bne_iff_ne.mpr hne, Bool.and_true, liveAt]
      simp only [if_neg hj, Option.map_eq_map, Option.map_id']
  · rename_i hi
    rw [hi]
    exact (Bool.and_true _).symm

/-! ## The invariant -/

/-- What holds while no task cleans up after a later one. -/
structure Owned (c : Controller) : Prop where
  flag : c.isGenerating = c.lastIsLive
  task : c.lastIsLive = true → c.generationTask = some (c.generations.length - 1)
  earlier : ∀ i, c.liveAt i = true → i + 1 = c.generations.length

theorem owned_new : Controller.new.Owned where
  flag := rfl
  task h := nomatch h
  earlier _ h := nomatch h

theorem Owned.exact (h : c.Owned) : c.Exact where
  isGenerating := h.flag
  atMostOne := by
    rcases List.eq_nil_or_concat c.generations with hc | ⟨gs, g, hc⟩
    · rw [hc]
      exact Nat.zero_le 1
    · rw [List.concat_eq_append] at hc
      have hgs : gs.countP Generation.isLive = 0 := by
        refine List.countP_eq_zero.mpr fun g' hg' hlive => ?_
        obtain ⟨i, hi, rfl⟩ := List.mem_iff_getElem.mp hg'
        have := h.earlier i (by rw [liveAt, hc, List.getElem?_append_left hi, List.getElem?_eq_getElem hi]; exact hlive)
        rw [hc, List.length_append, List.length_singleton] at this
        omega
      rw [hc, List.countP_append, hgs, Nat.zero_add]
      exact List.countP_le_length

/-- A call that cancels the task leaves no generation alive. -/
theorem Owned.cancelTask (h : c.Owned) (i : Nat) : c.cancelTask.liveAt i = false := by
  rw [liveAt_cancelTask]
  cases hlive : c.liveAt i with
  | false => rfl
  | true =>
    have hi := h.earlier i hlive
    have hlast : c.lastIsLive = true := by
      rw [lastIsLive_eq, ← hi]
      exact hlive
    rw [h.task hlast, ← hi]
    simp

/-- Without a generation alive, all that is asked is that the flag is down. -/
theorem owned_of_dead (h : ∀ i, c.liveAt i = false) (hflag : c.isGenerating = false) : c.Owned where
  flag := by rw [hflag, lastIsLive_eq, h]
  task hl := by
    rw [lastIsLive_eq, h] at hl
    cases hl
  earlier i hi := by
    rw [h] at hi
    cases hi

/-- What the invariant reads. -/
theorem Owned.congr (h : c.Owned) (hflag : c'.isGenerating = c.isGenerating)
    (htask : c'.generationTask = c.generationTask) (hlen : c'.generations.length = c.generations.length)
    (hlive : ∀ i, c'.liveAt i = c.liveAt i) : c'.Owned where
  flag := by rw [hflag, h.flag, lastIsLive_eq, lastIsLive_eq, hlen, hlive]
  task hl := by
    rw [lastIsLive_eq, hlen, hlive, ← lastIsLive_eq] at hl
    rw [htask, hlen]
    exact h.task hl
  earlier i hi := by
    rw [hlive] at hi
    rw [hlen]
    exact h.earlier i hi

/-! ## The calls -/

/-- A call that is refused, with a message or without. -/
theorem Owned.refused (h : c.Owned) (errorMessage : Option String) : Controller.Owned { c with errorMessage } :=
  h.congr rfl rfl rfl fun _ => rfl

theorem Owned.clearState (h : c.Owned) : c.clearState.Owned :=
  owned_of_dead (fun i => h.cancelTask i) rfl

theorem Owned.runGeneration (h : c.Owned) (prompt : String) (append : Bool) :
    (c.runGeneration prompt append).Owned := by
  have hdead := h.cancelTask
  have hlen : (c.runGeneration prompt append).generations.length = c.cancelTask.generations.length + 1 :=
    List.length_append
  have hlast : (c.runGeneration prompt append).lastIsLive = true := by
    rw [lastIsLive, Controller.runGeneration, List.getLast?_concat]
    rfl
  refine ⟨hlast.symm, fun _ => by rw [hlen]; rfl, fun i hi => ?_⟩
  rcases Nat.lt_or_ge i c.cancelTask.generations.length with hlt | hge
  · rw [liveAt, Controller.runGeneration, List.getElem?_append_left hlt] at hi
    cases (hdead i).symm.trans hi
  · have := lt_of_liveAt hi
    omega

/-- A call keeps the invariant. -/
theorem Owned.call (h : c.Owned) {a : Action} (ha : ∀ i event, a ≠ .proceed i event)
    (hs : machine.step c a = some c') : c'.Owned := by
  cases a with
  | setOutputStyle style =>
    cases hs
    exact h.congr rfl rfl rfl fun _ => rfl
  | start action noteText selectedRange isModelLoaded isAppGenerating =>
    cases hs
    obtain ⟨message, heq⟩ | ⟨-, c₁, scopeDescription, prompt, rfl, heq⟩ :=
      c.start_cases action noteText selectedRange isModelLoaded isAppGenerating
    · rw [heq]
      exact h.refused _
    · rw [heq]
      apply Owned.runGeneration
      exact h.congr rfl rfl rfl fun _ => rfl
  | resume isAppGenerating =>
    cases hs
    obtain ⟨message, heq⟩ | ⟨-, c₁, prompt, rfl, heq⟩ := c.resume_cases isAppGenerating
    · rw [heq]
      exact h.refused _
    · rw [heq]
      apply Owned.runGeneration
      exact h.refused _
  | stop =>
    cases hs
    unfold Controller.stop
    split
    · exact h
    · exact owned_of_dead (fun i => h.cancelTask i) rfl
  | accept =>
    cases hs
    unfold Controller.accept
    split
    · split
      · exact h
      · exact h.clearState
    · exact h
  | reject =>
    cases hs
    unfold Controller.reject
    split <;> exact h.clearState
  | proceed i event => exact absurd rfl (ha i event)

/-! ## The segments of a task -/

/-- A task that goes on is as much alive as it was. -/
theorem liveAt_goesOn (hg : c.generations[i]? = some g) {s : Suspension} (hat : g.at_.isEnded = false)
    (hs : s.isEnded = false) (j : Nat) : (c.setGeneration i { g with at_ := s }).liveAt j = c.liveAt j := by
  rw [liveAt_setGeneration hg]
  split
  · rename_i hij
    rw [← hij, liveAt, hg]
    simp [Generation.isLive, hat, hs]
  · rfl

theorem liveAt_finish (hg : c.generations[i]? = some g) (j : Nat) :
    (c.finish i g).liveAt j = (c.liveAt j && i != j) := by
  show (c.setGeneration i { g with at_ := .ended }).liveAt j = _
  rw [liveAt_setGeneration hg]
  split
  · rename_i hij
    simp [hij, Generation.isLive, Suspension.isEnded]
  · rename_i hij
    simp [hij]

/-- What lives behind a segment, and what the controller knows of it. -/
theorem proceed_liveAt {event : Event} (hg : c.generations[i]? = some g)
    (h : c.proceed i g event = some c') :
    (event.ends g = false ∧ c'.isGenerating = c.isGenerating ∧ c'.generationTask = c.generationTask ∧
      c'.generations.length = c.generations.length ∧ ∀ j, c'.liveAt j = c.liveAt j) ∨
    (event.ends g = true ∧ c'.isGenerating = false ∧
      c'.generations.length = c.generations.length ∧ ∀ j, c'.liveAt j = (c.liveAt j && i != j)) := by
  obtain ⟨s, hgoes, -, hat, hs, -, rfl⟩ | ⟨rawOutput, token, rfl, hcancelled, hat, rfl⟩ | ⟨message, hends, rfl⟩ :=
    proceed_cases h
  · exact .inl ⟨hgoes, rfl, rfl, List.length_set .., liveAt_goesOn hg hat hs⟩
  · exact .inl ⟨hcancelled, rfl, rfl, List.length_set .., liveAt_goesOn hg (by rw [hat]; rfl) rfl⟩
  · exact .inr ⟨hends, rfl, List.length_set .., liveAt_finish hg⟩

/-- A task that was created last, or ends while the last one is dead, cleans
up its own. -/
theorem Owned.ended (h : c.Owned) (hflag : c'.isGenerating = false)
    (hlive : ∀ j, c'.liveAt j = (c.liveAt j && i != j))
    (hown : i + 1 = c.generations.length ∨ c.lastIsLive = false) : c'.Owned := by
  refine owned_of_dead (fun j => ?_) hflag
  rw [hlive]
  cases hj : c.liveAt j with
  | false => rfl
  | true =>
    have hlast := h.earlier j hj
    rcases hown with hi | hdead
    · have hij : i = j := by omega
      simp [hij]
    · rw [lastIsLive_eq, ← hlast, Nat.add_sub_cancel, hj] at hdead
      cases hdead

theorem Owned.step {a : Action} (h : c.Owned) (hown : c.CleansUpItsOwn a) (hs : machine.step c a = some c') :
    c'.Owned := by
  by_cases ha : ∃ i event, a = .proceed i event
  · obtain ⟨i, event, rfl⟩ := ha
    obtain ⟨g, hg, hs⟩ := Option.bind_eq_some_iff.mp hs
    rcases proceed_liveAt hg hs with ⟨-, hflag, htask, hlen, hlive⟩ | ⟨hends, hflag, hlen, hlive⟩
    · exact h.congr hflag htask hlen hlive
    · exact h.ended hflag hlive (hown g hg hends)
  · exact h.call (fun i event he => ha ⟨i, event, he⟩) hs

/-- A task that ends under a later one that is alive takes its flag. -/
theorem Owned.cleansUpItsOwn {a : Action} (hs : machine.step c a = some c') (hexact : c'.Exact) :
    c.CleansUpItsOwn a := by
  cases a with
  | proceed i event =>
    intro g hg hends
    obtain ⟨g', hg', hs⟩ := Option.bind_eq_some_iff.mp hs
    obtain rfl := Option.some.inj (hg'.symm.trans hg)
    rcases proceed_liveAt hg hs with ⟨hgoes, -⟩ | ⟨-, hflag, hlen, hlive⟩
    · rw [hends] at hgoes
      cases hgoes
    · by_cases hi : i + 1 = c.generations.length
      · exact Or.inl hi
      · have hlast := hexact.isGenerating
        have hne : i ≠ c.generations.length - 1 := by
          have := (List.getElem?_eq_some_iff.mp hg).1
          omega
        rw [hflag, lastIsLive_eq, hlen, hlive, bne_iff_ne.mpr hne, Bool.and_true, ← lastIsLive_eq] at hlast
        exact Or.inr hlast.symm
  | _ => trivial

/-- On every interleaving, the controller is exact throughout exactly when no
task but that of the last generation ends while this one runs. -/
theorem exact_iff_meets (as : List Action) :
    machine.Always Exact Controller.new as ↔ machine.Meets CleansUpItsOwn Controller.new as :=
  Machine.always_iff_meets (fun _ h => h.exact) (fun _ _ _ h hok hs => h.step hok hs)
    (fun _ _ _ _ hs hexact => Owned.cleansUpItsOwn hs hexact) owned_new as

/-- A draft is started, rejected before the template of its prompt is there,
and another is started; then the first task goes on to its end. -/
def lateCleanup : List Action :=
  [.start .summarize "a" ⟨0, 0⟩ true false, .proceed 0 .begin, .reject,
    .start .rewrite "a" ⟨0, 0⟩ true false, .proceed 0 (.templated "p"), .proceed 0 .opened,
    .proceed 0 .finished]

/-- After which the second task writes, and can be resumed as if it had been
stopped. -/
def resumedWhileRunning : List Action :=
  lateCleanup ++
    [.proceed 1 .begin, .proceed 1 (.templated "p"), .proceed 1 .opened, .proceed 1 (.token "b"), .resume false]

/-- The late cleanup takes the flag of the generation that runs, and leads to
two generations that can both write the preview. -/
theorem late_cleanup_disowns :
    ¬ machine.Always Exact Controller.new lateCleanup ∧
      ¬ machine.Always (fun c => c.generations.countP Generation.isLive ≤ 1) Controller.new resumedWhileRunning :=
  ⟨Machine.not_always_of_run (by decide), Machine.not_always_of_run (by decide)⟩

end Controller

end SynapsNotes.Editor
