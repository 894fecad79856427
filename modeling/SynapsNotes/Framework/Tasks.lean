import SynapsNotes.Framework.Transition

/-!
# Tasks that call another actor

A program on one actor, the main actor, that starts tasks. A task runs in
segments that nothing interrupts. A segment ends where the task awaits: the
next operation, or a call that another actor performs as one job. Which task
goes on next and which call is performed next is part of the action, so a run
of the machine is one schedule.

`step_cases` says once what a step can do. `Local.always` is the rule for
data that is captured before a call, travels with it and is written after it:
what each segment and each job keeps, taken alone, holds on every schedule.
-/

namespace SynapsNotes.Framework

/-- Where a task is: at its next operation, waiting for a call to be
performed, or performed and waiting for the main actor. -/
inductive Point (κ ρ : Type*)
  | ready
  | calling (call : κ)
  | returned (result : ρ)
  deriving DecidableEq

def Point.isReady {κ ρ : Type*} : Point κ ρ → Bool
  | ready => true
  | _ => false

structure Task (ο κ ρ : Type*) where
  at_ : Point κ ρ
  rest : List ο
  isCancelled : Bool

structure World (μ ε ο κ ρ : Type*) where
  main : μ
  actor : ε
  tasks : List (Task ο κ ρ)

/-- What a segment leaves: the main actor's state, what the task does next
and the call that it awaits first. -/
structure Segment (μ ο κ : Type*) where
  main : μ
  next : List ο
  call : Option κ

/-- What a call from outside leaves: the main actor's state, the tasks it
starts and the numbers of those it cancels. -/
structure Spawn (μ ο : Type*) where
  main : μ
  started : List (List ο)
  cancelled : List Nat

/-- A program, by its uninterrupted pieces: the calls from outside (given the
number the next task will have), the segment of an operation (given whether
the task is cancelled), a job of the other actor, and the segment after it. -/
structure Program (μ ε ο κ ρ ι χ ω : Type*) where
  input : ι → Nat → μ → Spawn μ ο
  start : χ → Bool → ο → μ → Segment μ ο κ
  perform : ω → κ → ε → ε × ρ
  resume : χ → ρ → μ → μ × List ο

inductive Action (ι χ ω : Type*)
  | input (a : ι)
  | advance (task : Nat) (choice : χ)
  | perform (task : Nat) (answer : ω)

variable {μ ε ο κ ρ ι χ ω : Type*}

def Task.new (ops : List ο) : Task ο κ ρ := { at_ := .ready, rest := ops, isCancelled := false }

def cancelTasks (cancelled : List Nat) (tasks : List (Task ο κ ρ)) : List (Task ο κ ρ) :=
  tasks.mapIdx fun i t => if i ∈ cancelled then { t with isCancelled := true } else t

/-- The point after a segment. -/
def Segment.at_ (seg : Segment μ ο κ) : Point κ ρ :=
  match seg.call with
  | some call => .calling call
  | none => .ready

namespace Program

variable (p : Program μ ε ο κ ρ ι χ ω)

/-- The next segment of a task. -/
def advance (choice : χ) (t : Task ο κ ρ) (m : μ) : Option (μ × Task ο κ ρ) :=
  match t.at_, t.rest with
  | .ready, [] => none
  | .ready, op :: rest =>
    let seg := p.start choice t.isCancelled op m
    some (seg.main, { t with at_ := seg.at_, rest := seg.next ++ rest })
  | .calling _, _ => none
  | .returned result, rest =>
    let r := p.resume choice result m
    some (r.1, { t with at_ := .ready, rest := r.2 ++ rest })

/-- The call a task waits for, performed. -/
def runCall (answer : ω) (t : Task ο κ ρ) (e : ε) : Option (ε × Task ο κ ρ) :=
  match t.at_ with
  | .calling call =>
    let r := p.perform answer call e
    some (r.1, { t with at_ := .returned r.2 })
  | _ => none

/-- A call from outside. -/
def receive (a : ι) (w : World μ ε ο κ ρ) : World μ ε ο κ ρ :=
  let r := p.input a w.tasks.length w.main
  { w with main := r.main, tasks := cancelTasks r.cancelled w.tasks ++ r.started.map Task.new }

def machine : Machine (World μ ε ο κ ρ) (Action ι χ ω) where
  step w
    | .input a => some (p.receive a w)
    | .advance i choice =>
      (w.tasks[i]?).bind fun t =>
        (p.advance choice t w.main).map fun r => { w with main := r.1, tasks := w.tasks.set i r.2 }
    | .perform i answer =>
      (w.tasks[i]?).bind fun t =>
        (p.runCall answer t w.actor).map fun r => { w with actor := r.1, tasks := w.tasks.set i r.2 }

variable {p}

/-- What a step can do: a call from outside, the segment of an operation, the
segment after a call, or a job of the other actor. -/
theorem step_cases {w w' : World μ ε ο κ ρ} {a : Action ι χ ω} (h : p.machine.step w a = some w') :
    (∃ x, a = .input x ∧ w' = p.receive x w) ∨
    (∃ i choice t op rest, a = .advance i choice ∧ w.tasks[i]? = some t ∧ t.at_ = .ready ∧
      t.rest = op :: rest ∧
      w' = { w with
        main := (p.start choice t.isCancelled op w.main).main
        tasks := w.tasks.set i { t with
          at_ := (p.start choice t.isCancelled op w.main).at_
          rest := (p.start choice t.isCancelled op w.main).next ++ rest } }) ∨
    (∃ i choice t result, a = .advance i choice ∧ w.tasks[i]? = some t ∧ t.at_ = .returned result ∧
      w' = { w with
        main := (p.resume choice result w.main).1
        tasks := w.tasks.set i { t with at_ := .ready, rest := (p.resume choice result w.main).2 ++ t.rest } }) ∨
    (∃ i answer t call, a = .perform i answer ∧ w.tasks[i]? = some t ∧ t.at_ = .calling call ∧
      w' = { w with
        actor := (p.perform answer call w.actor).1
        tasks := w.tasks.set i { t with at_ := .returned (p.perform answer call w.actor).2 } }) := by
  cases a with
  | input x =>
    cases h
    exact Or.inl ⟨x, rfl, rfl⟩
  | advance i choice =>
    obtain ⟨t, ht, h⟩ := Option.bind_eq_some_iff.mp h
    obtain ⟨r, hr, rfl⟩ := Option.map_eq_some_iff.mp h
    unfold advance at hr
    split at hr
    · cases hr
    · rename_i op rest hat hrest
      cases hr
      exact Or.inr (Or.inl ⟨i, choice, t, op, rest, rfl, ht, hat, hrest, rfl⟩)
    · cases hr
    · rename_i result hat
      cases hr
      exact Or.inr (Or.inr (Or.inl ⟨i, choice, t, result, rfl, ht, hat, rfl⟩))
  | perform i answer =>
    obtain ⟨t, ht, h⟩ := Option.bind_eq_some_iff.mp h
    obtain ⟨r, hr, rfl⟩ := Option.map_eq_some_iff.mp h
    unfold runCall at hr
    split at hr
    · rename_i call hat
      cases hr
      exact Or.inr (Or.inr (Or.inr ⟨i, answer, t, call, rfl, ht, hat, rfl⟩))
    · cases hr

end Program

/-- What a list with one entry replaced has: the new entry and the others. -/
theorem exists_mem_set_iff {β : Type*} {l : List β} {i : Nat} (h : i < l.length) (a : β) (q : β → Prop) :
    (∃ x ∈ l.set i a, q x) ↔ q a ∨ ∃ x ∈ l.eraseIdx i, q x := by
  rw [List.set_eq_take_append_cons_drop, if_pos h, List.eraseIdx_eq_take_drop_succ]
  simp only [List.mem_append, List.mem_cons]
  constructor
  · rintro ⟨x, hx | rfl | hx, hq⟩
    · exact Or.inr ⟨x, Or.inl hx, hq⟩
    · exact Or.inl hq
    · exact Or.inr ⟨x, Or.inr hx, hq⟩
  · rintro (hq | ⟨x, hx | hx, hq⟩)
    · exact ⟨a, Or.inr (Or.inl rfl), hq⟩
    · exact ⟨x, Or.inl hx, hq⟩
    · exact ⟨x, Or.inr (Or.inr hx), hq⟩

theorem exists_mem_iff_eraseIdx {β : Type*} {l : List β} {i : Nat} {b : β} (h : l[i]? = some b) (q : β → Prop) :
    (∃ x ∈ l, q x) ↔ q b ∨ ∃ x ∈ l.eraseIdx i, q x := by
  obtain ⟨hi, rfl⟩ := List.getElem?_eq_some_iff.mp h
  rw [← exists_mem_set_iff hi, List.set_getElem_self]

/-- A cancelled task is where it was. -/
theorem exists_of_mem_cancelTasks {cancelled : List Nat} {tasks : List (Task ο κ ρ)} {t : Task ο κ ρ}
    (h : t ∈ cancelTasks cancelled tasks) : ∃ t' ∈ tasks, t.at_ = t'.at_ ∧ t.rest = t'.rest := by
  obtain ⟨i, hi, rfl⟩ := List.mem_mapIdx.mp h
  refine ⟨tasks[i], List.getElem_mem hi, ?_⟩
  split <;> exact ⟨rfl, rfl⟩

theorem exists_mem_cancelTasks (cancelled : List Nat) {tasks : List (Task ο κ ρ)} {t : Task ο κ ρ}
    (h : t ∈ tasks) : ∃ t' ∈ cancelTasks cancelled tasks, t'.at_ = t.at_ := by
  obtain ⟨i, hi, rfl⟩ := List.mem_iff_getElem.mp h
  refine ⟨_, List.mem_mapIdx.mpr ⟨i, hi, rfl⟩, ?_⟩
  split <;> rfl

/-- No call is waiting, and no result has not been taken up. -/
def World.Quiet (w : World μ ε ο κ ρ) : Prop := ∀ t ∈ w.tasks, t.at_.isReady = true

instance (w : World μ ε ο κ ρ) : Decidable w.Quiet :=
  inferInstanceAs (Decidable (∀ t ∈ w.tasks, t.at_.isReady = true))

/-! ## What travels with a call -/

def Point.Holds (C : κ → Prop) (R : ρ → Prop) : Point κ ρ → Prop
  | ready => True
  | calling call => C call
  | returned result => R result

/-- `I` of the main actor, `O` of every operation to come, `C` of every call
that waits and `R` of every result that has not been taken up. -/
structure Coupled (I : μ → Prop) (O : ο → Prop) (C : κ → Prop) (R : ρ → Prop) (w : World μ ε ο κ ρ) :
    Prop where
  main : I w.main
  at_ : ∀ t ∈ w.tasks, t.at_.Holds C R
  rest : ∀ t ∈ w.tasks, ∀ op ∈ t.rest, O op

/-- `Q` of the operation a task is about to start, if it is. -/
def Task.Starts (Q : ο → Prop) (t : Task ο κ ρ) : Prop :=
  match t.at_, t.rest with
  | .ready, op :: _ => Q op
  | _, _ => True

instance {C : κ → Prop} {R : ρ → Prop} [DecidablePred C] [DecidablePred R] (x : Point κ ρ) :
    Decidable (x.Holds C R) :=
  match x with
  | .ready => isTrue trivial
  | .calling call => inferInstanceAs (Decidable (C call))
  | .returned result => inferInstanceAs (Decidable (R result))

instance {Q : ο → Prop} [DecidablePred Q] (t : Task ο κ ρ) : Decidable (t.Starts Q) :=
  match t with
  | ⟨.ready, op :: _, _⟩ => inferInstanceAs (Decidable (Q op))
  | ⟨.ready, [], _⟩ => isTrue trivial
  | ⟨.calling _, _, _⟩ => isTrue trivial
  | ⟨.returned _, _, _⟩ => isTrue trivial

/-- The segment of an operation starts only where `okStart` holds of the main
actor, and a call is performed only where `okPerform` holds of the other. -/
def Allowed (okStart : χ → μ → ο → Prop) (okPerform : ε → κ → Prop) (w : World μ ε ο κ ρ) :
    Action ι χ ω → Prop
  | .input _ => True
  | .advance i choice => ∀ t ∈ w.tasks[i]?, t.Starts (okStart choice w.main)
  | .perform i _ => ∀ t ∈ w.tasks[i]?, t.at_.Holds (okPerform w.actor) fun _ => True

instance {okStart : χ → μ → ο → Prop} {okPerform : ε → κ → Prop} [∀ choice m, DecidablePred (okStart choice m)]
    [∀ e, DecidablePred (okPerform e)] (w : World μ ε ο κ ρ) (a : Action ι χ ω) :
    Decidable (Allowed okStart okPerform w a) :=
  match a with
  | .input _ => isTrue trivial
  | .advance i choice => inferInstanceAs (Decidable (∀ t ∈ w.tasks[i]?, t.Starts (okStart choice w.main)))
  | .perform i _ => inferInstanceAs (Decidable (∀ t ∈ w.tasks[i]?, t.at_.Holds (okPerform w.actor) fun _ => True))

/-- What is asked of each piece of the program, taken alone. -/
structure Local (p : Program μ ε ο κ ρ ι χ ω) (I : μ → Prop) (O : ο → Prop) (C : κ → Prop) (R : ρ → Prop)
    (okStart : χ → μ → ο → Prop) (okPerform : ε → κ → Prop) : Prop where
  input : ∀ a n m, I m → I (p.input a n m).main ∧ ∀ ops ∈ (p.input a n m).started, ∀ op ∈ ops, O op
  start : ∀ choice c op m, I m → O op → okStart choice m op → I (p.start choice c op m).main ∧
    (∀ op' ∈ (p.start choice c op m).next, O op') ∧ ∀ call ∈ (p.start choice c op m).call, C call
  perform : ∀ answer call e, C call → okPerform e call → R (p.perform answer call e).2
  resume : ∀ choice result m, I m → R result → I (p.resume choice result m).1 ∧
    ∀ op ∈ (p.resume choice result m).2, O op

section Local

variable {p : Program μ ε ο κ ρ ι χ ω} {I : μ → Prop} {O : ο → Prop} {C : κ → Prop} {R : ρ → Prop}
  {okStart : χ → μ → ο → Prop} {okPerform : ε → κ → Prop}

theorem Coupled.set {w : World μ ε ο κ ρ} (hw : Coupled I O C R w) {i : Nat} {t : Task ο κ ρ} {m : μ} {e : ε}
    (hm : I m) (hat : t.at_.Holds C R) (hrest : ∀ op ∈ t.rest, O op) :
    Coupled I O C R { main := m, actor := e, tasks := w.tasks.set i t } where
  main := hm
  at_ t' ht' := by
    rcases List.mem_or_eq_of_mem_set ht' with h | rfl
    · exact hw.at_ t' h
    · exact hat
  rest t' ht' := by
    rcases List.mem_or_eq_of_mem_set ht' with h | rfl
    · exact hw.rest t' h
    · exact hrest

theorem Local.receive (hp : Local p I O C R okStart okPerform) {w : World μ ε ο κ ρ}
    (hw : Coupled I O C R w) (a : ι) : Coupled I O C R (p.receive a w) := by
  obtain ⟨hm, hstarted⟩ := hp.input a w.tasks.length w.main hw.main
  refine ⟨hm, fun t ht => ?_, fun t ht => ?_⟩
  · rcases List.mem_append.mp ht with h | h
    · obtain ⟨t', ht', hat, -⟩ := exists_of_mem_cancelTasks h
      rw [hat]
      exact hw.at_ t' ht'
    · obtain ⟨ops, -, rfl⟩ := List.mem_map.mp h
      trivial
  · rcases List.mem_append.mp ht with h | h
    · obtain ⟨t', ht', -, hrest⟩ := exists_of_mem_cancelTasks h
      rw [hrest]
      exact hw.rest t' ht'
    · obtain ⟨ops, hops, rfl⟩ := List.mem_map.mp h
      exact hstarted ops hops

/-- One step: each piece keeps its part. -/
theorem Local.step (hp : Local p I O C R okStart okPerform) {w w' : World μ ε ο κ ρ} {a : Action ι χ ω}
    (hw : Coupled I O C R w) (hok : Allowed okStart okPerform w a) (h : p.machine.step w a = some w') :
    Coupled I O C R w' := by
  rcases Program.step_cases h with ⟨x, rfl, rfl⟩ | ⟨i, choice, t, op, rest, rfl, ht, hat, hrest, rfl⟩ |
    ⟨i, choice, t, result, rfl, ht, hat, rfl⟩ | ⟨i, answer, t, call, rfl, ht, hat, rfl⟩
  · exact hp.receive hw x
  · have hmem := List.mem_of_getElem? ht
    have hops := hw.rest t hmem
    rw [hrest] at hops
    have hstart : okStart choice w.main op := by
      have := hok t ht
      rwa [Task.Starts, hat, hrest] at this
    obtain ⟨hm, hnext, hcall⟩ := hp.start choice t.isCancelled op w.main hw.main (hops op List.mem_cons_self) hstart
    refine hw.set hm ?_ fun op' hop' => ?_
    · unfold Segment.at_
      split
      · rename_i call he
        exact hcall call he
      · trivial
    · rcases List.mem_append.mp hop' with h | h
      · exact hnext op' h
      · exact hops op' (List.mem_cons_of_mem _ h)
  · have hmem := List.mem_of_getElem? ht
    have hresult := hw.at_ t hmem
    rw [hat] at hresult
    obtain ⟨hm, hnext⟩ := hp.resume choice result w.main hw.main hresult
    refine hw.set hm trivial fun op' hop' => ?_
    rcases List.mem_append.mp hop' with h | h
    · exact hnext op' h
    · exact hw.rest t hmem op' h
  · have hmem := List.mem_of_getElem? ht
    have hcall := hw.at_ t hmem
    rw [hat] at hcall
    have hperform := hok t ht
    rw [hat] at hperform
    exact hw.set hw.main (hp.perform answer call w.actor hcall hperform) (hw.rest t hmem)

/-- On every schedule that meets the conditions, each part holds throughout. -/
theorem Local.always (hp : Local p I O C R okStart okPerform) {w : World μ ε ο κ ρ} (h₀ : Coupled I O C R w)
    {as : List (Action ι χ ω)} (h : p.machine.Meets (Allowed okStart okPerform) w as) :
    p.machine.Always (Coupled I O C R) w as :=
  Machine.Meets.always (fun _ _ _ hw hok => hp.step hw hok) h₀ h

/-- Where nothing is asked of the schedule, on every schedule. -/
theorem Local.always_of_unrestricted (hp : Local p I O C R (fun _ _ _ => True) fun _ _ => True)
    {w : World μ ε ο κ ρ} (h₀ : Coupled I O C R w) (as : List (Action ι χ ω)) :
    p.machine.Always (Coupled I O C R) w as := by
  refine Machine.always_of_invariant (fun w a w' hw => hp.step hw ?_) h₀ as
  cases a with
  | input => trivial
  | advance i choice =>
    intro t _
    unfold Task.Starts
    split <;> trivial
  | perform i answer =>
    intro t _
    cases t.at_ <;> trivial

end Local

end SynapsNotes.Framework
