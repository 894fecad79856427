import Mathlib.Data.List.Basic

/-!
# Runs of a labelled system

A `Machine` steps from a state by an action; an action that the state does
not allow has no step, so that every nondeterministic choice (which task
runs next, what a call answers) is part of the action. A run is a list of
actions, and what is said of a run is said of its steps (`Steps`) or of the
states it goes through (`Always`).

`Steps.invariant` is the induction every safety proof uses: an invariant
that each step meeting a condition preserves holds after a run whose steps
all meet it. `always_iff_meets` is its exact form: where a step that breaks
the condition leads out of the property, the condition on the steps and the
property of the states are the same. `steps_iff_meets` is the same of a
property of the steps.
-/

namespace SynapsNotes.Framework

/-- A system whose steps are labelled by actions. -/
structure Machine (σ α : Type*) where
  step : σ → α → Option σ

namespace Machine

variable {σ α : Type*} (M : Machine σ α)

/-- The state a run ends in. -/
def run : σ → List α → Option σ
  | s, [] => some s
  | s, a :: as => (M.step s a).bind fun s' => run s' as

/-- Each step of the run, from `s` by `a` to `s'`, satisfies `R s a s'`. -/
def Steps (R : σ → α → σ → Prop) : σ → List α → Prop
  | _, [] => True
  | s, a :: as => ∀ s', M.step s a = some s' → R s a s' ∧ Steps R s' as

/-- Each step of the run meets `ok`, a condition on the state before the
step and its action. -/
def Meets (ok : σ → α → Prop) : σ → List α → Prop := M.Steps fun s a _ => ok s a

/-- Each state of the run, the first and the last included, satisfies `P`. -/
def Always (P : σ → Prop) : σ → List α → Prop
  | s, [] => P s
  | s, a :: as => P s ∧ ∀ s', M.step s a = some s' → Always P s' as

variable {M}

theorem run_cons {s t : σ} {a : α} {as : List α} :
    M.run s (a :: as) = some t ↔ ∃ s', M.step s a = some s' ∧ M.run s' as = some t := by
  simp only [run, Option.bind_eq_some_iff]

theorem steps_congr {R R' : σ → α → σ → Prop}
    (h : ∀ s a s', M.step s a = some s' → (R s a s' ↔ R' s a s')) {s : σ} {as : List α} :
    M.Steps R s as ↔ M.Steps R' s as := by
  induction as generalizing s with
  | nil => rfl
  | cons a as ih =>
    exact ⟨fun hs s' he => ⟨(h s a s' he).mp (hs s' he).1, ih.mp (hs s' he).2⟩,
      fun hs s' he => ⟨(h s a s' he).mpr (hs s' he).1, ih.mpr (hs s' he).2⟩⟩

theorem Always.mono {P Q : σ → Prop} (h : ∀ s, P s → Q s) {s : σ} {as : List α}
    (hs : M.Always P s as) : M.Always Q s as := by
  induction as generalizing s with
  | nil => exact h _ hs
  | cons a as ih => exact ⟨h _ hs.1, fun s' he => ih (hs.2 s' he)⟩

theorem Always.head {P : σ → Prop} {s : σ} {as : List α} (h : M.Always P s as) : P s := by
  cases as with
  | nil => exact h
  | cons a as => exact h.1

/-- What holds of every state of a run holds of its last. -/
theorem Always.last {P : σ → Prop} {s t : σ} {as : List α} (h : M.Always P s as)
    (hr : M.run s as = some t) : P t := by
  induction as generalizing s with
  | nil => cases hr; exact h
  | cons a as ih =>
    obtain ⟨s', he, hr⟩ := run_cons.mp hr
    exact ih (h.2 s' he) hr

/-- A run that ends outside `P`, found by running it. -/
theorem not_always_of_run {P : σ → Prop} [DecidablePred P] {s : σ} {as : List α}
    (h : (M.run s as).any (fun t => !decide (P t)) = true) : ¬ M.Always P s as := by
  intro hs
  obtain ⟨t, hr, ht⟩ := (Option.any_eq_true _ _).mp h
  rw [Bool.not_eq_true', decide_eq_false_iff_not] at ht
  exact ht (hs.last hr)

instance {R : σ → α → σ → Prop} [∀ s a s', Decidable (R s a s')] :
    ∀ (s : σ) (as : List α), Decidable (M.Steps R s as)
  | _, [] => isTrue trivial
  | s, a :: as =>
    match h : M.step s a with
    | none => isTrue fun _ h' => nomatch h.symm.trans h'
    | some s' =>
      have : Decidable (M.Steps R s' as) := instDecidableSteps s' as
      decidable_of_iff (R s a s' ∧ M.Steps R s' as)
        ⟨fun hs _ h' => Option.some.inj (h.symm.trans h') ▸ hs, fun hs => hs s' h⟩

instance {ok : σ → α → Prop} [∀ s a, Decidable (ok s a)] (s : σ) (as : List α) : Decidable (M.Meets ok s as) :=
  inferInstanceAs (Decidable (M.Steps _ s as))

section Invariant

variable {I : σ → Prop} {ok : σ → α → Prop}

/-- The induction on runs: an invariant that every step meeting `ok`
preserves holds in every state of a run whose steps all meet it. -/
theorem Meets.always (hstep : ∀ s a s', I s → ok s a → M.step s a = some s' → I s') {s : σ}
    {as : List α} (h₀ : I s) (h : M.Meets ok s as) : M.Always I s as := by
  induction as generalizing s with
  | nil => exact h₀
  | cons a as ih => exact ⟨h₀, fun s' he => ih (hstep s a s' h₀ (h s' he).1 he) (h s' he).2⟩

/-- An invariant that every step preserves holds in every state of a run. -/
theorem always_of_invariant (hstep : ∀ s a s', I s → M.step s a = some s' → I s') {s : σ}
    (h₀ : I s) (as : List α) : M.Always I s as := by
  induction as generalizing s with
  | nil => exact h₀
  | cons a as ih => exact ⟨h₀, fun s' he => ih (hstep s a s' h₀ he)⟩

/-- A property of every step from a state of the invariant. -/
theorem steps_of_invariant {R : σ → α → σ → Prop} (hI : ∀ s a s', I s → M.step s a = some s' → I s')
    (hR : ∀ s a s', I s → M.step s a = some s' → R s a s') {s : σ} (h₀ : I s) (as : List α) : M.Steps R s as := by
  induction as generalizing s with
  | nil => trivial
  | cons a as ih => exact fun s' he => ⟨hR s a s' h₀ he, ih (hI s a s' h₀ he)⟩

/-- The exact condition: where every step meeting `ok` preserves the
invariant, the invariant gives `P`, and a step that breaks `ok` leads out of
`P`, a run stays in `P` exactly when its steps all meet `ok`. -/
theorem always_iff_meets {P : σ → Prop} (hP : ∀ s, I s → P s)
    (hstep : ∀ s a s', I s → ok s a → M.step s a = some s' → I s')
    (hbreak : ∀ s a s', I s → M.step s a = some s' → P s' → ok s a) {s : σ} (h₀ : I s)
    (as : List α) : M.Always P s as ↔ M.Meets ok s as := by
  refine ⟨fun h => ?_, fun h => (Meets.always hstep h₀ h).mono hP⟩
  induction as generalizing s with
  | nil => trivial
  | cons a as ih =>
    intro s' he
    have hok := hbreak s a s' h₀ he (h.2 s' he).head
    exact ⟨hok, ih (hstep s a s' h₀ hok he) (h.2 s' he)⟩

/-- The exact condition, for a property of the steps: where every step
meeting `ok` preserves the invariant and has the property, and a step that
breaks `ok` has it not, the steps of a run all have the property exactly when
they all meet `ok`. -/
theorem steps_iff_meets {R : σ → α → σ → Prop}
    (hstep : ∀ s a s', I s → ok s a → M.step s a = some s' → I s' ∧ R s a s')
    (hbreak : ∀ s a s', I s → M.step s a = some s' → R s a s' → ok s a) {s : σ} (h₀ : I s)
    (as : List α) : M.Steps R s as ↔ M.Meets ok s as := by
  induction as generalizing s with
  | nil => exact Iff.rfl
  | cons a as ih =>
    constructor
    · intro h s' he
      have hok := hbreak s a s' h₀ he (h s' he).1
      exact ⟨hok, (ih (hstep s a s' h₀ hok he).1).mp (h s' he).2⟩
    · intro h s' he
      obtain ⟨hI, hR⟩ := hstep s a s' h₀ (h s' he).1 he
      exact ⟨hR, (ih hI).mpr (h s' he).2⟩

/-- The exact condition, for a property that once lost stays so: a run ends
in it exactly when its steps all meet `ok`. -/
theorem run_iff_meets {P : σ → Prop} (hI : ∀ s a s', I s → M.step s a = some s' → I s')
    (hstep : ∀ s a s', I s → M.step s a = some s' → (P s' ↔ P s ∧ ok s a)) {s t : σ} {as : List α}
    (h₀ : I s) (hr : M.run s as = some t) : P t ↔ P s ∧ M.Meets ok s as := by
  induction as generalizing s with
  | nil =>
    cases hr
    exact (and_iff_left trivial).symm
  | cons a as ih =>
    obtain ⟨s', he, hr⟩ := run_cons.mp hr
    rw [ih (hI s a s' h₀ he) hr, hstep s a s' h₀ he, and_assoc]
    refine and_congr_right fun _ => ⟨fun h s'' he' => ?_, fun h => h s' he⟩
    obtain rfl := Option.some.inj (he.symm.trans he')
    exact h

end Invariant

end Machine

end SynapsNotes.Framework
