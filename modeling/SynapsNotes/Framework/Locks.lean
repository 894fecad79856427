import Mathlib.Algebra.GroupWithZero.Nat
import Mathlib.Algebra.Order.BigOperators.Group.List
import Mathlib.Algebra.Order.Group.Nat
import SynapsNotes.Framework.Tasks

/-!
# A flag that operations hold

A flag of the main actor that keeps tasks apart: whoever finds it down puts it
up, and holds it until the operation that takes it down again. An operation
to come that will do so is a holder. `Locking` is what each piece of a program
has to keep, taken alone: it trades the flag for a holder or the holder for
the flag. Then the flag is up exactly while there is a holder, and there is
one at most (`Locking.always`).
-/

namespace SynapsNotes.Framework

variable {μ ε ο κ ρ ι χ ω : Type*}

/-- The operations to come, of all tasks, that hold the flag. -/
def World.holders (holds : ο → Bool) (w : World μ ε ο κ ρ) : Nat := (w.tasks.map fun t => t.rest.countP holds).sum

/-- What is asked of each piece of the program, taken alone. -/
structure Locking (p : Program μ ε ο κ ρ ι χ ω) (flag : μ → Bool) (holds : ο → Bool) : Prop where
  input : ∀ a n m, (flag (p.input a n m).main).toNat =
    (flag m).toNat + ((p.input a n m).started.map fun ops => ops.countP holds).sum
  start : ∀ choice c op m, (holds op = true → flag m = true) →
    (flag (p.start choice c op m).main).toNat + (holds op).toNat =
      (flag m).toNat + (p.start choice c op m).next.countP holds
  resume : ∀ choice result m, (flag (p.resume choice result m).1).toNat =
    (flag m).toNat + (p.resume choice result m).2.countP holds

/-- As many holders as the flag has room for. -/
def Locked (flag : μ → Bool) (holds : ο → Bool) (w : World μ ε ο κ ρ) : Prop :=
  w.holders holds = (flag w.main).toNat

theorem sum_map_set {β : Type*} (f : β → Nat) {l : List β} {i : Nat} {b : β} (h : l[i]? = some b) (a : β) :
    ((l.set i a).map f).sum + f b = (l.map f).sum + f a := by
  induction l generalizing i with
  | nil => cases h
  | cons x l ih =>
    cases i with
    | zero =>
      cases h
      simp only [List.set_cons_zero, List.map_cons, List.sum_cons]
      omega
    | succ i =>
      have := ih h
      simp only [List.set_cons_succ, List.map_cons, List.sum_cons]
      omega

theorem countP_cons_toNat (holds : ο → Bool) (op : ο) (rest : List ο) :
    (op :: rest).countP holds = rest.countP holds + (holds op).toNat := by
  rw [List.countP_cons]
  cases holds op <;> rfl

theorem holders_cancelTasks (holds : ο → Bool) (cancelled : List Nat) (tasks : List (Task ο κ ρ)) :
    ((cancelTasks cancelled tasks).map fun t => t.rest.countP holds) = tasks.map fun t => t.rest.countP holds := by
  refine List.ext_getElem (by simp [cancelTasks]) fun i _ _ => ?_
  simp only [cancelTasks, List.getElem_map, List.getElem_mapIdx]
  split <;> rfl

section Locking

variable {p : Program μ ε ο κ ρ ι χ ω} {flag : μ → Bool} {holds : ο → Bool} {w w' : World μ ε ο κ ρ}

/-- A holder to come finds the flag up. -/
theorem Locked.flag_of_holds (hw : Locked flag holds w) {i : Nat} {t : Task ο κ ρ} {op : ο} {rest : List ο}
    (ht : w.tasks[i]? = some t) (hrest : t.rest = op :: rest) (hop : holds op = true) : flag w.main = true := by
  have hmem : t.rest.countP holds ∈ w.tasks.map fun t => t.rest.countP holds :=
    List.mem_map_of_mem (List.mem_of_getElem? ht)
  have hle : t.rest.countP holds ≤ w.holders holds := List.le_sum_of_mem hmem
  rw [hw, hrest, countP_cons_toNat, hop] at hle
  cases hflag : flag w.main with
  | true => rfl
  | false =>
    rw [hflag] at hle
    simp at hle

/-- A segment that keeps the balance of its task. -/
theorem Locked.set (hw : Locked flag holds w) {i : Nat} {t t' : Task ο κ ρ} {m : μ} {e : ε}
    (ht : w.tasks[i]? = some t)
    (h : (flag m).toNat + t.rest.countP holds = (flag w.main).toNat + t'.rest.countP holds) :
    Locked flag holds { main := m, actor := e, tasks := w.tasks.set i t' } := by
  have hset := sum_map_set (fun t : Task ο κ ρ => t.rest.countP holds) ht t'
  have hw : (w.tasks.map fun t => t.rest.countP holds).sum = (flag w.main).toNat := hw
  show ((w.tasks.set i t').map fun t => t.rest.countP holds).sum = (flag m).toNat
  omega

/-- One step: the flag is traded for a holder, or a holder for the flag. -/
theorem Locking.step (hp : Locking p flag holds) {a : Action ι χ ω} (hw : Locked flag holds w)
    (h : p.machine.step w a = some w') : Locked flag holds w' := by
  obtain ⟨x, rfl, rfl⟩ | ⟨i, choice, t, op, rest, rfl, ht, hat, hrest, rfl⟩ |
    ⟨i, choice, t, result, rfl, ht, hat, rfl⟩ | ⟨i, answer, t, call, rfl, ht, hat, rfl⟩ := Program.step_cases h
  · have hnew : (((p.input x w.tasks.length w.main).started.map Task.new).map
        fun t : Task ο κ ρ => t.rest.countP holds) =
          (p.input x w.tasks.length w.main).started.map fun ops => ops.countP holds := by
      rw [List.map_map]
      rfl
    unfold Locked World.holders Program.receive
    rw [List.map_append, List.sum_append, holders_cancelTasks, hnew, hp.input]
    exact congrArg (· + _) hw
  · have hstart := hp.start choice t.isCancelled op w.main (hw.flag_of_holds ht hrest)
    refine hw.set ht ?_
    rw [hrest, countP_cons_toNat, List.countP_append]
    omega
  · have hresume := hp.resume choice result w.main
    refine hw.set ht ?_
    rw [List.countP_append]
    omega
  · exact hw.set ht rfl

/-- On every schedule there are as many holders as the flag has room for. -/
theorem Locking.always (hp : Locking p flag holds) (h₀ : Locked flag holds w) (as : List (Action ι χ ω)) :
    p.machine.Always (Locked flag holds) w as :=
  Machine.always_of_invariant (fun _ _ _ hw h => hp.step hw h) h₀ as

theorem Locked.holders_le_one (hw : Locked flag holds w) : w.holders holds ≤ 1 := by
  rw [hw]
  exact Bool.toNat_le _

/-- The task that a holder is to come in is the only one. -/
theorem Locked.eq_of_holds (hw : Locked flag holds w) {i j : Nat} {t t' : Task ο κ ρ} (ht : w.tasks[i]? = some t)
    (ht' : w.tasks[j]? = some t') (h : ∃ op ∈ t.rest, holds op = true) (h' : ∃ op ∈ t'.rest, holds op = true) :
    i = j := by
  by_contra hne
  -- without its first holder the world has the second one left
  have hset := sum_map_set (fun t : Task ο κ ρ => t.rest.countP holds) ht (Task.new [])
  have hmem : t' ∈ w.tasks.set i (Task.new []) :=
    List.mem_of_getElem? ((List.getElem?_set_ne hne).trans ht')
  have hle : t'.rest.countP holds ≤ ((w.tasks.set i (Task.new [])).map fun t => t.rest.countP holds).sum :=
    List.le_sum_of_mem (List.mem_map_of_mem hmem)
  have hone : (w.tasks.map fun t => t.rest.countP holds).sum ≤ 1 := hw.holders_le_one
  have hpos := List.countP_pos_iff.mpr h
  have hpos' := List.countP_pos_iff.mpr h'
  have hnone : (Task.new [] : Task ο κ ρ).rest.countP holds = 0 := rfl
  omega

theorem Locked.flag_iff (hw : Locked flag holds w) : flag w.main = true ↔ w.holders holds = 1 := by
  rw [hw, Bool.toNat_eq_one]

end Locking

end SynapsNotes.Framework
