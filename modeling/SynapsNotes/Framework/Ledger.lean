import Mathlib.Data.Multiset.Basic
import Mathlib.Data.Multiset.MapFold
import Mathlib.Algebra.BigOperators.Group.Finset.Basic

/-!
# Objects that a library hands out

A library hands out objects, which its caller gives back. An object may rest
on others that it was made from, and these have to outlive it. The `Ledger`
keeps the objects that are live; every object it makes has a serial number of
its own, so that a pointer to an object given back never becomes good again.
A call that is not permitted (the use of an object that is not live, the
return of one that is not, or that others still rest on) is noted as a fault.

`Owns S l` says that no such call was made and that exactly the objects `S`
are live. Its rules are `Owns.make`, `Owns.use`, `Owns.free` and
`Owns.absorb`; what a call does not touch is the rest of `S`. The objects that
a family of pointers holds are `held`.
-/

namespace SynapsNotes.Framework

/-- An object of a kind, with the serial numbers of those it rests on. -/
structure Object (κ : Type*) where
  serial : Nat
  kind : κ
  bases : List Nat
  deriving DecidableEq

structure Ledger (κ : Type*) where
  live : Multiset (Object κ)
  next : Nat
  fault : Bool

variable {κ : Type*}

def Object.RestsOn (o base : Object κ) : Prop := base.serial ∈ o.bases

instance (o base : Object κ) : Decidable (o.RestsOn base) := inferInstanceAs (Decidable (_ ∈ _))

namespace Ledger

def empty : Ledger κ := ⟨0, 0, false⟩

variable (l : Ledger κ)

/-- A call that is permitted only if `p`. -/
def require (p : Prop) [Decidable p] : Ledger κ := { l with fault := l.fault || !decide p }

variable [DecidableEq κ]

/-- A call that works with an object. -/
def use (o : Object κ) : Ledger κ := l.require (o ∈ l.live)

/-- A call that works with several objects. -/
def useAll (os : List (Object κ)) : Ledger κ := os.foldl (fun l o => l.use o) l

/-- The object that the next call of `make` hands out. -/
def fresh (kind : κ) (bases : List (Object κ)) : Object κ := ⟨l.next, kind, bases.map (·.serial)⟩

/-- An object is made from others. -/
def make (kind : κ) (bases : List (Object κ)) : Ledger κ :=
  let l' := l.require (∀ b ∈ bases, b ∈ l.live)
  { l' with live := l.fresh kind bases ::ₘ l.live, next := l.next + 1 }

/-- An object is given back. -/
def free (o : Object κ) : Ledger κ :=
  let l' := l.require (o ∈ l.live ∧ ∀ p ∈ l.live, ¬ p.RestsOn o)
  { l' with live := l.live.erase o }

/-- An object is given to another, which gives it back with itself. -/
def absorb (owner o : Object κ) : Ledger κ :=
  let l' := l.require (owner ∈ l.live ∧ o ∈ l.live ∧ owner ≠ o)
  { l' with live := l.live.erase o }

end Ledger

/-- No call was at fault, and exactly the objects `S` are live. -/
structure Owns (S : Multiset (Object κ)) (l : Ledger κ) : Prop where
  sound : l.fault = false
  live_eq : l.live = S
  lt_next : ∀ o ∈ S, o.serial < l.next
  nodup : (S.map (·.serial)).Nodup
  bases_lt : ∀ o ∈ S, ∀ b ∈ o.bases, b < o.serial

namespace Owns

variable {S T : Multiset (Object κ)} {l : Ledger κ} {o owner : Object κ} {kind : κ} {bases : List (Object κ)}

theorem empty : Owns (κ := κ) 0 Ledger.empty :=
  ⟨rfl, rfl, by simp, by simp, by simp⟩

theorem congr (h : Owns S l) (hS : S = T) : Owns T l := hS ▸ h

/-- An object rests on none that was made after it. -/
theorem not_restsOn_of_le (h : Owns S l) (ho : o ∈ S) {b : Object κ} (hb : o.serial ≤ b.serial) : ¬ o.RestsOn b :=
  fun hr => absurd (h.bases_lt o ho b.serial hr) (Nat.not_lt.mpr hb)

/-- What is left when an object is taken out. -/
theorem tail (h : Owns (o ::ₘ S) l) {l' : Ledger κ} (hsound : l'.fault = false) (hlive : l'.live = S)
    (hnext : l'.next = l.next) : Owns S l' where
  sound := hsound
  live_eq := hlive
  lt_next p hp := hnext ▸ h.lt_next p (Multiset.mem_cons_of_mem hp)
  nodup := by
    have := h.nodup
    rw [Multiset.map_cons, Multiset.nodup_cons] at this
    exact this.2
  bases_lt p hp := h.bases_lt p (Multiset.mem_cons_of_mem hp)

/-- No other object has the serial number. -/
theorem serial_ne (h : Owns (o ::ₘ S) l) {p : Object κ} (hp : p ∈ S) : p.serial ≠ o.serial := by
  have := h.nodup
  rw [Multiset.map_cons, Multiset.nodup_cons] at this
  exact fun heq => this.1 (heq ▸ Multiset.mem_map_of_mem _ hp)

theorem require (h : Owns S l) {p : Prop} [Decidable p] (hp : p) : Owns S (l.require p) :=
  ⟨by simp [Ledger.require, h.sound, hp], h.live_eq, h.lt_next, h.nodup, h.bases_lt⟩

variable [DecidableEq κ]

theorem use (h : Owns S l) (ho : o ∈ S) : Owns S (l.use o) := h.require (h.live_eq ▸ ho)

theorem useAll (h : Owns S l) {os : List (Object κ)} (hos : ∀ o ∈ os, o ∈ S) : Owns S (l.useAll os) := by
  induction os generalizing l with
  | nil => exact h
  | cons o os ih =>
    exact ih (h.use (hos o (List.mem_cons_self ..))) fun p hp => hos p (List.mem_cons_of_mem _ hp)

theorem make (h : Owns S l) (kind : κ) (hbases : ∀ b ∈ bases, b ∈ S) :
    Owns (l.fresh kind bases ::ₘ S) (l.make kind bases) where
  sound := (h.require (p := ∀ b ∈ bases, b ∈ l.live) (h.live_eq.symm ▸ hbases)).sound
  live_eq := congrArg _ h.live_eq
  lt_next p hp := by
    rcases Multiset.mem_cons.mp hp with rfl | hp
    · exact Nat.lt_succ_self l.next
    · exact Nat.lt_succ_of_lt (h.lt_next p hp)
  nodup := by
    rw [Multiset.map_cons, Multiset.nodup_cons]
    refine ⟨fun hmem => ?_, h.nodup⟩
    obtain ⟨p, hp, heq⟩ := Multiset.mem_map.mp hmem
    exact absurd (h.lt_next p hp) (Nat.not_lt.mpr (Nat.le_of_eq heq.symm))
  bases_lt p hp b hb := by
    rcases Multiset.mem_cons.mp hp with rfl | hp
    · obtain ⟨base, hbase, rfl⟩ := List.mem_map.mp hb
      exact h.lt_next base (hbases base hbase)
    · exact h.bases_lt p hp b hb

/-- An object is made from nothing. -/
theorem make_root (h : Owns S l) (kind : κ) : Owns (l.fresh kind [] ::ₘ S) (l.make kind []) :=
  h.make kind fun _ hb => absurd hb List.not_mem_nil

/-- An object is given back while nothing rests on it. -/
theorem free (h : Owns (o ::ₘ S) l) (hrest : ∀ p ∈ S, ¬ p.RestsOn o) : Owns S (l.free o) := by
  refine h.tail ?_ ?_ rfl
  · have ho : o ∈ l.live := h.live_eq ▸ Multiset.mem_cons_self o S
    have hself := h.not_restsOn_of_le (Multiset.mem_cons_self o S) (Nat.le_refl o.serial)
    have hall : ∀ p ∈ l.live, ¬ p.RestsOn o := by
      intro p hp
      rcases Multiset.mem_cons.mp (h.live_eq ▸ hp) with rfl | hp
      · exact hself
      · exact hrest p hp
    exact (h.require ⟨ho, hall⟩).sound
  · show l.live.erase o = S
    rw [h.live_eq, Multiset.erase_cons_head]

/-- An object is handed to another that is owned as well. -/
theorem absorb (h : Owns (o ::ₘ S) l) (howner : owner ∈ S) : Owns S (l.absorb owner o) := by
  refine h.tail ?_ ?_ rfl
  · have hne : owner ≠ o := fun heq => h.serial_ne howner (congrArg _ heq)
    refine (h.require (p := owner ∈ l.live ∧ o ∈ l.live ∧ owner ≠ o) ⟨?_, ?_, hne⟩).sound
    · exact h.live_eq ▸ Multiset.mem_cons_of_mem howner
    · exact h.live_eq ▸ Multiset.mem_cons_self o S
  · show l.live.erase o = S
    rw [h.live_eq, Multiset.erase_cons_head]

end Owns

/-! ## Pointers -/

section Held

variable {ι : Type*} [Fintype ι] [DecidableEq ι] {pointer : ι → Option (Object κ)} {i : ι} {o : Object κ}

/-- The objects that a family of pointers holds. -/
def held (pointer : ι → Option (Object κ)) : Multiset (Object κ) :=
  ∑ i, (pointer i).elim 0 fun o => {o}

omit [DecidableEq ι] in
theorem mem_held (h : pointer i = some o) : o ∈ held pointer := by
  refine Multiset.mem_sum.mpr ⟨i, Finset.mem_univ i, ?_⟩
  rw [h]
  exact Multiset.mem_singleton_self o

omit [DecidableEq ι] in
theorem exists_of_mem_held (h : o ∈ held pointer) : ∃ i, pointer i = some o := by
  obtain ⟨i, -, hi⟩ := Multiset.mem_sum.mp h
  cases hp : pointer i with
  | none =>
    rw [hp] at hi
    exact absurd hi (Multiset.notMem_zero o)
  | some p =>
    rw [hp] at hi
    exact ⟨i, hp.trans (congrArg some (Multiset.mem_singleton.mp hi).symm)⟩

/-- A pointer that held nothing is set. -/
theorem held_update_some (h : pointer i = none) : held (Function.update pointer i (some o)) = o ::ₘ held pointer := by
  have hrest : ∀ j ∈ Finset.univ.erase i,
      ((Function.update pointer i (some o)) j).elim 0 (fun o => {o}) =
        (pointer j).elim (0 : Multiset (Object κ)) fun o => {o} := by
    intro j hj
    rw [Function.update_of_ne (Finset.ne_of_mem_erase hj)]
  rw [held, held, ← Finset.add_sum_erase _ _ (Finset.mem_univ i),
    ← Finset.add_sum_erase Finset.univ (fun j => (pointer j).elim (0 : Multiset (Object κ)) fun o => {o})
      (Finset.mem_univ i),
    Finset.sum_congr rfl hrest, Function.update_self, h]
  show {o} + _ = o ::ₘ (0 + _)
  rw [zero_add, Multiset.singleton_add]

/-- A pointer is cleared. -/
theorem held_update_none (h : pointer i = some o) : held pointer = o ::ₘ held (Function.update pointer i none) := by
  have hcleared := held_update_some (o := o) (Function.update_self i none pointer)
  rwa [Function.update_idem, ← h, Function.update_eq_self] at hcleared

end Held

end SynapsNotes.Framework
