import Mathlib.Algebra.Order.Field.Basic
import Mathlib.Tactic.Linarith
import Mathlib.Tactic.Ring

/-!
# Adding under a clamp

A counter that is kept within `[lo, hi]` by clamping it after every addition.
Adding the same negative amount again and again loses only what lies below
`lo` (`iterate_of_nonpos`), and adding a positive one only what lies above
`hi` (`iterate_of_nonneg`). Taking an amount back and adding it again gives
the same value unless the bound was met in between (`iterate_redo_iff`).
-/

namespace SynapsNotes.Framework

section Clamp

variable {K : Type*} [LinearOrder K] {lo hi x : K}

def clamp (lo hi x : K) : K := max lo (min hi x)

theorem clamp_mem (h : lo ≤ hi) (x : K) : lo ≤ clamp lo hi x ∧ clamp lo hi x ≤ hi :=
  ⟨le_max_left _ _, max_le h (min_le_left _ _)⟩

theorem clamp_of_le (h : x ≤ hi) : clamp lo hi x = max lo x := by
  rw [clamp, min_eq_right h]

theorem clamp_of_ge (h : lo ≤ x) (hlo : lo ≤ hi) : clamp lo hi x = min hi x := by
  rw [clamp, max_eq_right (le_min hlo h)]

end Clamp

variable {K : Type*} [Field K] [LinearOrder K] [IsStrictOrderedRing K] {lo hi b d d' : K}

/-- Add, and clamp. -/
def clampedAdd (lo hi d b : K) : K := clamp lo hi (b + d)

omit [IsStrictOrderedRing K] in
theorem clampedAdd_iterate_mem (hb : lo ≤ b ∧ b ≤ hi) (d : K) (n : ℕ) :
    lo ≤ (clampedAdd lo hi d)^[n] b ∧ (clampedAdd lo hi d)^[n] b ≤ hi := by
  cases n with
  | zero => exact hb
  | succ n =>
    rw [Function.iterate_succ_apply']
    exact clamp_mem (hb.1.trans hb.2) _

theorem iterate_of_nonpos (hd : d ≤ 0) (hb : lo ≤ b ∧ b ≤ hi) (n : ℕ) :
    (clampedAdd lo hi d)^[n] b = max lo (b + n * d) := by
  induction n with
  | zero => simp [hb.1]
  | succ n ih =>
    have hmem := clampedAdd_iterate_mem hb d n
    rw [Function.iterate_succ_apply', clampedAdd, clamp_of_le (by linarith), ih]
    push_cast
    rcases le_total (b + n * d) lo with h | h
    · rw [max_eq_left h, max_eq_left (by linarith), max_eq_left (by linarith)]
    · rw [max_eq_right h]
      ring_nf

theorem iterate_of_nonneg (hd : 0 ≤ d) (hb : lo ≤ b ∧ b ≤ hi) (n : ℕ) :
    (clampedAdd lo hi d)^[n] b = min hi (b + n * d) := by
  induction n with
  | zero => simp [hb.2]
  | succ n ih =>
    have hmem := clampedAdd_iterate_mem hb d n
    rw [Function.iterate_succ_apply', clampedAdd, clamp_of_ge (by linarith) (hb.1.trans hb.2), ih]
    push_cast
    rcases le_total (b + n * d) hi with h | h
    · rw [min_eq_right h]
      ring_nf
    · rw [min_eq_left h, min_eq_left (by linarith), min_eq_left (by linarith)]

/-- Taking an amount back `n` times and adding another one as often. -/
theorem iterate_replace (hd : d ≤ 0) (hd' : d' ≤ 0) (hb : lo ≤ b ∧ b ≤ hi) (n : ℕ) :
    (clampedAdd lo hi d)^[n] ((clampedAdd lo hi (-d'))^[n] b) =
      max lo (min hi (b - n * d') + n * d) := by
  rw [iterate_of_nonpos hd (clampedAdd_iterate_mem hb _ n), iterate_of_nonneg (by linarith) hb]
  ring_nf

/-- Taking an amount back and adding it again changes nothing, exactly if the
upper bound does not cut it. -/
theorem iterate_redo_iff (hd : d ≤ 0) (hb : lo ≤ b ∧ b ≤ hi) (n : ℕ) :
    (clampedAdd lo hi d)^[n] ((clampedAdd lo hi (-d))^[n] b) = b ↔ b ≤ max lo (hi + n * d) := by
  rw [iterate_replace hd hd hb]
  rcases le_total (b - n * d) hi with h | h
  · rw [min_eq_right h, sub_add_cancel, max_eq_right hb.1]
    exact iff_of_true rfl (le_max_of_le_right (by linarith))
  · rw [min_eq_left h]
    exact ⟨fun heq => heq.ge, fun hle => (max_le hb.1 (by linarith)).antisymm hle⟩

/-- The clamp of a sum, after a summand was replaced: exact unless the sum
lay below the lower bound and the new summand is greater (and does not by
itself take every value to the lower bound). -/
theorem iterate_replace_clamp_iff {S : K} (hd : d ≤ 0) (hd' : d' ≤ 0) (hlo : lo ≤ 0) (hhi : 0 < hi)
    (n : ℕ) (hS : S - n * d' ≤ 0) :
    (clampedAdd lo hi d)^[n] ((clampedAdd lo hi (-d'))^[n] (clamp lo hi S)) =
        clamp lo hi (S - n * d' + n * d) ↔
      (0 < n → d' < d → lo ≤ S ∨ hi + n * d ≤ lo) := by
  have hn : (0 : K) ≤ n := Nat.cast_nonneg n
  have hnd : n * d ≤ 0 := mul_nonpos_of_nonneg_of_nonpos hn hd
  have hnd' : n * d' ≤ 0 := mul_nonpos_of_nonneg_of_nonpos hn hd'
  rw [iterate_replace hd hd' (clamp_mem (hlo.trans hhi.le) S) n, clamp_of_le (by linarith : S ≤ hi),
    clamp_of_le (by linarith : S - n * d' + n * d ≤ hi)]
  rcases le_or_gt lo S with h | h
  · -- the boost is the sum itself, and nothing is lost
    rw [max_eq_right h, min_eq_right (by linarith)]
    exact iff_of_true rfl fun _ _ => .inl h
  · rw [max_eq_left h.le]
    by_cases hmild : 0 < n ∧ d' < d ∧ lo < hi + n * d
    · -- what was lost below the bound comes back
      obtain ⟨hpos, hlt, hroom⟩ := hmild
      have hgain : n * d' < n * d := mul_lt_mul_of_pos_left hlt (Nat.cast_pos.mpr hpos)
      refine iff_of_false (fun heq => ?_) (fun himp => ?_)
      · have hmax : lo < min hi (lo - n * d') + n * d := by
          rcases min_choice hi (lo - n * d') with hm | hm <;> rw [hm] <;> linarith
        have hmin : S - n * d' < min hi (lo - n * d') := lt_min (by linarith) (by linarith)
        rw [max_eq_right hmax.le] at heq
        exact absurd heq (max_lt hmax (by linarith)).ne'
      · rcases himp hpos hlt with hle | hle <;> linarith
    · have hle : n * d ≤ n * d' ∨ hi + n * d ≤ lo := by
        rcases Nat.eq_zero_or_pos n with rfl | hpos
        · simp
        · rcases le_or_gt d d' with hge | hlt
          · exact .inl (mul_le_mul_of_nonneg_left hge hn)
          · exact .inr (not_lt.mp fun hroom => hmild ⟨hpos, hlt, hroom⟩)
      refine iff_of_true ?_ fun hpos hlt => .inr (not_lt.mp fun hroom => hmild ⟨hpos, hlt, hroom⟩)
      have hl : min hi (lo - n * d') + n * d ≤ lo := by
        rcases hle with hle | hle
        · linarith [min_le_right hi (lo - n * d')]
        · linarith [min_le_left hi (lo - n * d')]
      have hr : S - n * d' + n * d ≤ lo := by
        rcases hle with hle | hle <;> linarith
      rw [max_eq_left hl, max_eq_left hr]

end SynapsNotes.Framework
