import Mathlib.Data.List.Basic

/-!
# A list in pieces

`piece k l i` is the `i`-th of the pieces of length `k` that a list is cut
into. Enough pieces make up the list again, in order (`flatMap_piece`), and
what is collected from the pieces in any order is a permutation of what the
list has (`filterMap_pieces_perm`).
-/

namespace SynapsNotes.Framework

variable {β γ : Type*}

def piece (k : Nat) (l : List β) (i : Nat) : List β := (l.drop (i * k)).take k

theorem flatMap_piece_eq_take (k n : Nat) (l : List β) : (List.range n).flatMap (piece k l) = l.take (n * k) := by
  induction n with
  | zero => simp
  | succ n ih =>
    rw [List.range_succ, List.flatMap_append, ih, List.flatMap_singleton, Nat.succ_mul, List.take_add]
    rfl

theorem flatMap_piece {k n : Nat} {l : List β} (h : l.length ≤ n * k) :
    (List.range n).flatMap (piece k l) = l := by
  rw [flatMap_piece_eq_take, List.take_of_length_le h]

theorem piece_map (f : β → γ) (k : Nat) (l : List β) (i : Nat) : piece k (l.map f) i = (piece k l i).map f := by
  rw [piece, piece, List.map_take, List.map_drop]

/-- The last piece ends where the list does. -/
theorem piece_eq_take_min (k : Nat) (l : List β) (i : Nat) :
    piece k l i = (l.drop (i * k)).take (min l.length (i * k + k) - i * k) := by
  rcases Nat.le_total l.length (i * k + k) with h | h
  · have hlen : (l.drop (i * k)).length = l.length - i * k := List.length_drop
    rw [piece, Nat.min_eq_left h, List.take_of_length_le (by omega), List.take_of_length_le (by omega)]
  · rw [piece, Nat.min_eq_right h, Nat.add_sub_cancel_left]

/-- The indices of a piece. -/
theorem piece_range (k n i : Nat) : piece k (List.range n) i = List.range' (i * k) (min n (i * k + k) - i * k) := by
  rw [piece_eq_take_min, List.length_range, List.range_eq_range', List.drop_range',
    List.take_range'_of_length_ge (by omega), Nat.mul_one, Nat.zero_add]

/-- As many pieces as are needed. -/
theorem length_le_ceil_mul {k : Nat} (hk : 0 < k) (n : Nat) : n ≤ (n + k - 1) / k * k := by
  have := Nat.div_add_mod (n + k - 1) k
  have := Nat.mod_lt (n + k - 1) hk
  rw [Nat.mul_comm]
  omega

/-- What is collected from the pieces, in any order of the pieces. -/
theorem filterMap_pieces_perm {k n : Nat} {l : List β} (f : β → Option γ) {order : List Nat}
    (ho : order.Perm (List.range n)) (h : l.length ≤ n * k) :
    (order.flatMap fun i => (piece k l i).filterMap f).Perm (l.filterMap f) := by
  have hl := congrArg (List.filterMap f) (flatMap_piece h)
  rw [List.filterMap_flatMap] at hl
  rw [← hl]
  exact ho.flatMap_right _

/-- A map that fails nowhere on the list. -/
theorem mapM_of_forall {f : β → Option γ} {g : β → γ} {l : List β} (h : ∀ x ∈ l, f x = some (g x)) :
    l.mapM f = some (l.map g) := by
  induction l with
  | nil => rfl
  | cons x l ih =>
    rw [List.mapM_cons, h x List.mem_cons_self, ih fun y hy => h y (List.mem_cons_of_mem _ hy)]
    rfl

/-- The elements of a list, by their indices. -/
theorem map_getElem?_range (l : List β) : (List.range l.length).map (fun i => l[i]?) = l.map some := by
  refine List.ext_getElem (by simp) fun i hi _ => ?_
  have hi : i < l.length := by simpa using hi
  simp [hi]

end SynapsNotes.Framework
