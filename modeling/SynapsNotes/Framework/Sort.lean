import Mathlib.Data.List.Sort
import Mathlib.Order.OrderDual
import Mathlib.Order.Lattice

/-!
# Sorting by a key

`sortOn key` is the stable sort by `key`. A list sorted by a key that tells
its records apart is determined by its records (`SortedOn.eq_of_perm`); where
two records have one key, the sort keeps the order they came in
(`pair_sublist_sortOn`), so that the two orders they can come in give two
results (`sortOn_reverse_ne`).
-/

namespace SynapsNotes.Framework

variable {β γ κ : Type*} [LinearOrder κ] {key : β → κ}

/-- The records in the order of their keys. -/
def SortedOn (key : β → κ) (l : List β) : Prop := l.Pairwise fun a b => key a ≤ key b

/-- The stable sort by a key. -/
def sortOn (key : β → κ) (l : List β) : List β := l.insertionSort fun a b => key a ≤ key b

instance total_key (key : β → κ) : Std.Total fun a b : β => key a ≤ key b := ⟨fun _ _ => le_total _ _⟩

instance isTrans_key (key : β → κ) : IsTrans β fun a b => key a ≤ key b := ⟨fun _ _ _ => le_trans⟩

theorem sortOn_perm (key : β → κ) (l : List β) : (sortOn key l).Perm l := List.perm_insertionSort _ _

theorem sortOn_sorted (key : β → κ) (l : List β) : SortedOn key (sortOn key l) :=
  List.pairwise_insertionSort _ _

/-- `sorted(by: before)`, where `before` compares keys. -/
def sortedBy (before : β → β → Bool) (l : List β) : List β := l.insertionSort fun a b => !before b a

theorem sortedBy_eq_sortOn {before : β → β → Bool} (h : ∀ a b, before a b = true ↔ key a < key b)
    (l : List β) : sortedBy before l = sortOn key l := by
  unfold sortedBy sortOn
  have hr : (fun a b => (!before b a) = true) = fun a b => key a ≤ key b := by
    funext a b
    rw [Bool.not_eq_true', ← Bool.not_eq_true, h b a, not_lt]
  congr!

theorem mem_sortOn {l : List β} {a : β} : a ∈ sortOn key l ↔ a ∈ l := (sortOn_perm key l).mem_iff

/-- Two lists of the same records, sorted by a key that tells them apart. -/
theorem SortedOn.eq_of_perm {l l' : List β} (h : SortedOn key l) (h' : SortedOn key l')
    (hp : l.Perm l') (hk : ∀ a ∈ l, ∀ b ∈ l, key a = key b → a = b) : l = l' := by
  refine hp.eq_of_pairwise (fun a b ha hb hab hba => ?_) h h'
  exact hk a ha b (hp.mem_iff.mpr hb) (le_antisymm hab hba)

/-- Mapping the records keeps the order where the new keys follow the old. -/
theorem SortedOn.map {κ' : Type*} [LinearOrder κ'] {key' : γ → κ'} {f : β → γ} {l : List β}
    (hf : ∀ a b, key a ≤ key b → key' (f a) ≤ key' (f b)) (h : SortedOn key l) :
    SortedOn key' (l.map f) :=
  List.pairwise_map.mpr (List.Pairwise.imp (hf _ _) h)

/-- Records with one key stay in the order they came in. -/
theorem pair_sublist_sortOn {l : List β} {a b : β} (h : [a, b].Sublist l) (hk : key a = key b) :
    [a, b].Sublist (sortOn key l) :=
  List.pair_sublist_insertionSort (r := fun a b => key a ≤ key b) hk.le h

/-- Of two different records, one comes first. -/
theorem not_sublist_swap {l : List β} (hn : l.Nodup) {a b : β} (h : [a, b].Sublist l) :
    ¬ [b, a].Sublist l := by
  induction l with
  | nil => simp at h
  | cons c l ih =>
    obtain ⟨hc, hn⟩ := List.nodup_cons.mp hn
    intro h'
    cases h with
    | cons _ h =>
      cases h' with
      | cons _ h' => exact ih hn h h'
      | cons_cons _ h' => exact hc (h.subset (by simp))
    | cons_cons _ h =>
      cases h' with
      | cons _ h' => exact hc (h'.subset (by simp))
      | cons_cons _ h' => exact hc (List.singleton_sublist.mp h)

/-- Of two different records of a list, one stands before the other. -/
theorem pair_sublist_or {l : List β} {a b : β} (ha : a ∈ l) (hb : b ∈ l) (hne : a ≠ b) :
    [a, b].Sublist l ∨ [b, a].Sublist l := by
  induction l with
  | nil => cases ha
  | cons c l ih =>
    rcases List.mem_cons.mp ha with rfl | ha'
    · have hb' := (List.mem_cons.mp hb).resolve_left hne.symm
      exact .inl ((List.singleton_sublist.mpr hb').cons_cons _)
    · rcases List.mem_cons.mp hb with rfl | hb'
      · exact .inr ((List.singleton_sublist.mpr ha').cons_cons _)
      · exact (ih ha' hb').imp (.cons _) (.cons _)

/-- Two records with one key: what the sort makes of them depends on the
order they come in, whichever records besides them are looked at. -/
theorem sortOn_reverse_ne {f : β → γ} {p : β → Bool} {l : List β} (hn : (l.map f).Nodup) {a b : β}
    (ha : a ∈ l) (hb : b ∈ l) (hpa : p a) (hpb : p b) (hne : a ≠ b) (hk : key a = key b) :
    ((sortOn key l).filter p).map f ≠ ((sortOn key l.reverse).filter p).map f := by
  have hn' : (((sortOn key l).filter p).map f).Nodup :=
    (List.filter_sublist.map f).nodup (((sortOn_perm key l).map f).nodup_iff.mpr hn)
  have swap : ∀ {x y}, [x, y].Sublist l → [y, x].Sublist l.reverse := fun h => by
    simpa using h.reverse
  have kept : ∀ {x y l}, p x → p y → key x = key y → [x, y].Sublist l →
      [f x, f y].Sublist (((sortOn key l).filter p).map f) := fun hx hy hk h => by
    have h := ((pair_sublist_sortOn h hk).filter p).map f
    simpa [hx, hy] using h
  intro he
  rcases pair_sublist_or ha hb hne with h | h
  · exact not_sublist_swap hn' (kept hpa hpb hk h) (he ▸ kept hpb hpa hk.symm (swap h))
  · exact not_sublist_swap hn' (kept hpb hpa hk.symm h) (he ▸ kept hpa hpb hk (swap h))

end SynapsNotes.Framework
