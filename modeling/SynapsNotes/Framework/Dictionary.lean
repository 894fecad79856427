import Mathlib.Data.List.AList
import Mathlib.Algebra.BigOperators.Group.List.Basic
import Mathlib.Tactic.Abel

/-!
# Dictionaries filled from a list

`indexed key l` enters the elements of `l` under their keys, one after
another, so that an element replaces an earlier one of its key. What it
finds under a key is an element with that key (`mem_of_lookup_indexed`), and
where the keys are distinct it finds every element (`lookup_indexed`).

`rekeyed f d` has the entries of `d` under other keys, those without a new
key left out (`lookup_rekeyed`), and a sum over the entries of a dictionary
changes with an entry by the difference (`sum_entries_insert`).
-/

namespace SynapsNotes.Framework

variable {κ β : Type*} [DecidableEq κ]

/-- The dictionary of the elements of `l`, by their keys, on top of `d`. -/
def indexedFrom (key : β → κ) (d : AList fun _ : κ => β) (l : List β) : AList fun _ : κ => β :=
  l.foldl (fun d x => d.insert (key x) x) d

def indexed (key : β → κ) (l : List β) : AList fun _ : κ => β := indexedFrom key ∅ l

variable {key : β → κ} {d : AList fun _ : κ => β} {l : List β} {k : κ} {x : β}

/-- What is found was entered under its own key, or was there before. -/
theorem lookup_indexedFrom (h : (indexedFrom key d l).lookup k = some x) :
    d.lookup k = some x ∨ (x ∈ l ∧ key x = k) := by
  induction l generalizing d with
  | nil => exact .inl h
  | cons y l ih =>
    rcases ih h with h | ⟨hx, hk⟩
    · by_cases hy : k = key y
      · subst hy
        rw [AList.lookup_insert] at h
        cases h
        exact .inr ⟨List.mem_cons_self, rfl⟩
      · rw [AList.lookup_insert_ne hy] at h
        exact .inl h
    · exact .inr ⟨List.mem_cons_of_mem _ hx, hk⟩

/-- Every key that was entered is found. -/
theorem isSome_lookup_indexedFrom (h : (d.lookup k).isSome ∨ k ∈ l.map key) :
    ((indexedFrom key d l).lookup k).isSome := by
  induction l generalizing d with
  | nil => exact h.resolve_right (by simp)
  | cons y l ih =>
    refine ih ?_
    by_cases hy : k = key y
    · subst hy
      rw [AList.lookup_insert]
      exact .inl rfl
    · rw [AList.lookup_insert_ne hy]
      exact h.imp_right fun h => (List.mem_cons.mp h).resolve_left hy

theorem mem_of_lookup_indexed (h : (indexed key l).lookup k = some x) : x ∈ l ∧ key x = k := by
  rcases lookup_indexedFrom h with h | h
  · exact nomatch h
  · exact h

theorem exists_lookup_indexed (key : β → κ) (h : x ∈ l) :
    ∃ y, (indexed key l).lookup (key x) = some y ∧ key y = key x := by
  obtain ⟨y, hy⟩ := Option.isSome_iff_exists.mp
    (isSome_lookup_indexedFrom (d := ∅) (.inr (List.mem_map_of_mem (f := key) h)))
  exact ⟨y, hy, (mem_of_lookup_indexed hy).2⟩

/-- Elements with distinct keys are all found. -/
theorem lookup_indexed (hn : (l.map key).Nodup) (h : x ∈ l) : (indexed key l).lookup (key x) = some x := by
  obtain ⟨y, hy, hk⟩ := exists_lookup_indexed key h
  rw [hy, List.inj_on_of_nodup_map hn (mem_of_lookup_indexed hy).1 h hk]

/-- The dictionary of a mapped list, where the keys stay what they were. -/
theorem lookup_indexed_map {γ : Type*} {key' : γ → κ} {f : β → γ} (hf : ∀ y, key' (f y) = key y)
    (hn : (l.map key).Nodup) (h : x ∈ l) : (indexed key' (l.map f)).lookup (key x) = some (f x) := by
  rw [← hf x]
  refine lookup_indexed ?_ (List.mem_map_of_mem h)
  rw [List.map_map]
  exact (List.map_congr_left fun y _ => hf y) ▸ hn

/-- A dictionary in which something is found is not empty. -/
theorem isEmpty_eq_false_of_lookup (h : d.lookup k = some x) : d.entries.isEmpty = false := by
  rw [Bool.eq_false_iff]
  intro he
  have hd : d = ∅ := AList.ext (List.isEmpty_iff.mp he)
  rw [hd] at h
  exact nomatch h

/-! ## Other keys -/

variable {κ' : Type*} [DecidableEq κ']

/-- The entries of `d`, each under the key that `f` gives it. -/
def rekeyed (f : κ → Option κ') (d : AList fun _ : κ => β) : AList fun _ : κ' => β :=
  d.entries.foldl (fun r e => match f e.1 with
    | none => r
    | some k => r.insert k e.2) ∅

theorem lookup_foldl_rekeyed {f : κ → Option κ'} {k : κ} {k' : κ'} (hk : f k = some k')
    (l : List (Sigma fun _ : κ => β)) (hl : l.NodupKeys)
    (hf : ∀ e ∈ l, f e.1 = some k' → e.1 = k) (r : AList fun _ : κ' => β) :
    (l.foldl (fun r e => match f e.1 with
      | none => r
      | some k => r.insert k e.2) r).lookup k' = (l.dlookup k).or (r.lookup k') := by
  induction l generalizing r with
  | nil => rfl
  | cons e l ih =>
    obtain ⟨a, x⟩ := e
    rw [List.nodupKeys_cons] at hl
    rw [List.foldl_cons, ih hl.2 fun e he => hf e (List.mem_cons_of_mem _ he)]
    by_cases ha : a = k
    · subst ha
      have hnone : l.dlookup a = none := List.dlookup_eq_none.mpr hl.1
      simp [hk, hnone, List.dlookup_cons_eq]
    · rw [List.dlookup_cons_ne _ _ (Ne.symm ha)]
      congr 1
      dsimp only
      split
      · rfl
      · rename_i k₁ hk₁
        refine AList.lookup_insert_ne fun heq => ha ?_
        exact hf ⟨a, x⟩ List.mem_cons_self (heq ▸ hk₁)

omit [DecidableEq κ] in
/-- Every new key is that of an entry. -/
theorem exists_of_mem_rekeyed {f : κ → Option κ'} {d : AList fun _ : κ => β} {k' : κ'}
    (h : k' ∈ rekeyed f d) : ∃ k ∈ d, f k = some k' := by
  by_contra hnone
  push Not at hnone
  suffices hl : ∀ (l : List (Sigma fun _ : κ => β)) (r : AList fun _ : κ' => β),
      (∀ e ∈ l, f e.1 ≠ some k') → k' ∉ r → k' ∉ l.foldl (fun r e => match f e.1 with
        | none => r
        | some k => r.insert k e.2) r from
    hl d.entries ∅ (fun e he => hnone e.1 (List.mem_map_of_mem he)) (AList.notMem_empty k') h
  intro l
  induction l with
  | nil => exact fun r _ hr => hr
  | cons e l ih =>
    intro r hl hr
    refine ih _ (fun e' he' => hl e' (List.mem_cons_of_mem _ he')) ?_
    dsimp only
    split
    · exact hr
    · rename_i k hk
      rw [AList.mem_insert, not_or]
      exact ⟨fun heq => hl e List.mem_cons_self (heq ▸ hk), hr⟩

/-- An entry is found under its new key, if no other key of the dictionary
has the same. -/
theorem lookup_rekeyed {f : κ → Option κ'} {k : κ} {k' : κ'} (hk : f k = some k')
    (d : AList fun _ : κ => β) (hf : ∀ a ∈ d, f a = some k' → a = k) :
    (rekeyed f d).lookup k' = d.lookup k := by
  rw [rekeyed, lookup_foldl_rekeyed hk _ d.nodupKeys fun e he => hf e.1 (List.mem_map_of_mem he)]
  show (d.lookup k).or none = _
  exact Option.or_none

/-! ## Sums over the entries -/

section Sum

variable {M : Type*} [AddCommGroup M]

/-- A sum over the entries, without one of them. -/
theorem sum_entries_erase (g : κ → β → M) (d : AList fun _ : κ => β) (k : κ) :
    ((d.erase k).entries.map fun e => g e.1 e.2).sum =
      (d.entries.map fun e => g e.1 e.2).sum - ((d.lookup k).map (g k)).getD 0 := by
  show ((d.entries.kerase k).map _).sum = _
  by_cases hk : k ∈ d.entries.keys
  · obtain ⟨y, l₁, l₂, hnot, heq, herase⟩ := List.exists_of_kerase hk
    have hlookup : d.lookup k = some y := by
      rw [← Option.mem_def, AList.mem_lookup_iff, heq]
      simp
    rw [herase, heq, hlookup]
    simp only [List.map_append, List.map_cons, List.sum_append, List.sum_cons, Option.map_some,
      Option.getD_some]
    abel
  · have hlookup : d.lookup k = none := AList.lookup_eq_none.mpr hk
    rw [List.kerase_of_notMem_keys hk, hlookup]
    simp

/-- A sum over the entries, after one of them was entered or replaced. -/
theorem sum_entries_insert (g : κ → β → M) (d : AList fun _ : κ => β) (k : κ) (x : β) :
    ((d.insert k x).entries.map fun e => g e.1 e.2).sum =
      (d.entries.map fun e => g e.1 e.2).sum - ((d.lookup k).map (g k)).getD 0 + g k x := by
  rw [← sum_entries_erase g d k, AList.entries_insert, List.map_cons, List.sum_cons, add_comm]
  rfl

end Sum

end SynapsNotes.Framework
