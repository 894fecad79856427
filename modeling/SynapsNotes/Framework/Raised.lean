import SynapsNotes.Framework.Sort

/-!
# Raising one record of a sorted list

Give one record of a list a smaller key and sort again: the record moves to the
front past some of the others, which keep their order (`raised_sortOn`).
-/

namespace SynapsNotes.Framework

variable {β κ : Type*}

/-- `l'` is `l` with `x` exchanged for `x'`, which stands no later. -/
def Raised (x x' : β) (l l' : List β) : Prop :=
  ∃ front passed back, l = front ++ (passed ++ x :: back) ∧ l' = front ++ x' :: (passed ++ back)

variable {x x' y : β} {l l' : List β}

theorem Raised.cons (h : Raised x x' l l') (a : β) : Raised x x' (a :: l) (a :: l') := by
  obtain ⟨front, passed, back, rfl, rfl⟩ := h
  exact ⟨a :: front, passed, back, rfl, rfl⟩

/-- A cut behind the record leaves it raised. -/
theorem Raised.take (x x' : β) {front passed : List β} (back : List β) {n : ℕ}
    (hn : front.length + passed.length < n) :
    ∃ back', (front ++ (passed ++ x :: back)).take n = front ++ (passed ++ x :: back') ∧
      (front ++ x' :: (passed ++ back)).take n = front ++ x' :: (passed ++ back') := by
  obtain ⟨m, rfl⟩ := Nat.exists_eq_add_of_lt hn
  refine ⟨back.take m, ?_, ?_⟩
  · have hm : front.length + passed.length + m + 1 = front.length + (passed.length + (m + 1)) := by omega
    rw [hm, List.take_length_add_append, List.take_length_add_append, List.take_succ_cons]
  · have hm : front.length + passed.length + m + 1 = front.length + (passed.length + m + 1) := by omega
    rw [hm, List.take_length_add_append, List.take_succ_cons, List.take_length_add_append]

section Sorted

variable [LinearOrder κ] {key : β → κ}

theorem orderedInsert_of_le {a : β} (h : key y ≤ key a) (l : List β) :
    (a :: l).orderedInsert (fun a b => key a ≤ key b) y = y :: a :: l := by
  rw [List.orderedInsert_cons, if_pos h]

theorem orderedInsert_of_not_le {a : β} (h : ¬ key y ≤ key a) (l : List β) :
    (a :: l).orderedInsert (fun a b => key a ≤ key b) y = a :: l.orderedInsert (fun a b => key a ≤ key b) y := by
  rw [List.orderedInsert_cons, if_neg h]

/-- Inserting puts the record somewhere. -/
theorem exists_orderedInsert_eq (key : β → κ) (x : β) (l : List β) : ∃ passed back,
    l.orderedInsert (fun a b => key a ≤ key b) x = passed ++ x :: back ∧ l = passed ++ back := by
  induction l with
  | nil => exact ⟨[], [], rfl, rfl⟩
  | cons a l ih =>
    by_cases hle : key x ≤ key a
    · exact ⟨[], a :: l, orderedInsert_of_le hle l, rfl⟩
    · obtain ⟨passed, back, heq, rfl⟩ := ih
      refine ⟨a :: passed, back, ?_, rfl⟩
      rw [orderedInsert_of_not_le hle, heq, List.cons_append]

/-- With a smaller key it is put no later. -/
theorem raised_orderedInsert_self (hk : key x' ≤ key x) (l : List β) :
    Raised x x' (l.orderedInsert (fun a b => key a ≤ key b) x) (l.orderedInsert (fun a b => key a ≤ key b) x') := by
  induction l with
  | nil => exact ⟨[], [], [], rfl, rfl⟩
  | cons a l ih =>
    by_cases hle : key x' ≤ key a
    · obtain ⟨passed, back, heq, hl⟩ := exists_orderedInsert_eq key x (a :: l)
      refine ⟨[], passed, back, heq, ?_⟩
      rw [orderedInsert_of_le hle l, hl]
      rfl
    · have hle' : ¬ key x ≤ key a := fun h => hle (hk.trans h)
      rw [orderedInsert_of_not_le hle, orderedInsert_of_not_le hle']
      exact ih.cons a

theorem orderedInsert_of_forall_le (h : ∀ a ∈ l, key y ≤ key a) :
    l.orderedInsert (fun a b => key a ≤ key b) y = y :: l := by
  cases l with
  | nil => rfl
  | cons a l => exact orderedInsert_of_le (h a List.mem_cons_self) l

/-- Inserting with a record in between and without it. -/
theorem exists_orderedInsert_between {passed back : List β} (h : SortedOn key (passed ++ x :: back)) :
    ∃ passed' back', (passed ++ x :: back).orderedInsert (fun a b => key a ≤ key b) y = passed' ++ x :: back' ∧
      (passed ++ back).orderedInsert (fun a b => key a ≤ key b) y = passed' ++ back' := by
  induction passed with
  | nil =>
    by_cases hle : key y ≤ key x
    · have hback : ∀ a ∈ back, key y ≤ key a := fun a ha => hle.trans ((List.pairwise_cons.mp h).1 a ha)
      refine ⟨[y], back, orderedInsert_of_le hle back, ?_⟩
      rw [List.nil_append, orderedInsert_of_forall_le hback]
      rfl
    · exact ⟨[], _, orderedInsert_of_not_le hle back, rfl⟩
  | cons a passed ih =>
    by_cases hle : key y ≤ key a
    · refine ⟨y :: a :: passed, back, ?_, ?_⟩
      · exact orderedInsert_of_le hle _
      · exact orderedInsert_of_le hle _
    · obtain ⟨passed', back', hwith, hwithout⟩ := ih (List.pairwise_cons.mp h).2
      refine ⟨a :: passed', back', ?_, ?_⟩
      · rw [List.cons_append, orderedInsert_of_not_le hle, hwith, List.cons_append]
      · rw [List.cons_append, orderedInsert_of_not_le hle, hwithout, List.cons_append]

/-- Inserting another record keeps the record raised. -/
theorem Raised.orderedInsert (h : Raised x x' l l') (hl : SortedOn key l) (hl' : SortedOn key l') (y : β)
    (hk : key x' ≤ key x) :
    Raised x x' (l.orderedInsert (fun a b => key a ≤ key b) y) (l'.orderedInsert (fun a b => key a ≤ key b) y) := by
  obtain ⟨front, passed, back, rfl, rfl⟩ := h
  induction front with
  | nil =>
    obtain ⟨hfirst, -⟩ := List.pairwise_cons.mp hl'
    by_cases hle : key y ≤ key x'
    · -- before `x'`, and so before all that it stands before
      have hall : ∀ a ∈ passed ++ x :: back, key y ≤ key a := fun a ha => by
        refine hle.trans ?_
        rcases List.mem_append.mp ha with ha | ha
        · exact hfirst a (List.mem_append_left _ ha)
        · rcases List.mem_cons.mp ha with rfl | ha
          · exact hk
          · exact hfirst a (List.mem_append_right _ ha)
      rw [List.nil_append, orderedInsert_of_forall_le hall, List.nil_append, orderedInsert_of_le hle _]
      exact ⟨[y], passed, back, rfl, rfl⟩
    · obtain ⟨passed', back', hwith, hwithout⟩ := exists_orderedInsert_between (y := y) hl
      rw [List.nil_append, hwith, List.nil_append, orderedInsert_of_not_le hle, hwithout]
      exact ⟨[], passed', back', rfl, rfl⟩
  | cons a front ih =>
    have ih := ih (List.pairwise_cons.mp hl).2 (List.pairwise_cons.mp hl').2
    rw [List.cons_append, List.cons_append]
    by_cases hle : key y ≤ key a
    · rw [orderedInsert_of_le hle _, orderedInsert_of_le hle _]
      exact ⟨y :: a :: front, passed, back, rfl, rfl⟩
    · rw [orderedInsert_of_not_le hle, orderedInsert_of_not_le hle]
      exact ih.cons a

theorem raised_sortOn (hk : key x' ≤ key x) (before behind : List β) :
    Raised x x' (sortOn key (before ++ x :: behind)) (sortOn key (before ++ x' :: behind)) := by
  induction before with
  | nil => exact raised_orderedInsert_self hk (sortOn key behind)
  | cons a before ih => exact ih.orderedInsert (sortOn_sorted key _) (sortOn_sorted key _) a hk

end Sorted

end SynapsNotes.Framework
