import Mathlib.Data.List.Infix

/-!
# Occurrences of words in a text

A word is `Marked` by its first letter if that letter stands nowhere else in
it. No two occurrences of marked words overlap: a marked word that begins
before the mark ends before it (`Marked.prefix_append_iff`).

`upTo words t` is `t` up to the first occurrence of one of the words. It is
all of `t` exactly if none occurs (`upTo_eq_self_iff`), and it ends before any
occurrence (`length_upTo_le`).
-/

namespace SynapsNotes.Framework

variable {α : Type*} {c : α} {s t x y : List α}

/-! ## Marked words -/

/-- The word begins with `c`, which stands nowhere else in it. -/
def Marked (c : α) (s : List α) : Prop := ∃ r, s = c :: r ∧ c ∉ r

theorem marked_iff : Marked c s ↔ s.head? = some c ∧ c ∉ s.tail := by
  cases s <;> simp [Marked, and_comm, eq_comm]

instance instDecidableMarked [DecidableEq α] : Decidable (Marked c s) := decidable_of_iff _ marked_iff.symm

/-- A marked word that begins in `x` ends in `x`, if the mark follows `x`. -/
theorem Marked.prefix_append_iff (hs : Marked c s) (hx : x ≠ []) (hy : y.head? = some c) :
    s <+: x ++ y ↔ s <+: x := by
  refine ⟨fun h => ?_, fun h => h.trans (List.prefix_append x y)⟩
  rcases List.prefix_or_prefix_of_prefix h (List.prefix_append x y) with hsx | ⟨z, rfl⟩
  · exact hsx
  cases z with
  | nil => exact (List.append_nil x).symm ▸ List.prefix_rfl
  | cons d z =>
    -- the word goes on behind `x`, where the mark stands
    have hd : d = c := by
      obtain ⟨w, hw⟩ := (List.prefix_append_right_inj x).mp h
      rw [← hw] at hy
      exact Option.some.inj hy
    obtain ⟨r, hr, hc⟩ := hs
    cases x with
    | nil => exact absurd rfl hx
    | cons a x =>
      injection hr with _ hr
      exact absurd (hr ▸ by simp [hd]) hc

/-- A marked word does not begin where its mark is missing. -/
theorem Marked.infix_of_not_mem (hs : Marked c s) (hx : c ∉ x) (h : s <:+: x ++ y) : s <:+: y := by
  induction x with
  | nil => exact h
  | cons a x ih =>
    rw [List.mem_cons, not_or] at hx
    rcases List.infix_cons_iff.mp h with hp | hi
    · obtain ⟨r, rfl, _⟩ := hs
      exact absurd (List.cons_prefix_cons.mp hp).1 hx.1
    · exact ih hx.2 hi

/-- A marked word that occurs in a part of another one occurs at its
beginning. -/
theorem Marked.prefix_of_inside (hs : Marked c s) (ht : Marked c t) (hx : x <+: t) (h : s <:+: x) :
    s <+: x := by
  obtain ⟨u, v, rfl⟩ := h
  cases u with
  | nil => exact ⟨v, rfl⟩
  | cons a u =>
    obtain ⟨r, rfl, _⟩ := hs
    obtain ⟨w, rfl⟩ := hx
    obtain ⟨r', hr', hc⟩ := ht
    injection hr' with _ hr'
    exact absurd (hr' ▸ by simp) hc

/-- A word without the separator stands on one side of it. -/
theorem infix_append_cons_iff (hc : c ∉ s) : s <:+: x ++ c :: y ↔ s <:+: x ∨ s <:+: y := by
  constructor
  · rintro ⟨p, q, h⟩
    rcases List.append_eq_append_iff.mp h with ⟨r, hx, -⟩ | ⟨r, hp, hy⟩
    · exact .inl ⟨p, r, hx.symm⟩
    · cases r with
      | nil => exact .inl ⟨p, [], by rw [hp, List.append_nil, List.append_nil]⟩
      | cons d r =>
        obtain ⟨rfl, rfl⟩ := List.cons.inj hy
        rcases List.append_eq_append_iff.mp hp with ⟨t, -, hs⟩ | ⟨t, -, hs⟩
        · exact absurd (hs ▸ List.mem_append_right t List.mem_cons_self) hc
        · cases t with
          | nil =>
            rw [List.nil_append] at hs
            exact absurd (hs ▸ List.mem_cons_self) hc
          | cons e t => exact .inr ⟨t, q, congrArg (· ++ q) (List.cons.inj hs).2.symm⟩
  · rintro (h | h)
    · exact h.trans (List.prefix_append _ _).isInfix
    · exact h.trans ((List.suffix_cons _ _).trans (List.suffix_append _ _)).isInfix

/-! ## The first occurrence -/

variable {words : List (List α)}

/-- One of the words occurs in the text. -/
def Occurs (words : List (List α)) (t : List α) : Prop := ∃ s ∈ words, s <:+: t

variable [DecidableEq α]

/-- The text up to the first occurrence of one of the words. -/
def upTo (words : List (List α)) : List α → List α
  | [] => []
  | a :: t => if words.any (·.isPrefixOf (a :: t)) then [] else a :: upTo words t

theorem upTo_prefix (words : List (List α)) (t : List α) : upTo words t <+: t := by
  induction t with
  | nil => exact List.prefix_rfl
  | cons a t ih =>
    rw [upTo]
    split
    · exact List.nil_prefix
    · exact (List.prefix_cons_inj a).mpr ih

/-- The text stops before any occurrence. -/
theorem length_upTo_le (hs : s ∈ words) (h0 : s ≠ []) (h : t = x ++ s ++ y) :
    (upTo words t).length ≤ x.length := by
  subst h
  induction x with
  | nil =>
    cases s with
    | nil => exact absurd rfl h0
    | cons a s =>
      have hany : words.any (·.isPrefixOf (a :: (s ++ y))) = true :=
        List.any_eq_true.mpr
          ⟨a :: s, hs, List.isPrefixOf_iff_prefix.mpr (List.prefix_append (a :: s) y)⟩
      rw [List.nil_append, List.cons_append, upTo, if_pos hany]
  | cons a x ih =>
    rw [List.cons_append, List.cons_append, upTo]
    split
    · exact Nat.zero_le _
    · exact Nat.succ_le_succ ih

/-- Where the text is cut short, one of the words follows. -/
theorem prefix_of_upTo_append (h : t = upTo words t ++ x) (hx : x ≠ []) :
    ∃ s ∈ words, s <+: x := by
  induction t with
  | nil =>
    rw [upTo, List.nil_append] at h
    exact absurd h.symm hx
  | cons a t ih =>
    rw [upTo] at h
    split at h
    · rename_i hany
      rw [List.any_eq_true] at hany
      obtain ⟨s, hs, hp⟩ := hany
      rw [List.nil_append] at h
      exact ⟨s, hs, h ▸ List.isPrefixOf_iff_prefix.mp hp⟩
    · rw [List.cons_append] at h
      exact ih (List.cons.inj h).2

theorem upTo_eq_self_iff (h0 : [] ∉ words) : upTo words t = t ↔ ¬ Occurs words t := by
  constructor
  · rintro h ⟨s, hs, x, y, hxy⟩
    have hne : s ≠ [] := fun hnil => h0 (hnil ▸ hs)
    have hle := length_upTo_le hs hne hxy.symm
    rw [h, ← hxy] at hle
    simp only [List.length_append] at hle
    exact hne (List.length_eq_zero_iff.mp (by omega))
  · intro h
    obtain ⟨x, hx⟩ := upTo_prefix words t
    cases x with
    | nil => rwa [List.append_nil] at hx
    | cons a x =>
      obtain ⟨s, hs, hp⟩ := prefix_of_upTo_append hx.symm (List.cons_ne_nil a x)
      exact absurd ⟨s, hs, hp.isInfix.trans (hx ▸ (List.suffix_append _ _).isInfix)⟩ h

end SynapsNotes.Framework
