import Mathlib.Data.List.Forall2
import Mathlib.Data.List.Infix

/-!
# Texts that stand in another one in order

`InOrder ts p` says that the texts `ts` stand in `p`, each behind the one
before. Where `p` is written piece by piece, it is enough to find each of them
in a piece of its own, in the same order (`inOrder_flatten`).
-/

namespace SynapsNotes.Framework

variable {α β γ : Type*} {R : α → β → Prop} {a : α} {as as' : List α} {b : β} {bs bs' : List β}

/-! ## Elements found in order -/

theorem sublistForall₂_append_right (h : List.SublistForall₂ R as bs) (bs' : List β) :
    List.SublistForall₂ R as (bs' ++ bs) := by
  induction bs' with
  | nil => exact h
  | cons b bs' ih => exact .cons_right ih

/-- The first is found in one part, and the others behind that. -/
theorem sublistForall₂_cons_append (ha : ∃ b ∈ bs, R a b) (h : List.SublistForall₂ R as bs') :
    List.SublistForall₂ R (a :: as) (bs ++ bs') := by
  obtain ⟨b, hb, hab⟩ := ha
  obtain ⟨l, r, rfl⟩ := List.append_of_mem hb
  rw [List.append_assoc]
  exact sublistForall₂_append_right (.cons hab (sublistForall₂_append_right h r)) l

theorem sublistForall₂_append_left (h : List.SublistForall₂ R as bs) (bs' : List β) :
    List.SublistForall₂ R as (bs ++ bs') := by
  induction h with
  | nil => exact .nil
  | cons hab _ ih => exact .cons hab ih
  | cons_right _ ih => exact .cons_right ih

/-! ## Texts -/

def InOrder : List (List γ) → List γ → Prop
  | [], _ => True
  | t :: ts, p => ∃ x y, p = x ++ (t ++ y) ∧ InOrder ts y

variable {ts : List (List γ)} {t p x : List γ}

theorem InOrder.append_right (h : InOrder ts p) (x : List γ) : InOrder ts (x ++ p) := by
  cases ts with
  | nil => trivial
  | cons t ts =>
    obtain ⟨y, z, rfl, hts⟩ := h
    exact ⟨x ++ y, z, (List.append_assoc _ _ _).symm, hts⟩

theorem InOrder.append_left (h : InOrder ts p) (x : List γ) : InOrder ts (p ++ x) := by
  induction ts generalizing p with
  | nil => trivial
  | cons t ts ih =>
    obtain ⟨y, z, rfl, hts⟩ := h
    exact ⟨y, z ++ x, by simp only [List.append_assoc], ih hts⟩

/-- Each text stands in a piece of its own. -/
theorem inOrder_flatten {f : α → List γ} {g : β → List γ} (hR : ∀ a b, R a b → f a <:+: g b)
    (h : List.SublistForall₂ R as bs) : InOrder (as.map f) (bs.flatMap g) := by
  induction h with
  | nil => trivial
  | cons hab _ ih =>
    obtain ⟨x, y, hxy⟩ := hR _ _ hab
    rw [List.flatMap_cons, ← hxy]
    exact ⟨x, _, by simp only [List.append_assoc], ih.append_right y⟩
  | cons_right _ ih => exact ih.append_right _

end SynapsNotes.Framework
