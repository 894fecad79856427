import Mathlib.Data.List.Infix
import SynapsNotes.Framework.Trim

/-!
# Deleting words from a text

`Deletes s f` says that `f` takes all occurrences of the word `s` out of a
text, once: what it joins is not looked at again. For a word in brackets
(`Bracketed`) no two occurrences overlap, so `f` goes on separately on the two
sides of a joint that splits no occurrence (`Deletes.append`), and what is left
can be followed back to where it stood (`Deletes.exists_append`,
`Deletes.exists_cons`).

`deletions` deletes several words one after the other. It leaves no more of a
text than of its parts; as much is left, counting the opening bracket, exactly
if the joint splits no word in any pass (`deletions_append_cases`).
-/

namespace SynapsNotes.Framework

variable {α : Type*} {a b c : α} {s t x y : List α}

/-! ## Words in brackets -/

/-- The word begins with `a` and ends with `b`, which stand nowhere else in
it. -/
structure Bracketed (a b : α) (s : List α) : Prop where
  ne : a ≠ b
  head : s.head? = some a
  last : s.getLast? = some b
  head_once : a ∉ s.tail
  last_once : b ∉ s.dropLast

instance instDecidableBracketed [DecidableEq α] : Decidable (Bracketed a b s) :=
  decidable_of_iff (a ≠ b ∧ s.head? = some a ∧ s.getLast? = some b ∧ a ∉ s.tail ∧ b ∉ s.dropLast)
    ⟨fun ⟨h₁, h₂, h₃, h₄, h₅⟩ => ⟨h₁, h₂, h₃, h₄, h₅⟩, fun h => ⟨h.ne, h.head, h.last, h.head_once, h.last_once⟩⟩

/-- The word begins in `x` and ends in `y`, at the joint of the two. -/
def Splits (s x y : List α) : Prop :=
  ∃ s₁ s₂, s₁ ≠ [] ∧ s₂ ≠ [] ∧ s = s₁ ++ s₂ ∧ s₁ <:+ x ∧ s₂ <+: y

theorem infix_append_iff_splits : s <:+: x ++ y ↔ s <:+: x ∨ s <:+: y ∨ Splits s x y :=
  List.infix_append_iff_ne_nil

theorem Splits.mono {x' y' : List α} (h : Splits s x y) (hx : x <:+ x') (hy : y <+: y') : Splits s x' y' := by
  obtain ⟨s₁, s₂, h₁, h₂, hs, hs₁, hs₂⟩ := h
  exact ⟨s₁, s₂, h₁, h₂, hs, hs₁.trans hx, hs₂.trans hy⟩

theorem not_splits_nil_left : ¬ Splits s [] y := fun ⟨_, _, h₁, _, _, hs₁, _⟩ => h₁ (List.suffix_nil.mp hs₁)

theorem not_splits_nil_right : ¬ Splits s x [] := fun ⟨_, _, _, h₂, _, _, hs₂⟩ => h₂ (List.prefix_nil.mp hs₂)

namespace Bracketed

variable (hs : Bracketed a b s)

include hs

theorem ne_nil : s ≠ [] := fun h => by simpa [h] using hs.head

theorem eq_cons : s = a :: s.tail := by
  have h := hs.head
  cases s with
  | nil => cases h
  | cons c s =>
    rw [List.head?_cons, Option.some.injEq] at h
    rw [h, List.tail_cons]

theorem tail_ne_nil : s.tail ≠ [] := by
  intro h
  have hlast := hs.last
  rw [hs.eq_cons, h] at hlast
  exact hs.ne (Option.some.inj hlast)

/-- Of two parts of the word, only the first holds the opening bracket. -/
theorem not_mem_of_append {s₁ s₂ : List α} (h : s = s₁ ++ s₂) (h₁ : s₁ ≠ []) : a ∉ s₂ := by
  have honce := hs.head_once
  rw [h, List.tail_append_of_ne_nil h₁] at honce
  exact fun hmem => honce (List.mem_append_right _ hmem)

/-- And only the second the closing one. -/
theorem not_mem_of_append' {s₁ s₂ : List α} (h : s = s₁ ++ s₂) (h₂ : s₂ ≠ []) : b ∉ s₁ := by
  have honce := hs.last_once
  rw [h, List.dropLast_append_of_ne_nil h₂] at honce
  exact fun hmem => honce (List.mem_append_left _ hmem)

/-- No word is split where the opening bracket follows. -/
theorem not_splits_of_head (hy : y.head? = some a) : ¬ Splits s x y := by
  rintro ⟨s₁, s₂, h₁, h₂, h, -, hs₂⟩
  exact hs.not_mem_of_append h h₁ (List.mem_of_head? ((head?_of_isPrefix hs₂ h₂).trans hy))

/-- Nor where the closing one stands. -/
theorem not_splits_of_last (hx : x.getLast? = some b) : ¬ Splits s x y := by
  rintro ⟨s₁, s₂, h₁, h₂, h, hs₁, -⟩
  have hb : s₁.getLast? = some b := by
    obtain ⟨w, rfl⟩ := hs₁
    rwa [List.getLast?_append_of_ne_nil _ h₁] at hx
  exact hs.not_mem_of_append' h h₂ (List.mem_of_getLast? hb)

/-- Nor behind a letter other than the opening bracket. -/
theorem not_splits_singleton (hc : c ≠ a) : ¬ Splits s [c] y := by
  rintro ⟨s₁, s₂, h₁, -, h, hs₁, -⟩
  have hlen : s₁.length ≤ 1 := hs₁.length_le
  have heq : s₁ = [c] := hs₁.eq_of_length (Nat.le_antisymm hlen (List.length_pos_of_ne_nil h₁))
  rw [h, heq] at hs
  exact hc (Option.some.inj hs.head)

theorem not_infix_singleton : ¬ s <:+: [c] := by
  intro h
  have htail := List.length_pos_of_ne_nil hs.tail_ne_nil
  have hlen := h.length_le
  rw [List.length_tail] at htail
  rw [List.length_singleton] at hlen
  omega

/-- A joint splits the word into its beginning, which does not end it, and its
end, which does not begin one. -/
theorem exists_parts (h : Splits s x y) : ∃ s₁ s₂ p q, s = s₁ ++ s₂ ∧ x = p ++ s₁ ∧ y = s₂ ++ q ∧
    (s₁.head? = some a ∧ b ∉ s₁) ∧ s₂.getLast? = some b ∧ a ∉ s₂ := by
  obtain ⟨s₁, s₂, h₁, h₂, heq, ⟨p, rfl⟩, ⟨q, rfl⟩⟩ := h
  have hhead : s₁.head? = some a := by
    rw [← hs.head, heq, List.head?_append_of_ne_nil _ h₁]
  have hlast : s₂.getLast? = some b := by
    rw [← hs.last, heq, List.getLast?_append_of_ne_nil _ h₂]
  exact ⟨s₁, s₂, p, q, heq, rfl, rfl, ⟨hhead, hs.not_mem_of_append' heq h₂⟩, hlast, hs.not_mem_of_append heq h₁⟩

/-- A word in brackets that another one begins with is that word. -/
theorem eq_of_prefix (ht : Bracketed a b t) (h : s <+: t) : s = t := by
  obtain ⟨w, rfl⟩ := h
  cases w with
  | nil => rw [List.append_nil]
  | cons d w => exact absurd (List.mem_of_getLast? hs.last) (ht.not_mem_of_append' rfl (List.cons_ne_nil d w))

end Bracketed

/-- The induction on the texts between the occurrences of a word. -/
theorem infix_induction {motive : List α → Prop} (h0 : s ≠ []) (absent : ∀ t, ¬ s <:+: t → motive t)
    (present : ∀ x y, motive x → motive y → motive (x ++ s ++ y)) (t : List α) : motive t := by
  induction hn : t.length using Nat.strong_induction_on generalizing t with
  | _ n ih =>
    by_cases h : s <:+: t
    · obtain ⟨x, y, rfl⟩ := h
      have hpos := List.length_pos_of_ne_nil h0
      rw [List.length_append, List.length_append] at hn
      exact present x y (ih _ (by omega) x rfl) (ih _ (by omega) y rfl)
    · exact absent t h

/-! ## One word -/

/-- `f` takes out the occurrences of `s`. -/
structure Deletes (s : List α) (f : List α → List α) : Prop where
  absent : ∀ t, ¬ s <:+: t → f t = t
  present : ∀ x y, f (x ++ s ++ y) = f x ++ f y

namespace Deletes

variable {f : List α → List α} (hf : Deletes s f) (hs : Bracketed a b s)

include hf

theorem map_nil (h0 : s ≠ []) : f [] = [] := hf.absent [] fun h => h0 (List.infix_nil.mp h)

/-- A word across the joint is taken out of the two sides. -/
theorem across {s₁ s₂ : List α} (h : s = s₁ ++ s₂) (p q : List α) : f (p ++ s₁ ++ (s₂ ++ q)) = f p ++ f q := by
  rw [← hf.present p q, h]
  simp only [List.append_assoc]

include hs

theorem map_singleton (c : α) : f [c] = [c] := hf.absent [c] hs.not_infix_singleton

/-- Deleting goes on separately on the two sides of a joint that does not split
the word. -/
theorem append (h : ¬ Splits s x y) : f (x ++ y) = f x ++ f y := by
  induction x using infix_induction hs.ne_nil with
  | absent x hx =>
    induction y using infix_induction hs.ne_nil with
    | absent y hy =>
      rw [hf.absent x hx, hf.absent y hy]
      exact hf.absent _ fun hin => (infix_append_iff_splits.mp hin).elim hx fun h' => h'.elim hy h
    | present p q ihp ihq =>
      have hp : ¬ Splits s x p := fun hp => h (hp.mono List.suffix_rfl ⟨s ++ q, (List.append_assoc ..).symm⟩)
      rw [← List.append_assoc, ← List.append_assoc, hf.present, hf.present, ihp hp, List.append_assoc]
  | present p q ihp ihq =>
    have hq : ¬ Splits s q y := fun hq => h (hq.mono ⟨p ++ s, rfl⟩ List.prefix_rfl)
    rw [List.append_assoc, hf.present, hf.present, ihq hq, List.append_assoc]

theorem append_of_head (hy : y = [] ∨ y.head? = some a) (x : List α) : f (x ++ y) = f x ++ f y := by
  refine hf.append hs ?_
  obtain rfl | hy := hy
  · exact not_splits_nil_right
  · exact hs.not_splits_of_head hy

theorem append_of_last (hx : x = [] ∨ x.getLast? = some b) (y : List α) : f (x ++ y) = f x ++ f y := by
  refine hf.append hs ?_
  obtain rfl | hx := hx
  · exact not_splits_nil_left
  · exact hs.not_splits_of_last hx

/-- A joint of what is left is a joint of the text. -/
theorem exists_append (h : f t = x ++ y) : ∃ u v, t = u ++ v ∧ f u = x ∧ f v = y := by
  induction t using infix_induction hs.ne_nil generalizing x y with
  | absent t ht =>
    rw [hf.absent t ht] at h
    subst h
    exact ⟨x, y, rfl, hf.absent x fun hx => ht (List.infix_append_of_infix_left hx),
      hf.absent y fun hy => ht (List.infix_append_of_infix_right hy)⟩
  | present p q ihp ihq =>
    rw [hf.present] at h
    obtain ⟨z, rfl, hq⟩ | ⟨z, hp, rfl⟩ := List.append_eq_append_iff.mp h
    · obtain ⟨u, v, rfl, hu, hv⟩ := ihq hq
      exact ⟨p ++ s ++ u, v, by simp only [List.append_assoc], by rw [hf.present, hu], hv⟩
    · obtain ⟨u, v, rfl, hu, hv⟩ := ihp hp
      exact ⟨u, v ++ s ++ q, by simp only [List.append_assoc], hu, by rw [hf.present, hv]⟩

/-- The first letter that is left stands in the text behind what is deleted. -/
theorem exists_cons (h : f t = c :: y) : ∃ u v, t = u ++ c :: v ∧ f u = [] ∧ f v = y := by
  induction t using infix_induction hs.ne_nil generalizing y with
  | absent t ht =>
    rw [hf.absent t ht] at h
    subst h
    exact ⟨[], y, rfl, hf.map_nil hs.ne_nil, hf.absent y fun hy => ht (hy.trans (List.suffix_cons c y).isInfix)⟩
  | present p q ihp ihq =>
    rw [hf.present] at h
    cases hp : f p with
    | nil =>
      rw [hp, List.nil_append] at h
      obtain ⟨u, v, rfl, hu, hv⟩ := ihq h
      exact ⟨p ++ s ++ u, v, by simp only [List.append_assoc], by rw [hf.present, hp, hu, List.nil_append], hv⟩
    | cons d z =>
      rw [hp, List.cons_append, List.cons.injEq] at h
      obtain ⟨rfl, rfl⟩ := h
      obtain ⟨u, v, rfl, hu, hv⟩ := ihp hp
      exact ⟨u, v ++ s ++ q, by simp only [List.append_assoc, List.cons_append], hu, by rw [hf.present, hv]⟩

/-- What is deleted at the beginning of a text is in brackets. -/
theorem head?_of_map (h : f t = [] ∨ (f t).head? = some a) : t = [] ∨ t.head? = some a := by
  induction t using infix_induction hs.ne_nil with
  | absent t ht => rwa [hf.absent t ht] at h
  | present p q ihp ihq =>
    rw [hf.present, List.append_eq_nil_iff] at h
    refine .inr ?_
    by_cases hp : p = []
    · rw [hp, List.nil_append, List.head?_append_of_ne_nil _ hs.ne_nil]
      exact hs.head
    · rw [List.append_assoc, List.head?_append_of_ne_nil _ hp]
      refine (ihp ?_).resolve_left hp
      by_cases hfp : f p = []
      · exact .inl hfp
      · rw [List.head?_append_of_ne_nil _ hfp] at h
        exact .inr (h.resolve_left fun h' => hfp h'.1)

/-- And so is what is deleted at its end. -/
theorem getLast?_of_map (h : f t = [] ∨ (f t).getLast? = some b) : t = [] ∨ t.getLast? = some b := by
  induction t using infix_induction hs.ne_nil with
  | absent t ht => rwa [hf.absent t ht] at h
  | present p q ihp ihq =>
    rw [hf.present, List.append_eq_nil_iff] at h
    refine .inr ?_
    by_cases hq : q = []
    · rw [hq, List.append_nil, List.getLast?_append_of_ne_nil _ hs.ne_nil]
      exact hs.last
    · rw [List.getLast?_append_of_ne_nil _ hq]
      refine (ihq ?_).resolve_left hq
      by_cases hfq : f q = []
      · exact .inl hfq
      · rw [List.getLast?_append_of_ne_nil _ hfq] at h
        exact .inr (h.resolve_left fun h' => hfq h'.2)

end Deletes

/-! ## Several words, one after the other -/

/-- The words are deleted in their order, each once. -/
def deletions (del : List α → List α → List α) (words : List (List α)) (t : List α) : List α :=
  words.foldl (fun t s => del s t) t

/-- In some pass, the joint of the two texts splits the word. -/
def SplitsOne (del : List α → List α → List α) (words : List (List α)) (x y : List α) : Prop :=
  ∃ n s, words[n]? = some s ∧ Splits s (deletions del (words.take n) x) (deletions del (words.take n) y)

section Deletions

variable {del : List α → List α → List α} {words : List (List α)}

theorem deletions_cons (s : List α) (words : List (List α)) (t : List α) :
    deletions del (s :: words) t = deletions del words (del s t) := rfl

theorem splitsOne_cons : SplitsOne del (s :: words) x y ↔ Splits s x y ∨ SplitsOne del words (del s x) (del s y) := by
  constructor
  · rintro ⟨n, r, hr, hsplits⟩
    cases n with
    | zero =>
      rw [List.getElem?_cons_zero, Option.some.injEq] at hr
      exact .inl (hr ▸ hsplits)
    | succ n => exact .inr ⟨n, r, hr, hsplits⟩
  · rintro (h | ⟨n, r, hr, hsplits⟩)
    · exact ⟨0, s, rfl, h⟩
    · exact ⟨n + 1, r, hr, hsplits⟩

variable (hdel : ∀ s, Bracketed a b s → Deletes s (del s)) (hwords : ∀ s ∈ words, Bracketed a b s)

include hdel hwords

theorem deletions_nil : deletions del words [] = [] := by
  induction words with
  | nil => rfl
  | cons s words ih =>
    rw [List.forall_mem_cons] at hwords
    rw [deletions_cons, (hdel s hwords.1).map_nil hwords.1.ne_nil, ih hwords.2]

/-- Where no word occurs, nothing is deleted. -/
theorem deletions_of_absent (ht : ∀ s ∈ words, ¬ s <:+: t) : deletions del words t = t := by
  induction words with
  | nil => rfl
  | cons s words ih =>
    rw [List.forall_mem_cons] at hwords ht
    rw [deletions_cons, (hdel s hwords.1).absent t ht.1, ih hwords.2 ht.2]

theorem deletions_exists_append (h : deletions del words t = x ++ y) :
    ∃ u v, t = u ++ v ∧ deletions del words u = x ∧ deletions del words v = y := by
  induction words generalizing t with
  | nil => exact ⟨x, y, h, rfl, rfl⟩
  | cons s words ih =>
    rw [List.forall_mem_cons] at hwords
    obtain ⟨x', y', h', rfl, rfl⟩ := ih hwords.2 h
    obtain ⟨u, v, rfl, rfl, rfl⟩ := (hdel s hwords.1).exists_append hwords.1 h'
    exact ⟨u, v, rfl, rfl, rfl⟩

theorem deletions_exists_cons (h : deletions del words t = c :: y) :
    ∃ u v, t = u ++ c :: v ∧ deletions del words u = [] ∧ deletions del words v = y := by
  induction words generalizing t with
  | nil => exact ⟨[], y, h, rfl, rfl⟩
  | cons s words ih =>
    rw [List.forall_mem_cons] at hwords
    have hs := hwords.1
    obtain ⟨x', y', h', hx', rfl⟩ := ih hwords.2 h
    obtain ⟨u, z, rfl, rfl, hz⟩ := (hdel s hs).exists_append hs h'
    obtain ⟨w, v, rfl, hw, rfl⟩ := (hdel s hs).exists_cons hs hz
    refine ⟨u ++ w, v, by rw [List.append_assoc], ?_, rfl⟩
    rw [deletions_cons, (hdel s hs).append_of_head hs ((hdel s hs).head?_of_map hs (.inl hw)), hw, List.append_nil]
    exact hx'

/-- What is deleted at the beginning of a text begins with a bracket. -/
theorem head?_of_deletions (h : deletions del words t = [] ∨ (deletions del words t).head? = some a) :
    t = [] ∨ t.head? = some a := by
  induction words generalizing t with
  | nil => exact h
  | cons s words ih =>
    rw [List.forall_mem_cons] at hwords
    exact (hdel s hwords.1).head?_of_map hwords.1 (ih hwords.2 h)

/-- And what is deleted at its end ends with one. -/
theorem getLast?_of_deletions (h : deletions del words t = [] ∨ (deletions del words t).getLast? = some b) :
    t = [] ∨ t.getLast? = some b := by
  induction words generalizing t with
  | nil => exact h
  | cons s words ih =>
    rw [List.forall_mem_cons] at hwords
    exact (hdel s hwords.1).getLast?_of_map hwords.1 (ih hwords.2 h)

/-- What is deleted throughout is deleted in front of any text. -/
theorem deletions_append_of_nil (hx : deletions del words x = []) (t : List α) :
    deletions del words (x ++ t) = deletions del words t := by
  induction words generalizing x t with
  | nil =>
    rw [deletions, List.foldl_nil] at hx
    rw [hx, List.nil_append]
  | cons s words ih =>
    have hend := getLast?_of_deletions hdel hwords (.inl hx)
    rw [List.forall_mem_cons] at hwords
    rw [deletions_cons, (hdel s hwords.1).append_of_last hwords.1 hend, ih hwords.2 hx, ← deletions_cons]

/-- And behind any text. -/
theorem deletions_append_nil (hx : deletions del words x = []) (t : List α) :
    deletions del words (t ++ x) = deletions del words t := by
  induction words generalizing x t with
  | nil =>
    rw [deletions, List.foldl_nil] at hx
    rw [hx, List.append_nil]
  | cons s words ih =>
    have hend := head?_of_deletions hdel hwords (.inl hx)
    rw [List.forall_mem_cons] at hwords
    rw [deletions_cons, (hdel s hwords.1).append_of_head hwords.1 hend, ih hwords.2 hx, ← deletions_cons]

/-- A letter that stands in none of the words stays, and parts the text. -/
theorem deletions_append_cons (hc : ∀ s ∈ words, c ∉ s) (x y : List α) :
    deletions del words (x ++ c :: y) = deletions del words x ++ c :: deletions del words y := by
  induction words generalizing x y with
  | nil => rfl
  | cons s words ih =>
    rw [List.forall_mem_cons] at hwords hc
    have hs := hwords.1
    have hleft : ¬ Splits s x (c :: y) := by
      rintro ⟨s₁, s₂, -, h₂, rfl, -, hs₂⟩
      exact hc.1 (List.mem_append_right _ (List.mem_of_head? (head?_of_isPrefix hs₂ h₂)))
    have hright : ¬ Splits s [c] y := hs.not_splits_singleton fun h => hc.1 (h ▸ List.mem_of_head? hs.head)
    have hkept : del s (c :: y) = c :: del s y := by
      rw [← List.singleton_append, (hdel s hs).append hs hright, (hdel s hs).map_singleton hs]
      rfl
    rw [deletions_cons, (hdel s hs).append hs hleft, hkept, ih hwords.2 hc.2, ← deletions_cons, ← deletions_cons]

/-! ## The beginning and the end of a word -/

/-- The beginning of a word that has not ended stays. -/
theorem deletions_append_open (hx : x.head? = some a) (hb : b ∉ x) (t : List α) :
    deletions del words (t ++ x) = deletions del words t ++ x := by
  induction words generalizing t with
  | nil => rfl
  | cons s words ih =>
    rw [List.forall_mem_cons] at hwords
    have hs := hwords.1
    have hkept : del s x = x := (hdel s hs).absent x fun h => hb (h.subset (List.mem_of_getLast? hs.last))
    rw [deletions_cons, (hdel s hs).append_of_head hs (.inr hx), hkept, ih hwords.2, ← deletions_cons]

/-- And so does the end of a word that has not begun. -/
theorem deletions_close_append (hx : x.getLast? = some b) (ha : a ∉ x) (t : List α) :
    deletions del words (x ++ t) = x ++ deletions del words t := by
  induction words generalizing t with
  | nil => rfl
  | cons s words ih =>
    rw [List.forall_mem_cons] at hwords
    have hs := hwords.1
    have hkept : del s x = x := (hdel s hs).absent x fun h => ha (h.subset (List.mem_of_head? hs.head))
    rw [deletions_cons, (hdel s hs).append_of_last hs (.inr hx), hkept, ih hwords.2, ← deletions_cons]

/-! ## What is left of two texts -/

variable [DecidableEq α]

/-- Either the passes go on separately on the two sides of a joint, or one
takes out a word across it, and less is left. -/
theorem deletions_append_cases (x y : List α) :
    (deletions del words (x ++ y) = deletions del words x ++ deletions del words y ∧ ¬ SplitsOne del words x y) ∨
      ((deletions del words (x ++ y)).count a < (deletions del words x).count a + (deletions del words y).count a ∧
        SplitsOne del words x y) := by
  induction words generalizing x y with
  | nil => exact .inl ⟨rfl, fun ⟨n, s, hs, _⟩ => (by simp at hs)⟩
  | cons s words ih =>
    have hall := hwords
    rw [List.forall_mem_cons] at hwords
    have hs := hwords.1
    rw [splitsOne_cons]
    by_cases h : Splits s x y
    · refine .inr ⟨?_, .inl h⟩
      obtain ⟨s₁, s₂, p, q, heq, rfl, rfl, ⟨hhead, hb⟩, hlast, ha⟩ := hs.exists_parts h
      have hle : (deletions del words (del s p ++ del s q)).count a ≤
          (deletions del (s :: words) p).count a + (deletions del (s :: words) q).count a := by
        obtain ⟨heq, -⟩ | ⟨hlt, -⟩ := ih hwords.2 (del s p) (del s q)
        · rw [heq, List.count_append]
          exact Nat.le_refl _
        · exact hlt.le
      have hopen : 0 < s₁.count a := List.count_pos_iff.mpr (List.mem_of_head? hhead)
      rw [deletions_append_open hdel hall hhead hb, deletions_close_append hdel hall hlast ha, deletions_cons,
        (hdel s hs).across heq, List.count_append, List.count_append]
      omega
    · rw [deletions_cons, (hdel s hs).append hs h]
      obtain ⟨heq, hnot⟩ | ⟨hlt, hsplits⟩ := ih hwords.2 (del s x) (del s y)
      · exact .inl ⟨heq, not_or.mpr ⟨h, hnot⟩⟩
      · exact .inr ⟨hlt, .inr hsplits⟩

/-- No more is left of two texts together. -/
theorem count_deletions_append_le (x y : List α) : (deletions del words (x ++ y)).count a ≤
    (deletions del words x).count a + (deletions del words y).count a := by
  obtain ⟨heq, -⟩ | ⟨hlt, -⟩ := deletions_append_cases hdel hwords x y
  · rw [heq, List.count_append]
  · exact hlt.le

/-- And no less than of the second alone. -/
theorem count_deletions_le_append (x y : List α) :
    (deletions del words y).count a ≤ (deletions del words (x ++ y)).count a := by
  induction words generalizing x y with
  | nil =>
    rw [deletions, List.foldl_nil, deletions, List.foldl_nil, List.count_append]
    exact Nat.le_add_left _ _
  | cons s words ih =>
    have hall := hwords
    rw [List.forall_mem_cons] at hwords
    have hs := hwords.1
    by_cases h : Splits s x y
    · obtain ⟨s₁, s₂, p, q, heq, rfl, rfl, -, hlast, ha⟩ := hs.exists_parts h
      rw [deletions_close_append hdel hall hlast ha, List.count_append, List.count_eq_zero_of_not_mem ha, Nat.zero_add,
        deletions_cons, deletions_cons, (hdel s hs).across heq]
      exact ih hwords.2 _ _
    · rw [deletions_cons, deletions_cons, (hdel s hs).append hs h]
      exact ih hwords.2 _ _

end Deletions

end SynapsNotes.Framework
