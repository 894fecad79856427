import Mathlib.Data.List.DropRight

/-!
# Trimming a list at both ends

`trim p` drops the elements that satisfy `p` at the two ends. A list is
`Trimmed` if there is nothing to drop. What follows a trimmed list is trimmed
at its end only (`trim_append`), and the rest of a trimmed list at its
beginning only (`trim_drop`).
-/

namespace SynapsNotes.Framework

variable {β : Type*} {p : β → Bool} {l x : List β}

def trim (p : β → Bool) (l : List β) : List β := (l.dropWhile p).rdropWhile p

/-- There is nothing to trim. -/
def Trimmed (p : β → Bool) (l : List β) : Prop :=
  (∀ a ∈ l.head?, p a = false) ∧ ∀ a ∈ l.getLast?, p a = false

theorem trimmed_of_ends {a b : β} (ha : l.head? = some a) (hb : l.getLast? = some b) (hpa : p a = false)
    (hpb : p b = false) : Trimmed p l := by
  rw [Trimmed, ha, hb]
  exact ⟨fun _ h => Option.some.inj h ▸ hpa, fun _ h => Option.some.inj h ▸ hpb⟩

/-- What stands between two trimmed lists is not at an end. -/
theorem Trimmed.append_append {y : List β} (hx : Trimmed p x) (hx0 : x ≠ []) (l : List β) (hy : Trimmed p y)
    (hy0 : y ≠ []) : Trimmed p (x ++ l ++ y) := by
  constructor
  · rw [List.append_assoc, List.head?_append_of_ne_nil _ hx0]
    exact hx.1
  · rw [List.getLast?_append_of_ne_nil _ hy0]
    exact hy.2

theorem rdropWhile_eq_self_of_last (h : ∀ a ∈ l.getLast?, p a = false) : l.rdropWhile p = l := by
  rw [List.rdropWhile_eq_self_iff]
  intro hl hp
  rw [h _ (List.getLast?_eq_some_getLast hl)] at hp
  exact nomatch hp

theorem dropWhile_eq_self_of_head (h : ∀ a ∈ l.head?, p a = false) : l.dropWhile p = l := by
  cases l with
  | nil => rfl
  | cons a l => exact List.dropWhile_cons_of_neg (by rw [h a rfl]; exact Bool.false_ne_true)

theorem getLast?_rdropWhile (l : List β) : ∀ a ∈ (l.rdropWhile p).getLast?, p a = false := by
  intro a ha
  have hne : l.rdropWhile p ≠ [] := by
    rintro h
    rw [h] at ha
    exact nomatch ha
  have := List.rdropWhile_last_not p l hne
  rw [List.getLast?_eq_some_getLast hne] at ha
  cases ha
  simpa using this

/-- Dropping at the end keeps the first element, if anything. -/
theorem head?_of_isPrefix {y : List β} (h : x <+: y) (hx : x ≠ []) : x.head? = y.head? := by
  obtain ⟨t, rfl⟩ := h
  cases x with
  | nil => exact absurd rfl hx
  | cons a x => rfl

theorem head?_dropWhile (l : List β) : ∀ a ∈ (l.dropWhile p).head?, p a = false := by
  intro a ha
  have := List.head?_dropWhile_not p l
  rwa [show (l.dropWhile p).head? = some a from ha] at this

theorem trimmed_trim (p : β → Bool) (l : List β) : Trimmed p (trim p l) := by
  refine ⟨fun a ha => ?_, getLast?_rdropWhile _⟩
  have hne : trim p l ≠ [] := by
    rintro h
    rw [h] at ha
    exact nomatch ha
  rw [trim, head?_of_isPrefix (List.rdropWhile_prefix p _) hne] at ha
  exact head?_dropWhile l a ha

theorem length_trim_le (p : β → Bool) (l : List β) : (trim p l).length ≤ l.length :=
  (List.rdropWhile_prefix p _).length_le.trans (List.dropWhile_suffix p).length_le

theorem Trimmed.trim_eq (h : Trimmed p l) : trim p l = l := by
  rw [trim, dropWhile_eq_self_of_head h.1, rdropWhile_eq_self_of_last h.2]

theorem rdropWhile_append (l x : List β) : (l ++ x).rdropWhile p =
    if x.rdropWhile p = [] then l.rdropWhile p else l ++ x.rdropWhile p := by
  simp only [List.rdropWhile, List.reverse_append, List.dropWhile_append, List.isEmpty_iff,
    List.reverse_eq_nil_iff]
  split
  · rfl
  · rw [List.reverse_append, List.reverse_reverse]

/-- What is behind a trimmed list is trimmed at its end. -/
theorem trim_append (h : Trimmed p l) (hl : l ≠ []) (x : List β) : trim p (l ++ x) = l ++ x.rdropWhile p := by
  have hhead : ∀ a ∈ (l ++ x).head?, p a = false := by
    cases l with
    | nil => exact absurd rfl hl
    | cons b l => exact h.1
  rw [trim, dropWhile_eq_self_of_head hhead, rdropWhile_append]
  split
  · rename_i hx
    rw [hx, List.append_nil, rdropWhile_eq_self_of_last h.2]
  · rfl

/-- Nothing is dropped of a trimmed list in the middle, nor past it. -/
theorem trim_append_append (h : Trimmed p l) (hl : l ≠ []) (x y : List β) :
    trim p (x ++ (l ++ y)) = x.dropWhile p ++ (l ++ y.rdropWhile p) := by
  have hdrop : (x ++ (l ++ y)).dropWhile p = x.dropWhile p ++ (l ++ y) := by
    have hhead : ∀ a ∈ (l ++ y).head?, p a = false := by
      cases l with
      | nil => exact absurd rfl hl
      | cons b l => exact h.1
    rw [List.dropWhile_append]
    split
    · rename_i hx
      rw [List.isEmpty_iff.mp hx, dropWhile_eq_self_of_head hhead, List.nil_append]
    · rfl
  have hmid : (l ++ y).rdropWhile p = l ++ y.rdropWhile p := by
    rw [rdropWhile_append]
    split
    · rename_i hy
      rw [hy, List.append_nil, rdropWhile_eq_self_of_last h.2]
    · rfl
  rw [trim, hdrop, rdropWhile_append, hmid, if_neg (by simp [hl])]

/-- A trimmed list stands in what is left exactly if it stands in the list. -/
theorem infix_trim_iff (h : Trimmed p l) (hl : l ≠ []) : l <:+: trim p x ↔ l <:+: x := by
  constructor
  · intro hi
    exact hi.trans ((List.rdropWhile_prefix p _).isInfix.trans (List.dropWhile_suffix p).isInfix)
  · rintro ⟨u, v, rfl⟩
    rw [List.append_assoc, trim_append_append h hl]
    exact List.infix_append' ..

/-- What satisfies `p` throughout is dropped at the end. -/
theorem trim_append_of_all (l : List β) {s : List β} (hs : ∀ a ∈ s, p a = true) : trim p (l ++ s) = trim p l := by
  rw [trim, trim, List.dropWhile_append]
  split
  case isTrue h =>
    rw [List.isEmpty_iff.mp h, List.dropWhile_eq_nil_iff.mpr hs]
  case isFalse => rw [rdropWhile_append, if_pos (List.rdropWhile_eq_nil_iff.mpr hs)]

/-- What does not satisfy `p` stays. -/
theorem count_trim [DecidableEq β] {a : β} (ha : p a = false) (l : List β) : (trim p l).count a = l.count a := by
  have hnot : ∀ x : List β, (∀ b ∈ x, p b = true) → x.count a = 0 := fun x hx =>
    List.count_eq_zero_of_not_mem fun h => by simp [hx a h] at ha
  have hfront := congrArg (List.count a) (List.takeWhile_append_dropWhile (p := p) (l := l))
  have hback := congrArg (List.count a) (List.rdropWhile_append_rtakeWhile (p := p) (l := l.dropWhile p))
  rw [List.count_append, hnot _ fun b => List.mem_takeWhile_imp, Nat.zero_add] at hfront
  rw [List.count_append, hnot _ fun b => List.mem_rtakeWhile_imp, Nat.add_zero] at hback
  exact hback.trans hfront

theorem dropWhile_append_of_mem (hx : ∃ a ∈ x, p a = false) (l : List β) :
    (x ++ l).dropWhile p = x.dropWhile p ++ l := by
  rw [List.dropWhile_append, if_neg]
  rw [List.isEmpty_iff, List.dropWhile_eq_nil_iff]
  obtain ⟨a, ha, hpa⟩ := hx
  exact fun hall => absurd (hall a ha) (by simp [hpa])

theorem rdropWhile_append_of_mem (hx : ∃ a ∈ x, p a = false) (l : List β) :
    (l ++ x).rdropWhile p = l ++ x.rdropWhile p := by
  rw [rdropWhile_append, if_neg]
  rw [List.rdropWhile_eq_nil_iff]
  obtain ⟨a, ha, hpa⟩ := hx
  exact fun hall => absurd (hall a ha) (by simp [hpa])

theorem exists_mem_dropWhile (hx : ∃ a ∈ x, p a = false) : ∃ a ∈ x.dropWhile p, p a = false := by
  obtain ⟨a, ha, hpa⟩ := hx
  rw [← List.takeWhile_append_dropWhile (p := p) (l := x), List.mem_append] at ha
  refine ⟨a, ha.resolve_left fun h => ?_, hpa⟩
  rw [List.mem_takeWhile_imp h] at hpa
  cases hpa

theorem rtakeWhile_dropWhile_eq_nil_iff (hx : ∃ a ∈ x, p a = false) :
    (x.dropWhile p).rtakeWhile p = [] ↔ ∀ a ∈ x.getLast?, p a = false := by
  obtain ⟨b, hb, -⟩ := exists_mem_dropWhile hx
  have hne : x.dropWhile p ≠ [] := List.ne_nil_of_mem hb
  have hlast : (x.dropWhile p).getLast? = x.getLast? := by
    obtain ⟨t, ht⟩ := List.dropWhile_suffix (l := x) p
    rw [← ht, List.getLast?_append_of_ne_nil _ hne, ht]
  rw [List.rtakeWhile_eq_nil_iff, ← hlast, List.getLast?_eq_some_getLast hne]
  simp [hne]

/-- As much is left of two lists as of each exactly if nothing is dropped where
they meet, or the second is dropped altogether. -/
theorem trim_append_eq_iff {y : List β} (hx : ∃ a ∈ x, p a = false) : trim p (x ++ y) = trim p x ++ trim p y ↔
    (∀ a ∈ y, p a = true) ∨ (∀ a ∈ x.getLast?, p a = false) ∧ ∀ a ∈ y.head?, p a = false := by
  by_cases hy : ∀ a ∈ y, p a = true
  · have hnil : trim p y = [] := by
      rw [trim, List.dropWhile_eq_nil_iff.mpr hy]
      rfl
    rw [trim_append_of_all x hy, hnil, List.append_nil]
    exact iff_of_true rfl (.inl hy)
  · have hy' : ∃ a ∈ y, p a = false := by
      push Not at hy
      obtain ⟨a, ha, hpa⟩ := hy
      exact ⟨a, ha, by simpa using hpa⟩
    have hfront : x.dropWhile p = trim p x ++ (x.dropWhile p).rtakeWhile p := List.rdropWhile_append_rtakeWhile.symm
    have hback : y.rdropWhile p = y.takeWhile p ++ trim p y := by
      conv_lhs => rw [← List.takeWhile_append_dropWhile (p := p) (l := y)]
      exact rdropWhile_append_of_mem (exists_mem_dropWhile hy') _
    have hhead : y.takeWhile p = [] ↔ ∀ a ∈ y.head?, p a = false := by
      cases y with
      | nil => simp
      | cons c y => simp [List.takeWhile_cons]
    have htrim := calc trim p (x ++ y)
      _ = x.dropWhile p ++ y.rdropWhile p := by
        rw [trim, dropWhile_append_of_mem hx, rdropWhile_append_of_mem hy']
      _ = trim p x ++ (x.dropWhile p).rtakeWhile p ++ y.rdropWhile p := congrArg (· ++ y.rdropWhile p) hfront
      _ = trim p x ++ ((x.dropWhile p).rtakeWhile p ++ y.takeWhile p ++ trim p y) := by
        rw [hback]
        simp only [List.append_assoc]
    rw [or_iff_right hy, htrim, List.append_cancel_left_eq, List.append_left_eq_self,
      List.append_eq_nil_iff, rtakeWhile_dropWhile_eq_nil_iff hx, hhead]

/-- More is left of a text with a trimmed text behind it. -/
theorem length_trim_lt (h : Trimmed p l) (hl : l ≠ []) (x y : List β) :
    (trim p x).length < (trim p (x ++ (l ++ y))).length := by
  have hle : (trim p x).length ≤ (x.dropWhile p).length := (List.rdropWhile_prefix p _).length_le
  have hpos : 0 < l.length := List.length_pos_iff.mpr hl
  rw [trim_append_append h hl]
  simp only [List.length_append]
  omega

/-- More is left of a text where something that is not dropped is added. -/
theorem length_trim_lt_append (l : List β) {y : List β} (hy : ∃ a ∈ y, p a = false) :
    (trim p l).length < (trim p (l ++ y)).length := by
  have hsplit := List.takeWhile_append_dropWhile (p := p) (l := y)
  have hfront : ∀ a ∈ y.takeWhile p, p a = true := fun a ha => List.mem_takeWhile_imp ha
  cases hrest : y.dropWhile p with
  | nil =>
    obtain ⟨a, ha, hpa⟩ := hy
    rw [List.dropWhile_eq_nil_iff.mp hrest a ha] at hpa
    cases hpa
  | cons a rest =>
    have ha : p a = false := head?_dropWhile y a (by rw [hrest]; rfl)
    have hlt := length_trim_lt (trimmed_of_ends rfl rfl ha ha) (List.cons_ne_nil a []) (l ++ y.takeWhile p) rest
    rwa [trim_append_of_all l hfront, List.append_assoc, List.singleton_append, ← hrest, hsplit] at hlt

theorem getLast?_drop_of_lt {k : Nat} (hk : k < l.length) : (l.drop k).getLast? = l.getLast? := by
  rw [List.getLast?_drop, if_neg (by omega)]

/-- The rest of a trimmed list is trimmed at its beginning, and something is
left of it. -/
theorem trim_drop (h : Trimmed p l) {k : Nat} (hk : k < l.length) :
    trim p (l.drop k) <:+ l.drop k ∧ trim p (l.drop k) ≠ [] := by
  have hlast : ∀ a ∈ (l.drop k).getLast?, p a = false := by
    rw [getLast?_drop_of_lt hk]
    exact h.2
  have hsuffix : (l.drop k).dropWhile p <:+ l.drop k := List.dropWhile_suffix p
  have hne : (l.drop k).dropWhile p ≠ [] := by
    rw [ne_eq, List.dropWhile_eq_nil_iff]
    intro hall
    have hdrop : l.drop k ≠ [] := by
      rw [ne_eq, List.drop_eq_nil_iff]
      omega
    have := hall _ (List.getLast_mem hdrop)
    rw [hlast _ (List.getLast?_eq_some_getLast hdrop)] at this
    exact nomatch this
  have heq : trim p (l.drop k) = (l.drop k).dropWhile p := by
    refine rdropWhile_eq_self_of_last fun a ha => hlast a ?_
    obtain ⟨t, ht⟩ := hsuffix
    rw [← ht, List.getLast?_append_of_ne_nil _ hne]
    exact ha
  rw [heq]
  exact ⟨hsuffix, hne⟩

end SynapsNotes.Framework
