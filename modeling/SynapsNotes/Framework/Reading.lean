import SynapsNotes.Framework.Trim

/-!
# What is read between separators

A `Reading` takes from a list what stands between its separators, from one
end to the other: nothing is read of a separator, and nothing across one. So
it does not matter how many separators there are between two parts
(`Reading.append_sep_append`), or at the ends (`Reading.trim`), and a list
that is cut at separators is read piece by piece.

Two readings are the elements that are no separators (`reading_filter`) and
the maximal runs of elements of a kind (`reading_runs`, `mem_runs_iff`).
-/

namespace SynapsNotes.Framework

variable {β γ : Type*} {sep p : β → Bool} {f : List β → List γ} {x y s l w : List β} {c : β}

structure Reading (sep : β → Bool) (f : List β → List γ) : Prop where
  nil : f [] = []
  append_cons : ∀ x c y, sep c = true → f (x ++ c :: y) = f x ++ f y

namespace Reading

variable (hf : Reading sep f)

include hf

theorem cons (hc : sep c = true) (y : List β) : f (c :: y) = f y := by
  have h := hf.append_cons [] c y hc
  rwa [List.nil_append, hf.nil, List.nil_append] at h

/-- Separators in front are not read. -/
theorem sep_append (hs : ∀ c ∈ s, sep c = true) (y : List β) : f (s ++ y) = f y := by
  induction s with
  | nil => rfl
  | cons c s ih =>
    rw [List.cons_append, hf.cons (hs c List.mem_cons_self)]
    exact ih fun d hd => hs d (List.mem_cons_of_mem c hd)

theorem of_sep (hs : ∀ c ∈ s, sep c = true) : f s = [] := by
  rw [← List.append_nil s, hf.sep_append hs, hf.nil]

/-- Nor are separators behind. -/
theorem append_sep (x : List β) (hs : ∀ c ∈ s, sep c = true) : f (x ++ s) = f x := by
  cases s with
  | nil => rw [List.append_nil]
  | cons c s =>
    rw [hf.append_cons x c s (hs c List.mem_cons_self), hf.of_sep fun d hd => hs d (List.mem_cons_of_mem c hd),
      List.append_nil]

/-- What two parts with separators between them say, they say one after the
other. -/
theorem append_sep_append (x : List β) (hs : ∀ c ∈ s, sep c = true) (h0 : s ≠ []) (y : List β) :
    f (x ++ s ++ y) = f x ++ f y := by
  cases s with
  | nil => exact absurd rfl h0
  | cons c s =>
    rw [List.append_assoc, List.cons_append, hf.append_cons x c (s ++ y) (hs c List.mem_cons_self),
      hf.sep_append fun d hd => hs d (List.mem_cons_of_mem c hd)]

theorem trim (l : List β) : f (trim sep l) = f l := by
  have hl : l.takeWhile sep ++ (Framework.trim sep l ++ (l.dropWhile sep).rtakeWhile sep) = l := by
    rw [Framework.trim, List.rdropWhile_append_rtakeWhile, List.takeWhile_append_dropWhile]
  have hfront : ∀ c ∈ l.takeWhile sep, sep c = true := fun c hc => List.mem_takeWhile_imp hc
  have hback : ∀ c ∈ (l.dropWhile sep).rtakeWhile sep, sep c = true := fun c hc => List.mem_rtakeWhile_imp hc
  conv_rhs => rw [← hl, hf.sep_append hfront, hf.append_sep _ hback]

end Reading

/-- The elements that are no separators. -/
theorem reading_filter (h : ∀ c, sep c = true → p c = false) : Reading sep (List.filter p) where
  nil := rfl
  append_cons x c y hc := by
    rw [List.filter_append, List.filter_cons_of_neg (by rw [h c hc]; exact Bool.false_ne_true)]

/-! ## Runs -/

/-- The maximal runs of elements that satisfy `p`. -/
def runs (p : β → Bool) (l : List β) : List (List β) := (l.splitOnP fun c => !p c).filter fun w => !w.isEmpty

/-- `w` stands in `l`, satisfies `p` throughout and cannot be extended. -/
structure IsRun (p : β → Bool) (w l : List β) : Prop where
  ne_nil : w ≠ []
  all : ∀ c ∈ w, p c = true
  maximal : ∃ a b, l = a ++ w ++ b ∧ (∀ c ∈ a.getLast?, p c = false) ∧ ∀ c ∈ b.head?, p c = false

theorem runs_append_cons (hc : p c = false) (x y : List β) : runs p (x ++ c :: y) = runs p x ++ runs p y := by
  rw [runs, List.splitOnP_append_cons x y (by rw [hc]; rfl), List.filter_append]
  rfl

theorem reading_runs (h : ∀ c, sep c = true → p c = false) : Reading sep (runs p) where
  nil := rfl
  append_cons x c y hc := runs_append_cons (h c hc) x y

theorem reading_runs_not (p : β → Bool) : Reading (fun c => !p c) (runs p) :=
  reading_runs fun c h => by rwa [Bool.not_eq_true'] at h

/-- No run reaches across a place that is not inside one. -/
theorem runs_append (h : ∀ c ∈ x.getLast?, ∀ d ∈ y.head?, (p c && p d) = false) :
    runs p (x ++ y) = runs p x ++ runs p y := by
  cases y with
  | nil => simp [runs]
  | cons d y =>
    cases hd : p d with
    | false => rw [runs_append_cons hd, (reading_runs_not p).cons (by rw [hd]; rfl)]
    | true =>
      obtain rfl | ⟨x, c, rfl⟩ := x.eq_nil_or_concat
      · rfl
      · have hc : p c = false := by
          have hcd := h c (by simp) d rfl
          rwa [hd, Bool.and_true] at hcd
        rw [List.concat_eq_append, List.append_assoc, List.singleton_append, runs_append_cons hc,
          (reading_runs_not p).append_sep x (by simp [hc])]

theorem runs_of_all (h : ∀ c ∈ x, p c = true) (h0 : x ≠ []) : runs p x = [x] := by
  rw [runs, List.splitOnP_eq_singleton fun c hc => by rw [h c hc]; rfl]
  simp [h0]

theorem isRun_of_all (h : ∀ c ∈ x, p c = true) : IsRun p w x ↔ w = x ∧ x ≠ [] := by
  constructor
  · rintro ⟨h0, -, a, b, rfl, ha, hb⟩
    have ha : a = [] := by
      by_contra hne
      have hlast := ha _ (List.getLast?_eq_some_getLast hne)
      rw [h _ (List.mem_append_left b (List.mem_append_left w (List.getLast_mem hne)))] at hlast
      cases hlast
    have hb : b = [] := by
      by_contra hne
      have hhead := hb _ (List.head?_eq_some_head hne)
      rw [h _ (List.mem_append_right (a ++ w) (List.head_mem hne))] at hhead
      cases hhead
    subst ha hb
    simpa using h0
  · rintro ⟨rfl, h0⟩
    exact ⟨h0, h, [], [], by simp, by simp, by simp⟩

/-- The end of a list behind an element that does not satisfy `p`. -/
theorem forall_getLast?_append_cons (hc : p c = false) (x a : List β) :
    (∀ g ∈ (x ++ c :: a).getLast?, p g = false) ↔ ∀ g ∈ a.getLast?, p g = false := by
  rw [List.getLast?_append_of_ne_nil _ (List.cons_ne_nil _ _), List.getLast?_cons]
  cases a.getLast? with
  | none => simpa using hc
  | some g => rfl

/-- No run reaches across an element that does not satisfy `p`. -/
theorem isRun_append_cons (hc : p c = false) : IsRun p w (x ++ c :: y) ↔ IsRun p w x ∨ IsRun p w y := by
  constructor
  · rintro ⟨h0, hall, a, b, he, ha, hb⟩
    have hmem : c ∉ w := fun hcw => by
      rw [hall c hcw] at hc
      cases hc
    obtain ⟨d, hd, hd'⟩ | ⟨d, rfl, rfl⟩ := List.append_eq_append_iff.mp he
    · cases d with
      | nil =>
        rw [List.append_nil] at hd
        exact Or.inl ⟨h0, hall, a, [], by rw [hd, List.append_nil], ha, by simp⟩
      | cons c' d =>
        obtain ⟨rfl, rfl⟩ := List.cons.inj hd'
        obtain ⟨e, -, rfl⟩ | ⟨e, rfl, he'⟩ := List.append_eq_append_iff.mp hd
        · exact absurd (List.mem_append_right e List.mem_cons_self) hmem
        · cases e with
          | nil =>
            rw [List.nil_append] at he'
            exact absurd (he' ▸ List.mem_cons_self) hmem
          | cons c' e =>
            obtain ⟨rfl, rfl⟩ := List.cons.inj he'
            exact Or.inr ⟨h0, hall, e, b, rfl, (forall_getLast?_append_cons hc x e).mp ha, hb⟩
    · refine Or.inl ⟨h0, hall, a, d, rfl, ha, fun g hg => hb g ?_⟩
      rw [List.head?_append, hg]
      rfl
  · rintro (⟨h0, hall, a, b, rfl, ha, hb⟩ | ⟨h0, hall, a, b, rfl, ha, hb⟩)
    · refine ⟨h0, hall, a, b ++ c :: y, by simp, ha, fun g hg => ?_⟩
      cases b with
      | nil => cases hg; exact hc
      | cons g' b => exact hb g hg
    · exact ⟨h0, hall, x ++ c :: a, b, by simp, (forall_getLast?_append_cons hc x a).mpr ha, hb⟩

/-- A list begins with its first run, where it begins with one. -/
theorem takeWhile_mem_runs (h : l.takeWhile p ≠ []) : l.takeWhile p ∈ runs p l := by
  have hall : ∀ c ∈ l.takeWhile p, p c = true := fun c hc => List.mem_takeWhile_imp hc
  have hcut : runs p l = runs p (l.takeWhile p) ++ runs p (l.dropWhile p) := by
    conv_lhs => rw [← List.takeWhile_append_dropWhile (p := p) (l := l)]
    exact runs_append fun c _ d hd => by rw [head?_dropWhile l d hd, Bool.and_false]
  rw [hcut, runs_of_all hall h]
  exact List.mem_append_left _ (List.mem_singleton.mpr rfl)

/-- The runs of a list are its maximal runs. -/
theorem mem_runs_iff : w ∈ runs p l ↔ IsRun p w l := by
  induction hn : l.length using Nat.strong_induction_on generalizing l with
  | _ n ih =>
    have hall : ∀ c ∈ l.takeWhile p, p c = true := fun c hc => List.mem_takeWhile_imp hc
    have hfirst : w ∈ runs p (l.takeWhile p) ↔ IsRun p w (l.takeWhile p) := by
      rw [isRun_of_all hall]
      by_cases h0 : l.takeWhile p = []
      · rw [h0]
        simp [runs]
      · rw [runs_of_all hall h0, List.mem_singleton, and_iff_left h0]
    have hl := List.takeWhile_append_dropWhile (p := p) (l := l)
    generalize l.takeWhile p = x at *
    cases hrest : l.dropWhile p with
    | nil =>
      rw [hrest, List.append_nil] at hl
      rwa [← hl]
    | cons c y =>
      have hc : p c = false := head?_dropWhile l c (by rw [hrest]; rfl)
      rw [hrest] at hl
      have hlen : y.length < n := by
        rw [← hn, ← hl, List.length_append, List.length_cons]
        omega
      rw [← hl, runs_append_cons hc, List.mem_append, isRun_append_cons hc, ih _ hlen rfl, hfirst]

end SynapsNotes.Framework
