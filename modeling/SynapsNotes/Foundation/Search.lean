import SynapsNotes.Foundation.Text
import SynapsNotes.Framework.Deletion
import SynapsNotes.Framework.Occurrence
import SynapsNotes.Framework.Reading

/-!
# Searching and replacing in a text

`splitFirst` finds the first occurrence of a text, if there is one
(`splitFirst_eq_none_iff`), and `replacingOccurrences` goes on behind it
(`replacingOccurrences_of_splitFirst`), as the components do behind a separator
(`components_of_splitFirst`). Of a marked text, replacing goes on separately on
the two sides of a text that no occurrence overlaps
(`replacingOccurrences_barrier`).
-/

namespace SynapsNotes.Text

open Framework

variable {target by_ t u before after : Text} {c d e : Char}

theorem splitFirst_eq_none_iff (h0 : target ≠ []) : splitFirst target t = none ↔ ¬ target <:+: t := by
  induction t with
  | nil => simp [splitFirst, h0]
  | cons c t ih =>
    rw [splitFirst, List.infix_cons_iff]
    split
    · rename_i h
      simp [List.isPrefixOf_iff_prefix.mp h]
    · rename_i h
      rw [List.isPrefixOf_iff_prefix] at h
      simp [h, ih]

theorem exists_splitFirst (h0 : target ≠ []) (h : target <:+: t) :
    ∃ before after, splitFirst target t = some (before, after) := by
  cases hsplit : splitFirst target t with
  | none => exact absurd h ((splitFirst_eq_none_iff h0).mp hsplit)
  | some p => exact ⟨p.1, p.2, rfl⟩

theorem eq_of_splitFirst (h : splitFirst target t = some (before, after)) :
    t = before ++ target ++ after := by
  induction t generalizing before with
  | nil =>
    rw [splitFirst] at h
    split at h
    · rename_i h0
      cases h
      rw [List.isEmpty_iff.mp h0]
      rfl
    · exact nomatch h
  | cons c t ih =>
    rw [splitFirst] at h
    split at h
    · rename_i hp
      cases h
      obtain ⟨w, hw⟩ := List.isPrefixOf_iff_prefix.mp hp
      rw [List.nil_append, ← hw, List.drop_left]
    · obtain ⟨⟨b, a⟩, hba, heq⟩ := Option.map_eq_some_iff.mp h
      cases heq
      rw [ih hba]
      rfl

/-- The induction on what is behind the first occurrence. -/
theorem splitFirst_induction {motive : Text → Prop} (h0 : target ≠ [])
    (hnone : ∀ t, splitFirst target t = none → motive t)
    (hsome : ∀ t before after, splitFirst target t = some (before, after) → motive after → motive t) (t : Text) :
    motive t := by
  induction hn : t.length using Nat.strong_induction_on generalizing t with
  | _ n ih =>
    cases h : splitFirst target t with
    | none => exact hnone t h
    | some p =>
      have hlen := congrArg List.length (eq_of_splitFirst h)
      have hpos := List.length_pos_of_ne_nil h0
      rw [List.length_append, List.length_append] at hlen
      exact hsome t p.1 p.2 h (ih _ (by omega) p.2 rfl)

/-- The induction on what is before the first occurrence. -/
theorem splitFirst_before_induction {motive : Text → Text → Text → Prop} (h0 : target ≠ [])
    (hhere : ∀ c t, target.isPrefixOf (c :: t) = true → motive (c :: t) [] ((c :: t).drop target.length))
    (hbehind : ∀ c t before after, ¬ target.isPrefixOf (c :: t) = true →
      splitFirst target t = some (before, after) → motive t before after → motive (c :: t) (c :: before) after)
    (h : splitFirst target t = some (before, after)) : motive t before after := by
  induction t generalizing before with
  | nil =>
    rw [splitFirst, if_neg (mt List.isEmpty_iff.mp h0)] at h
    cases h
  | cons c t ih =>
    rw [splitFirst] at h
    split at h
    · rename_i hp
      cases h
      exact hhere c t hp
    · rename_i hp
      obtain ⟨⟨b, a⟩, hba, heq⟩ := Option.map_eq_some_iff.mp h
      cases heq
      exact hbehind c t b a hp hba (ih hba)

theorem drop_length_pred (h0 : target ≠ []) (c : Char) (t : Text) :
    t.drop (target.length - 1) = (c :: t).drop target.length := by
  obtain ⟨n, hn⟩ := Nat.exists_eq_succ_of_ne_zero (mt List.length_eq_zero_iff.mp h0)
  rw [hn, Nat.succ_sub_one, List.drop_succ_cons]

/-! ## Replacing -/

/-- A letter that is not in the text replaced stays. -/
theorem mem_replacingAux (hd : d ∉ c :: target) {skip : Nat} (h : d ∈ t.drop skip) :
    d ∈ replacingAux (c :: target) by_ skip t := by
  induction t generalizing skip with
  | nil => simp at h
  | cons a t ih =>
    cases skip with
    | succ skip =>
      rw [replacingAux]
      exact ih h
    | zero =>
      rw [List.drop_zero] at h
      rw [replacingAux]
      split
      · rename_i hp
        obtain ⟨w, hw⟩ := List.isPrefixOf_iff_prefix.mp hp
        have hdrop : t.drop ((c :: target).length - 1) = w := by
          rw [← (List.cons.inj hw).2]
          exact List.drop_left
        refine List.mem_append_right _ (ih ?_)
        rw [hdrop]
        rw [← hw] at h
        exact (List.mem_append.mp h).resolve_left hd
      · rcases List.mem_cons.mp h with rfl | h
        · exact List.mem_cons_self
        · exact List.mem_cons_of_mem _ (ih h)

theorem replacingAux_skip (target by_ : Text) (skip : Nat) (t : Text) :
    replacingAux target by_ skip t = replacingAux target by_ 0 (t.drop skip) := by
  induction t generalizing skip with
  | nil => cases skip <;> rfl
  | cons c t ih =>
    cases skip with
    | zero => rfl
    | succ skip => rw [replacingAux, ih, List.drop_succ_cons]

/-- Replacing goes on behind the first occurrence. -/
theorem replacingOccurrences_of_splitFirst (h0 : target ≠ []) (h : splitFirst target t = some (before, after)) :
    replacingOccurrences target by_ t = before ++ by_ ++ replacingOccurrences target by_ after := by
  refine splitFirst_before_induction (motive := fun t before after =>
    replacingOccurrences target by_ t = before ++ by_ ++ replacingOccurrences target by_ after) h0 ?_ ?_ h
  · intro c t hp
    rw [replacingOccurrences, replacingAux, if_pos hp, replacingAux_skip, drop_length_pred h0 c t]
    rfl
  · intro c t before after hp _ ih
    rw [replacingOccurrences, replacingAux, if_neg hp]
    exact congrArg (c :: ·) ih

theorem replacingOccurrences_of_none (h : splitFirst target t = none) :
    replacingOccurrences target by_ t = t := by
  induction t with
  | nil => rfl
  | cons c t ih =>
    rw [splitFirst] at h
    rw [replacingOccurrences, replacingAux]
    split at h
    · cases h
    · rename_i hp
      rw [if_neg hp]
      exact congrArg (c :: ·) (ih (Option.map_eq_none_iff.mp h))

/-! ## Deleting -/

/-- The first occurrence of a marked text is the one before which there is
none. -/
theorem splitFirst_of_absent (hs : Marked c target) (h : ¬ target <:+: before) (after : Text) :
    splitFirst target (before ++ (target ++ after)) = some (before, after) := by
  obtain ⟨r, hr, -⟩ := id hs
  have hhead : (target ++ after).head? = some c := by rw [hr]; rfl
  induction before with
  | nil =>
    rw [List.nil_append]
    cases hne : target ++ after with
    | nil => simp [hne] at hhead
    | cons d t =>
      rw [splitFirst, ← hne, if_pos (List.isPrefixOf_iff_prefix.mpr (List.prefix_append _ _)), List.drop_left]
  | cons d before ih =>
    have hnot : ¬ target <+: d :: (before ++ (target ++ after)) := fun hp =>
      h ((hs.prefix_append_iff (List.cons_ne_nil d before) hhead).mp hp).isInfix
    rw [List.cons_append, splitFirst, if_neg (mt List.isPrefixOf_iff_prefix.mp hnot),
      ih fun hi => h (hi.trans (List.suffix_cons d before).isInfix)]
    rfl

/-- What is before the first occurrence does not hold the text. -/
theorem not_infix_of_splitFirst (h0 : target ≠ []) (h : splitFirst target t = some (before, after)) :
    ¬ target <:+: before := by
  refine splitFirst_before_induction (motive := fun _ before _ => ¬ target <:+: before) h0 ?_ ?_ h
  · intro c t _ hi
    exact h0 (List.infix_nil.mp hi)
  · intro c t before after hp hsplit ih hi
    have ht : c :: before <+: c :: t := (List.prefix_cons_inj c).mpr
      ((List.prefix_append before target).trans ⟨after, (eq_of_splitFirst hsplit).symm⟩)
    obtain hpre | hi := List.infix_cons_iff.mp hi
    · exact hp (List.isPrefixOf_iff_prefix.mpr (hpre.trans ht))
    · exact ih hi

/-- What follows does not move the first occurrence. -/
theorem splitFirst_append (hs : Marked c target) (h : splitFirst target t = some (before, after)) (u : Text) :
    splitFirst target (t ++ u) = some (before, after ++ u) := by
  have h0 : target ≠ [] := by
    obtain ⟨r, hr, -⟩ := hs
    simp [hr]
  rw [eq_of_splitFirst h, List.append_assoc, List.append_assoc]
  exact splitFirst_of_absent hs (not_infix_of_splitFirst h0 h) _

/-- Replacing a text in brackets by nothing deletes it. -/
theorem deletes_replacingOccurrences {a b : Char} (hs : Bracketed a b target) :
    Deletes target (replacingOccurrences target []) where
  absent t ht := replacingOccurrences_of_none ((splitFirst_eq_none_iff hs.ne_nil).mpr ht)
  present x y := by
    have hmarked : Marked a target := ⟨_, hs.eq_cons, hs.head_once⟩
    have hstep : ∀ {x z}, ¬ target <:+: x →
        replacingOccurrences target [] (x ++ (target ++ z)) = x ++ replacingOccurrences target [] z := fun h => by
      rw [replacingOccurrences_of_splitFirst hs.ne_nil (splitFirst_of_absent hmarked h _), List.append_nil]
    induction x using splitFirst_induction hs.ne_nil with
    | hnone x h =>
      rw [List.append_assoc, hstep ((splitFirst_eq_none_iff hs.ne_nil).mp h), replacingOccurrences_of_none h]
    | hsome x before after h ih =>
      have hx : x ++ target ++ y = before ++ (target ++ (after ++ target ++ y)) := by
        rw [eq_of_splitFirst h]
        simp only [List.append_assoc]
      rw [hx, hstep (not_infix_of_splitFirst hs.ne_nil h), ih, replacingOccurrences_of_splitFirst hs.ne_nil h,
        List.append_nil, List.append_assoc]

/-! ## Components -/

theorem componentsAux_skip (separator : Text) (skip : Nat) (t : Text) :
    componentsAux separator skip t = componentsAux separator 0 (t.drop skip) := by
  induction t generalizing skip with
  | nil => cases skip <;> rfl
  | cons c t ih =>
    cases skip with
    | zero => rfl
    | succ skip => rw [componentsAux, ih, List.drop_succ_cons]

/-- The first component ends where the separator first occurs. -/
theorem components_of_splitFirst (h0 : target ≠ []) (h : splitFirst target t = some (before, after)) :
    components target t = before :: components target after := by
  refine splitFirst_before_induction (motive := fun t before after =>
    components target t = before :: components target after) h0 ?_ ?_ h
  · intro c t hp
    rw [components, componentsAux, if_pos hp, componentsAux_skip, drop_length_pred h0 c t]
    rfl
  · intro c t before after hp _ ih
    rw [components, componentsAux, if_neg hp]
    exact congrArg (List.modifyHead (c :: ·)) ih

theorem components_of_none (h : splitFirst target t = none) : components target t = [t] := by
  induction t with
  | nil => rfl
  | cons c t ih =>
    rw [splitFirst] at h
    rw [components, componentsAux]
    split at h
    · cases h
    · rename_i hp
      rw [if_neg hp]
      exact congrArg (List.modifyHead (c :: ·)) (ih (Option.map_eq_none_iff.mp h))

/-! ## Reading between occurrences -/

section Reading

variable {γ : Type*} {f : Text → List γ} {sep : Char → Bool} (hf : Reading sep f) (h0 : target ≠ [])
  (ht : ∀ c ∈ target, sep c = true)

include hf h0 ht

/-- Separators replaced by others are not read either. -/
theorem reading_replacingOccurrences (hb0 : by_ ≠ []) (hb : ∀ c ∈ by_, sep c = true) (t : Text) :
    f (replacingOccurrences target by_ t) = f t := by
  induction t using splitFirst_induction h0 with
  | hnone t h => rw [replacingOccurrences_of_none h]
  | hsome t before after h ih =>
    rw [replacingOccurrences_of_splitFirst h0 h, hf.append_sep_append before hb hb0, ih, eq_of_splitFirst h,
      hf.append_sep_append before ht h0]

/-- Components between separators are read one after the other. -/
theorem reading_components (t : Text) : (components target t).flatMap f = f t := by
  induction t using splitFirst_induction h0 with
  | hnone t h => rw [components_of_none h, List.flatMap_singleton]
  | hsome t before after h ih =>
    rw [components_of_splitFirst h0 h, List.flatMap_cons, ih, eq_of_splitFirst h, hf.append_sep_append before ht h0]

end Reading

/-! ## Replacing on two sides -/

/-- Where its first letter does not stand, a text does not occur. -/
theorem replacingAux_of_not_mem (hc : c ∉ u) (w : Text) :
    replacingAux (c :: target) by_ 0 (u ++ w) = u ++ replacingAux (c :: target) by_ 0 w := by
  induction u with
  | nil => rfl
  | cons d u ih =>
    rw [List.mem_cons, not_or] at hc
    have hp : (c :: target).isPrefixOf (d :: (u ++ w)) = false := by
      simp [List.isPrefixOf, beq_eq_false_iff_ne.mpr hc.1]
    rw [List.cons_append, replacingAux, hp, if_neg Bool.false_ne_true, ih hc.2]
    rfl

/-- No occurrence of the marked text `c :: d :: target` begins in
`c :: e :: u`. -/
theorem replacingAux_behind_barrier (hde : d ≠ e) (hc : c ∉ e :: u) (y : Text) :
    replacingAux (c :: d :: target) by_ 0 (c :: e :: u ++ y) =
      c :: e :: u ++ replacingAux (c :: d :: target) by_ 0 y := by
  have hp : (c :: d :: target).isPrefixOf (c :: (e :: u ++ y)) = false := by
    simp [List.isPrefixOf, beq_eq_false_iff_ne.mpr hde]
  rw [List.cons_append, replacingAux, hp, if_neg Bool.false_ne_true, replacingAux_of_not_mem hc]
  rfl

/-- None that begins before it reaches into it either. -/
theorem replacingAux_barrier (hs : Marked c (c :: d :: target)) (hde : d ≠ e) (hc : c ∉ e :: u) (x y : Text)
    {skip : Nat} (hskip : skip ≤ x.length) :
    replacingAux (c :: d :: target) by_ skip (x ++ (c :: e :: u ++ y)) =
      replacingAux (c :: d :: target) by_ skip x ++ (c :: e :: u ++ replacingAux (c :: d :: target) by_ 0 y) := by
  induction x generalizing skip with
  | nil =>
    obtain rfl := Nat.le_zero.mp hskip
    exact replacingAux_behind_barrier hde hc y
  | cons a x ih =>
    cases skip with
    | succ skip =>
      rw [List.cons_append, replacingAux, replacingAux]
      exact ih (Nat.le_of_succ_le_succ hskip)
    | zero =>
      have hiff := hs.prefix_append_iff (List.cons_ne_nil a x) (y := c :: e :: u ++ y) rfl
      rw [List.cons_append] at hiff
      rw [List.cons_append, replacingAux, replacingAux]
      by_cases hp : (c :: d :: target) <+: a :: x
      · rw [if_pos (List.isPrefixOf_iff_prefix.mpr hp), if_pos (List.isPrefixOf_iff_prefix.mpr (hiff.mpr hp)),
          List.append_assoc]
        have hlen := hp.length_le
        simp only [List.length_cons] at hlen
        rw [ih (by simp only [List.length_cons]; omega)]
      · rw [if_neg (mt List.isPrefixOf_iff_prefix.mp hp),
          if_neg (mt (fun h => hiff.mp (List.isPrefixOf_iff_prefix.mp h)) hp), ih (Nat.zero_le _)]
        rfl

/-- `c :: e :: u` is a barrier to the marked text `c :: d :: target`: no
occurrence of that reaches into it or begins in it. -/
theorem replacingOccurrences_barrier (hs : Marked c (c :: d :: target)) (hde : d ≠ e)
    (hu : Marked c (c :: e :: u)) (x y : Text) :
    replacingOccurrences (c :: d :: target) by_ (x ++ (c :: e :: u ++ y)) =
      replacingOccurrences (c :: d :: target) by_ x ++
        (c :: e :: u ++ replacingOccurrences (c :: d :: target) by_ y) := by
  obtain ⟨r, hr, hc⟩ := hu
  cases hr
  exact replacingAux_barrier hs hde hc x y (Nat.zero_le _)

end SynapsNotes.Text
