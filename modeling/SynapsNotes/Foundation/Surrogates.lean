import SynapsNotes.Foundation.Utf16

/-!
# Surrogate pairs that are split

The units of a text become its characters again (`string_ofString`), and so do
those of a part of it that does not begin or end inside a surrogate pair. A
half of a pair becomes U+FFFD: another unit, but one for one
(`length_repaired`).
-/

namespace SynapsNotes.NSString

variable {t x y : NSString} {s : Text} {u v : UInt16} {c : Char}

theorem isHighSurrogate_iff : isHighSurrogate u = true ↔ 0xD800 ≤ u.toNat ∧ u.toNat < 0xDC00 := by
  simp [isHighSurrogate, UInt16.le_iff_toNat_le, UInt16.lt_iff_toNat_lt]

theorem isLowSurrogate_iff : isLowSurrogate u = true ↔ 0xDC00 ≤ u.toNat ∧ u.toNat < 0xE000 := by
  simp [isLowSurrogate, UInt16.le_iff_toNat_le, UInt16.lt_iff_toNat_lt]

theorem toNat_valid (c : Char) : c.toNat < 0xD800 ∨ 0xDFFF < c.toNat ∧ c.toNat < 0x110000 := c.valid

theorem toNat_ofNat {n : ℕ} (h : n.isValidChar) : (Char.ofNat n).toNat = n := by
  rw [Char.ofNat, dif_pos h]
  rfl

/-- The unit, or the two halves of the pair, of a character. -/
theorem utf16Units_cases (c : Char) :
    (∃ u, utf16Units c = [u] ∧ isHighSurrogate u = false ∧ isLowSurrogate u = false ∧ loneUnit u = c) ∨
      ∃ u v, utf16Units c = [u, v] ∧ isHighSurrogate u = true ∧ isLowSurrogate v = true ∧ surrogatePair u v = c := by
  have hvalid := toNat_valid c
  rw [utf16Units]
  split
  · rename_i hlt
    left
    have hnat : (UInt16.ofNat c.toNat).toNat = c.toNat := UInt16.toNat_ofNat_of_lt' hlt
    have hhigh : isHighSurrogate (UInt16.ofNat c.toNat) = false := by
      rw [Bool.eq_false_iff, ne_eq, isHighSurrogate_iff, hnat]
      omega
    have hlow : isLowSurrogate (UInt16.ofNat c.toNat) = false := by
      rw [Bool.eq_false_iff, ne_eq, isLowSurrogate_iff, hnat]
      omega
    refine ⟨_, rfl, hhigh, hlow, ?_⟩
    rw [loneUnit, hhigh, hlow, hnat]
    exact Char.ofNat_toNat c
  · rename_i hge
    right
    have hhigh : (UInt16.ofNat (0xD800 + (c.toNat - 0x10000) / 0x400)).toNat = 0xD800 + (c.toNat - 0x10000) / 0x400 :=
      UInt16.toNat_ofNat_of_lt' (show _ < 65536 by omega)
    have hlow : (UInt16.ofNat (0xDC00 + (c.toNat - 0x10000) % 0x400)).toNat = 0xDC00 + (c.toNat - 0x10000) % 0x400 :=
      UInt16.toNat_ofNat_of_lt' (show _ < 65536 by omega)
    refine ⟨_, _, rfl, ?_, ?_, ?_⟩
    · rw [isHighSurrogate_iff, hhigh]
      omega
    · rw [isLowSurrogate_iff, hlow]
      omega
    · rw [surrogatePair, hhigh, hlow, show 0x10000 + (0xD800 + (c.toNat - 0x10000) / 0x400 - 0xD800) * 0x400 +
        (0xDC00 + (c.toNat - 0x10000) % 0x400 - 0xDC00) = c.toNat by omega]
      exact Char.ofNat_toNat c

theorem utf16Units_surrogatePair (hu : isHighSurrogate u = true) (hv : isLowSurrogate v = true) :
    utf16Units (surrogatePair u v) = [u, v] := by
  rw [isHighSurrogate_iff] at hu
  rw [isLowSurrogate_iff] at hv
  have hnat : (surrogatePair u v).toNat = 0x10000 + (u.toNat - 0xD800) * 0x400 + (v.toNat - 0xDC00) := by
    rw [surrogatePair, toNat_ofNat]
    right
    omega
  rw [utf16Units, hnat, if_neg (by omega)]
  have hhigh : 0xD800 + (0x10000 + (u.toNat - 0xD800) * 0x400 + (v.toNat - 0xDC00) - 0x10000) / 0x400 = u.toNat := by
    omega
  have hlow : 0xDC00 + (0x10000 + (u.toNat - 0xD800) * 0x400 + (v.toNat - 0xDC00) - 0x10000) % 0x400 = v.toNat := by
    omega
  rw [hhigh, hlow, UInt16.ofNat_toNat, UInt16.ofNat_toNat]

/-- A unit on its own stays, or a half of a pair becomes U+FFFD. -/
theorem utf16Units_loneUnit (u : UInt16) :
    utf16Units (loneUnit u) = [if isHighSurrogate u || isLowSurrogate u then 0xFFFD else u] := by
  rw [loneUnit]
  split
  · rfl
  · rename_i h
    rw [Bool.or_eq_true, not_or, isHighSurrogate_iff, isLowSurrogate_iff] at h
    have hlt := u.toNat_lt
    have hnat : (Char.ofNat u.toNat).toNat = u.toNat := by
      apply toNat_ofNat
      show u.toNat < 0xD800 ∨ 0xDFFF < u.toNat ∧ u.toNat < 0x110000
      omega
    rw [utf16Units, hnat, if_pos (by omega), UInt16.ofNat_toNat]

/-! ## Units and characters -/

/-- The units of what a text reads as. -/
def repaired (t : NSString) : NSString := ofString t.string

theorem repaired_eq (t : NSString) : repaired t = t.characters.flatMap utf16Units := by
  rw [repaired, string, ofString, String.toList_ofList]

theorem repaired_nil : repaired [] = [] := rfl

theorem repaired_singleton (u : UInt16) :
    repaired [u] = [if isHighSurrogate u || isLowSurrogate u then 0xFFFD else u] := by
  rw [repaired_eq, characters, List.flatMap_singleton, utf16Units_loneUnit]

theorem repaired_pair (hu : isHighSurrogate u = true) (hv : isLowSurrogate v = true) (t : NSString) :
    repaired (u :: v :: t) = u :: v :: repaired t := by
  rw [repaired_eq, characters, hu, hv, Bool.and_self, if_pos rfl, List.flatMap_cons, utf16Units_surrogatePair hu hv,
    ← repaired_eq]
  rfl

theorem repaired_cons (h : (isHighSurrogate u && isLowSurrogate v) = false) (t : NSString) :
    repaired (u :: v :: t) = repaired [u] ++ repaired (v :: t) := by
  rw [repaired_eq, characters, h, if_neg Bool.false_ne_true, List.flatMap_cons, ← repaired_eq, repaired_eq [u]]
  rw [characters, List.flatMap_singleton]

/-- The induction on the pairs and the units on their own. -/
theorem units_induction {motive : NSString → Prop} (nil : motive []) (singleton : ∀ u, motive [u])
    (pair : ∀ u v t, isHighSurrogate u = true → isLowSurrogate v = true → motive t → motive (u :: v :: t))
    (cons : ∀ u v t, (isHighSurrogate u && isLowSurrogate v) = false → motive (v :: t) → motive (u :: v :: t))
    (t : NSString) : motive t := by
  induction t using characters.induct with
  | case1 => exact nil
  | case2 u => exact singleton u
  | case3 u v t h ih =>
    rw [Bool.and_eq_true] at h
    exact pair u v t h.1 h.2 ih
  | case4 u v t h ih => exact cons u v t (Bool.eq_false_iff.mpr h) ih

/-- A text reads as one with as many units. -/
theorem length_repaired (t : NSString) : (repaired t).length = t.length := by
  induction t using units_induction with
  | nil => rfl
  | singleton u =>
    rw [repaired_singleton]
    rfl
  | pair u v t hu hv ih =>
    rw [repaired_pair hu hv]
    simp [ih]
  | cons u v t h ih =>
    rw [repaired_cons h, List.length_append, ih, repaired_singleton]
    simp [Nat.add_comm]

/-- A pair is not split where a text begins with another unit than the second
half of one. -/
theorem repaired_append
    (h : ¬ ((∃ u ∈ x.getLast?, isHighSurrogate u = true) ∧ ∃ v ∈ y.head?, isLowSurrogate v = true)) :
    repaired (x ++ y) = repaired x ++ repaired y := by
  induction x using units_induction with
  | nil => rfl
  | singleton u =>
    cases y with
    | nil => rw [List.append_nil, repaired_nil, List.append_nil]
    | cons v y =>
      refine repaired_cons ?_ y
      rw [Bool.eq_false_iff, ne_eq, Bool.and_eq_true]
      exact fun hp => h ⟨⟨u, rfl, hp.1⟩, v, rfl, hp.2⟩
  | pair u v t hu hv ih =>
    rw [List.cons_append, List.cons_append, repaired_pair hu hv, repaired_pair hu hv]
    cases t with
    | nil => rfl
    | cons w t =>
      rw [ih (by simpa using h)]
      rfl
  | cons u v t huv ih =>
    rw [List.cons_append, List.cons_append, repaired_cons huv, repaired_cons huv, ← List.cons_append,
      ih (by simpa using h), List.append_assoc]

theorem repaired_utf16Units_append (c : Char) (t : NSString) :
    repaired (utf16Units c ++ t) = utf16Units c ++ repaired t := by
  obtain ⟨u, hu, hhigh, hlow, -⟩ | ⟨u, v, huv, hu, hv, -⟩ := utf16Units_cases c
  · rw [hu, repaired_append (by simp [hhigh]), repaired_singleton, hhigh, hlow]
    rfl
  · rw [huv]
    exact repaired_pair hu hv t

/-- The units of a text are its own. -/
theorem repaired_ofString (s : String) : repaired (ofString s) = ofString s := by
  rw [ofString]
  induction s.toList with
  | nil => rfl
  | cons c s ih => rw [List.flatMap_cons, repaired_utf16Units_append, ih]

/-! ## Places inside a pair -/

/-- Place `i` is between the two halves of a pair. -/
def SplitsPair (t : NSString) (i : ℕ) : Prop :=
  (∃ u ∈ (t.take i).getLast?, isHighSurrogate u = true) ∧ ∃ v ∈ (t.drop i).head?, isLowSurrogate v = true

instance (t : NSString) (i : ℕ) : Decidable (SplitsPair t i) := inferInstanceAs (Decidable (_ ∧ _))

theorem isHighSurrogate_of_low (h : isLowSurrogate u = true) : isHighSurrogate u = false := by
  rw [isLowSurrogate_iff] at h
  rw [Bool.eq_false_iff, ne_eq, isHighSurrogate_iff]
  omega

/-- No text begins with the second half of a pair. -/
theorem not_low_head?_ofString (s : String) : ∀ u ∈ (ofString s).head?, isLowSurrogate u = false := by
  rw [ofString]
  cases s.toList with
  | nil => exact fun u hu => (by cases hu)
  | cons c s =>
    obtain ⟨u, hu, -, hlow, -⟩ | ⟨u, v, huv, hu, -, -⟩ := utf16Units_cases c
    · rw [List.flatMap_cons, hu]
      exact fun w hw => Option.some.inj hw ▸ hlow
    · rw [List.flatMap_cons, huv]
      refine fun w hw => Option.some.inj hw ▸ Bool.eq_false_iff.mpr fun hlow => ?_
      rw [isHighSurrogate_of_low hlow] at hu
      cases hu

/-- And none ends with the first half of one. -/
theorem not_high_getLast?_ofString (s : String) : ∀ u ∈ (ofString s).getLast?, isHighSurrogate u = false := by
  rw [ofString]
  cases s.toList using List.reverseRecOn with
  | nil => exact fun u hu => (by cases hu)
  | append_singleton s c =>
    rw [List.flatMap_append, List.flatMap_singleton]
    obtain ⟨u, hu, hhigh, -, -⟩ | ⟨u, v, huv, -, hv, -⟩ := utf16Units_cases c
    · rw [hu, List.getLast?_concat]
      exact fun w hw => Option.some.inj hw ▸ hhigh
    · rw [huv, List.getLast?_append_of_ne_nil _ (List.cons_ne_nil _ _)]
      exact fun w hw => Option.some.inj hw ▸ isHighSurrogate_of_low hv

theorem SplitsPair.cons {i : ℕ} (h : SplitsPair t i) (u : UInt16) : SplitsPair (u :: t) (i + 1) := by
  obtain ⟨⟨w, hw, hhigh⟩, hlow⟩ := h
  refine ⟨⟨w, ?_, hhigh⟩, hlow⟩
  rw [List.take_succ_cons, List.getLast?_cons, Option.mem_def.mp hw]
  rfl

/-- A place in a text is between two characters or inside a pair. -/
theorem splits_cases (s : Text) (i : ℕ) : SplitsPair (s.flatMap utf16Units) i ∨
    ∃ s₁ s₂ : Text, s = s₁ ++ s₂ ∧ (s.flatMap utf16Units).take i = s₁.flatMap utf16Units ∧
      (s.flatMap utf16Units).drop i = s₂.flatMap utf16Units := by
  induction s generalizing i with
  | nil => exact .inr ⟨[], [], rfl, List.take_nil, List.drop_nil⟩
  | cons c s ih =>
    obtain ⟨u, hu, -⟩ | ⟨u, v, huv, hhigh, hlow, -⟩ := utf16Units_cases c
    · cases i with
      | zero => exact .inr ⟨[], c :: s, rfl, rfl, rfl⟩
      | succ i =>
        rw [List.flatMap_cons, hu, List.singleton_append]
        obtain h | ⟨s₁, s₂, rfl, htake, hdrop⟩ := ih i
        · exact .inl (h.cons u)
        · refine .inr ⟨c :: s₁, s₂, rfl, ?_, hdrop⟩
          rw [List.take_succ_cons, htake, List.flatMap_cons, hu]
          rfl
    · rw [List.flatMap_cons, huv]
      cases i with
      | zero =>
        refine .inr ⟨[], c :: s, rfl, rfl, ?_⟩
        rw [List.flatMap_cons, huv]
        rfl
      | succ i =>
        cases i with
        | zero => exact .inl ⟨⟨u, rfl, hhigh⟩, v, rfl, hlow⟩
        | succ i =>
          obtain h | ⟨s₁, s₂, rfl, htake, hdrop⟩ := ih i
          · exact .inl ((h.cons v).cons u)
          · refine .inr ⟨c :: s₁, s₂, rfl, ?_, hdrop⟩
            rw [List.flatMap_cons, huv, ← htake]
            rfl

/-- What is before a place in a text stays exactly if the place is not inside a
pair. -/
theorem repaired_take_iff (s : String) (i : ℕ) :
    repaired ((ofString s).take i) = (ofString s).take i ↔ ¬ SplitsPair (ofString s) i := by
  constructor
  · rintro heq ⟨⟨u, hu, hhigh⟩, -⟩
    rw [← heq] at hu
    rw [not_high_getLast?_ofString _ u hu] at hhigh
    cases hhigh
  · intro h
    obtain ⟨s₁, s₂, -, htake, -⟩ := (splits_cases s.toList i).resolve_left h
    have := repaired_ofString (String.ofList s₁)
    rwa [ofString, String.toList_ofList, ← htake] at this

/-- And what is behind it. -/
theorem repaired_drop_iff (s : String) (i : ℕ) :
    repaired ((ofString s).drop i) = (ofString s).drop i ↔ ¬ SplitsPair (ofString s) i := by
  constructor
  · rintro heq ⟨-, v, hv, hlow⟩
    rw [← heq] at hv
    rw [not_low_head?_ofString _ v hv] at hlow
    cases hlow
  · intro h
    obtain ⟨s₁, s₂, -, -, hdrop⟩ := (splits_cases s.toList i).resolve_left h
    have := repaired_ofString (String.ofList s₂)
    rwa [ofString, String.toList_ofList, ← hdrop] at this

/-- A part of a text stays if neither end is inside a pair. -/
theorem repaired_part {s : String} {i n : ℕ} (hi : ¬ SplitsPair (ofString s) i)
    (hn : ¬ SplitsPair (ofString s) (i + n)) : repaired (((ofString s).drop i).take n) = ((ofString s).drop i).take n := by
  obtain ⟨s₁, s₂, -, -, hdrop⟩ := (splits_cases s.toList i).resolve_left hi
  have hpart : ofString (String.ofList s₂) = (ofString s).drop i := by
    rw [ofString, String.toList_ofList]
    exact hdrop.symm
  rw [← hpart, repaired_take_iff, hpart]
  rintro ⟨⟨u, hu, hhigh⟩, v, hv, hlow⟩
  refine hn ⟨⟨u, ?_, hhigh⟩, v, ?_, hlow⟩
  · rw [List.take_add, List.getLast?_append, Option.mem_def.mp hu]
    rfl
  · rwa [← List.drop_drop]

theorem ofString_ne_nil {s : String} (hs : s ≠ "") : ofString s ≠ [] := by
  rw [ofString]
  cases hlist : s.toList with
  | nil => exact absurd (String.toList_eq_nil_iff.mp hlist) hs
  | cons c t =>
    obtain ⟨u, hu, -⟩ | ⟨u, v, huv, -⟩ := utf16Units_cases c
    · simp [List.flatMap_cons, hu]
    · simp [List.flatMap_cons, huv]

/-- What reads as characters on its own reads so between two parts. -/
theorem repaired_insert (x y : NSString) {s : String} (hs : s ≠ "") :
    repaired (x ++ ofString s ++ y) = repaired x ++ ofString s ++ repaired y := by
  have hne := ofString_ne_nil hs
  have hlow := not_low_head?_ofString s
  have hhigh := not_high_getLast?_ofString s
  rw [repaired_append, repaired_append, repaired_ofString]
  · rintro ⟨-, v, hv, hlow'⟩
    rw [hlow v hv] at hlow'
    cases hlow'
  · rintro ⟨⟨u, hu, hhigh'⟩, -⟩
    rw [List.getLast?_append_of_ne_nil _ hne] at hu
    rw [hhigh u hu] at hhigh'
    cases hhigh'

end SynapsNotes.NSString
