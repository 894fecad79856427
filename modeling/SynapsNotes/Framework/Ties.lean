import SynapsNotes.Framework.Sort
import Mathlib.Data.Finset.Sort
import Mathlib.Data.List.Forall2

/-!
# Sorting batches that arrive in any order

A stable sort keeps records with one key in the order they came in. So the
sort of several batches, one after another, is a list of groups: for each key,
from the least up, the records of each batch that have it (`sortOn_flatten`).
Where each batch can arrive in any order, the sorts of what arrives are the
lists that put each group in any order (`sortOn_shuffled_iff`).
-/

namespace SynapsNotes.Framework

variable {β κ : Type*} [LinearOrder κ] {key : β → κ}

/-- Each of the lists in any order. -/
abbrev Shuffled (ls ls' : List (List β)) : Prop := List.Forall₂ List.Perm ls ls'

theorem Shuffled.refl (ls : List (List β)) : Shuffled ls ls := List.forall₂_same.mpr fun l _ => List.Perm.refl l

theorem Shuffled.flatten_perm {ls ls' : List (List β)} (h : Shuffled ls ls') : ls.flatten.Perm ls'.flatten := by
  induction h with
  | nil => exact .refl _
  | cons hl _ ih => exact hl.append ih

/-! ## The groups of one list -/

/-- The records with a key, in their order. -/
def withKey (key : β → κ) (k : κ) (l : List β) : List β := l.filter (key · = k)

@[simp] theorem mem_withKey {k : κ} {l : List β} {a : β} : a ∈ withKey key k l ↔ a ∈ l ∧ key a = k := by
  simp [withKey]

theorem withKey_append (k : κ) (l l' : List β) : withKey key k (l ++ l') = withKey key k l ++ withKey key k l' :=
  List.filter_append ..

theorem withKey_cons (k : κ) (a : β) (l : List β) :
    withKey key k (a :: l) = withKey key k [a] ++ withKey key k l := withKey_append k [a] l

theorem withKey_eq_self {k : κ} {l : List β} (h : ∀ a ∈ l, key a = k) : withKey key k l = l :=
  List.filter_eq_self.mpr fun a ha => decide_eq_true (h a ha)

theorem withKey_eq_nil {k : κ} {l : List β} (h : ∀ a ∈ l, key a ≠ k) : withKey key k l = [] :=
  List.filter_eq_nil_iff.mpr fun a ha => by simpa using h a ha

theorem withKey_orderedInsert (k : κ) (a : β) (l : List β) :
    withKey key k (l.orderedInsert (fun a b => key a ≤ key b) a) = withKey key k (a :: l) := by
  induction l with
  | nil => rfl
  | cons b l ih =>
    rw [List.orderedInsert_cons]
    split
    · rfl
    · rename_i hlt
      -- `b` comes before `a`, so at most one of them has the key
      have hne : ¬ (key a = k ∧ key b = k) := fun h => hlt (h.1.trans h.2.symm).le
      rw [withKey_cons, ih, withKey_cons k a l, withKey_cons k a (b :: l), withKey_cons k b l, ← List.append_assoc,
        ← List.append_assoc]
      congr 1
      by_cases ha : key a = k
      · rw [withKey_eq_nil (l := [b]) (by simpa using fun hb => hne ⟨ha, hb⟩), List.nil_append, List.append_nil]
      · rw [withKey_eq_nil (l := [a]) (by simpa using ha), List.append_nil, List.nil_append]

/-- The sort is stable. -/
theorem withKey_sortOn (key : β → κ) (k : κ) (l : List β) : withKey key k (sortOn key l) = withKey key k l := by
  induction l with
  | nil => rfl
  | cons a l ih =>
    rw [sortOn, List.insertionSort_cons, withKey_orderedInsert, withKey_cons k a l, ← ih]
    exact withKey_cons k a (sortOn key l)

/-- The records with the least key come first. -/
theorem SortedOn.eq_withKey_append {k : κ} {l : List β} (h : SortedOn key l) (hk : ∀ a ∈ l, k ≤ key a) :
    l = withKey key k l ++ l.filter (key · ≠ k) := by
  induction l with
  | nil => rfl
  | cons a l ih =>
    obtain ⟨ha, hl⟩ := List.pairwise_cons.mp h
    by_cases hak : key a = k
    · rw [withKey, List.filter_cons_of_pos (by simpa using hak), List.filter_cons_of_neg (by simpa using hak),
        List.cons_append]
      exact congrArg (a :: ·) (ih hl fun b hb => hk b (List.mem_cons_of_mem _ hb))
    · have hlt : ∀ b ∈ a :: l, key b ≠ k := by
        have hak' : k < key a := lt_of_le_of_ne (hk a List.mem_cons_self) (Ne.symm hak)
        intro b hb
        rcases List.mem_cons.mp hb with rfl | hb
        · exact hak
        · exact (hak'.trans_le (ha b hb)).ne'
      rw [withKey_eq_nil hlt, List.nil_append, List.filter_eq_self.mpr fun b hb => by simpa using hlt b hb]

theorem SortedOn.eq_flatMap_withKey {keys : List κ} {l : List β} (h : SortedOn key l)
    (hkeys : keys.Pairwise (· < ·)) (hmem : ∀ a ∈ l, key a ∈ keys) : l = keys.flatMap fun k => withKey key k l := by
  induction keys generalizing l with
  | nil =>
    obtain rfl := List.eq_nil_iff_forall_not_mem.mpr fun a ha => List.not_mem_nil (hmem a ha)
    rfl
  | cons k keys ih =>
    obtain ⟨hk, hkeys⟩ := List.pairwise_cons.mp hkeys
    have hle : ∀ a ∈ l, k ≤ key a := fun a ha => by
      rcases List.mem_cons.mp (hmem a ha) with heq | ha
      · exact heq.ge
      · exact (hk _ ha).le
    have hrest : SortedOn key (l.filter (key · ≠ k)) := h.filter _
    have hrest_mem : ∀ a ∈ l.filter (key · ≠ k), key a ∈ keys := fun a ha => by
      obtain ⟨ha, hne⟩ := List.mem_filter.mp ha
      exact (List.mem_cons.mp (hmem a ha)).resolve_left (by simpa using hne)
    calc l = withKey key k l ++ l.filter (key · ≠ k) := h.eq_withKey_append hle
      _ = withKey key k l ++ keys.flatMap fun k' => withKey key k' (l.filter (key · ≠ k)) := by
        rw [← ih hrest hkeys hrest_mem]
      _ = (k :: keys).flatMap fun k' => withKey key k' l := by
        rw [List.flatMap_cons]
        refine congrArg (_ ++ ·) (List.flatMap_congr fun k' hk' => ?_)
        rw [withKey, List.filter_filter]
        refine List.filter_congr fun a _ => ?_
        have hne : k' ≠ k := (hk k' hk').ne'
        by_cases ha : key a = k' <;> simp [ha, hne]

/-- A sort is the groups of the keys, from the least up. -/
theorem sortOn_eq_flatMap_withKey {keys : List κ} {l : List β} (hkeys : keys.Pairwise (· < ·))
    (hmem : ∀ a ∈ l, key a ∈ keys) : sortOn key l = keys.flatMap fun k => withKey key k l := by
  rw [(sortOn_sorted key l).eq_flatMap_withKey hkeys fun a ha => hmem a (mem_sortOn.mp ha)]
  exact List.flatMap_congr fun k _ => withKey_sortOn key k l

/-! ## The groups of several lists -/

/-- The records of each batch that have the key, for each of the keys. -/
def tiesAt (key : β → κ) (keys : List κ) (batches : List (List β)) : List (List β) :=
  keys.flatMap fun k => batches.map (withKey key k)

theorem flatten_tiesAt (keys : List κ) (batches : List (List β)) :
    (tiesAt key keys batches).flatten = keys.flatMap fun k => withKey key k batches.flatten := by
  induction keys with
  | nil => rfl
  | cons k keys ih =>
    rw [tiesAt, List.flatMap_cons, List.flatten_append, List.flatMap_cons, ← ih, withKey, List.filter_flatten]
    rfl

theorem tiesAt_shuffled (keys : List κ) {batches batches' : List (List β)} (h : Shuffled batches batches') :
    Shuffled (tiesAt key keys batches) (tiesAt key keys batches') := by
  induction keys with
  | nil => exact .nil
  | cons k keys ih =>
    refine List.rel_append (List.forall₂_map_left_iff.mpr (List.forall₂_map_right_iff.mpr ?_)) ih
    exact h.imp fun _ _ hl => hl.filter _

theorem exists_append_of_shuffled {ls₁ ls₂ groups : List (List β)} (h : Shuffled (ls₁ ++ ls₂) groups) :
    ∃ groups₁ groups₂, groups = groups₁ ++ groups₂ ∧ Shuffled ls₁ groups₁ ∧ Shuffled ls₂ groups₂ := by
  induction ls₁ generalizing groups with
  | nil => exact ⟨[], groups, rfl, .nil, h⟩
  | cons l ls₁ ih =>
    cases h with
    | cons hl h =>
      obtain ⟨groups₁, groups₂, rfl, h₁, h₂⟩ := ih h
      exact ⟨_ :: groups₁, groups₂, rfl, .cons hl h₁, h₂⟩

section Columns

variable {k : κ} {keys : List κ} {batches row rest : List (List β)}

/-- The batches with a group put in front of each. -/
theorem zipWith_append_perm (hk : k ∉ keys) (hrow : List.Forall₂ (fun l r => (withKey key k l).Perm r) batches row)
    (hrest : List.Forall₂ (fun l l' => (l.filter (key · ∈ keys)).Perm l') batches rest) :
    List.Forall₂ (fun l l' => (l.filter (key · ∈ k :: keys)).Perm l') batches (row.zipWith (· ++ ·) rest) := by
  induction hrow generalizing rest with
  | nil => exact .nil
  | @cons l r batches row hl _ ih =>
    cases hrest with
    | cons hl' hrest =>
      refine .cons ?_ (ih hrest)
      refine ((List.filter_append_perm (key · = k) (l.filter (key · ∈ k :: keys))).symm.trans ?_)
      rw [List.filter_filter, List.filter_filter]
      refine List.Perm.append ((List.Perm.of_eq ?_).trans hl) ((List.Perm.of_eq ?_).trans hl')
      · exact List.filter_congr fun a _ => by by_cases ha : key a = k <;> simp [ha]
      · refine List.filter_congr fun a _ => ?_
        by_cases ha : key a = k
        · simp [ha, hk]
        · simp [ha]

theorem map_withKey_zipWith_append
    (hrow : List.Forall₂ (fun r l => (∀ a ∈ r, key a = k) ∧ ∀ a ∈ l, key a ≠ k) row rest) :
    (row.zipWith (· ++ ·) rest).map (withKey key k) = row := by
  induction hrow with
  | nil => rfl
  | cons h _ ih =>
    rw [List.zipWith_cons_cons, List.map_cons, ih, withKey_append, withKey_eq_self h.1, withKey_eq_nil h.2,
      List.append_nil]

theorem map_withKey_zipWith_append_of_ne {k' : κ}
    (hrow : List.Forall₂ (fun r (_ : List β) => ∀ a ∈ r, key a ≠ k') row rest) :
    (row.zipWith (· ++ ·) rest).map (withKey key k') = rest.map (withKey key k') := by
  induction hrow with
  | nil => rfl
  | cons h _ ih =>
    rw [List.zipWith_cons_cons, List.map_cons, ih, withKey_append, withKey_eq_nil h, List.nil_append]
    rfl

/-- Their groups are those put in front, and those they had. -/
theorem tiesAt_zipWith_append (hk : k ∉ keys)
    (hrow : List.Forall₂ (fun l r => (withKey key k l).Perm r) batches row)
    (hrest : List.Forall₂ (fun l l' => (l.filter (key · ∈ keys)).Perm l') batches rest) :
    tiesAt key (k :: keys) (row.zipWith (· ++ ·) rest) = row ++ tiesAt key keys rest := by
  have hkeys : List.Forall₂ (fun r l => (∀ a ∈ r, key a = k) ∧ ∀ a ∈ l, key a ∈ keys) row rest := by
    induction hrow generalizing rest with
    | nil =>
      cases hrest
      exact .nil
    | cons hl _ ih =>
      cases hrest with
      | cons hl' hrest =>
        refine .cons ⟨fun a ha => (mem_withKey.mp (hl.mem_iff.mpr ha)).2, fun a ha => ?_⟩ (ih hrest)
        simpa using (List.mem_filter.mp (hl'.mem_iff.mpr ha)).2
  rw [tiesAt, List.flatMap_cons, tiesAt]
  congr 1
  · exact map_withKey_zipWith_append (hkeys.imp fun _ _ h => ⟨h.1, fun a ha heq => hk (heq ▸ h.2 a ha)⟩)
  · refine List.flatMap_congr fun k' hk' => map_withKey_zipWith_append_of_ne (hkeys.imp fun _ _ h a ha => ?_)
    rw [h.1 a ha]
    rintro rfl
    exact hk hk'

end Columns

/-- Any order of the groups is that of batches in some order. -/
theorem exists_batches_of_shuffled {keys : List κ} {batches groups : List (List β)} (hkeys : keys.Nodup)
    (h : Shuffled (tiesAt key keys batches) groups) :
    ∃ batches', List.Forall₂ (fun l l' => (l.filter (key · ∈ keys)).Perm l') batches batches' ∧
      tiesAt key keys batches' = groups := by
  induction keys generalizing groups with
  | nil =>
    cases h
    exact ⟨batches.map fun _ => [], List.forall₂_map_right_iff.mpr (List.forall₂_same.mpr fun l _ => by simp), rfl⟩
  | cons k keys ih =>
    obtain ⟨hk, hkeys⟩ := List.nodup_cons.mp hkeys
    obtain ⟨row, groups, rfl, hrow, hgroups⟩ := exists_append_of_shuffled h
    obtain ⟨rest, hrest, rfl⟩ := ih hkeys hgroups
    have hrow := List.forall₂_map_left_iff.mp hrow
    exact ⟨_, zipWith_append_perm hk hrow hrest, tiesAt_zipWith_append hk hrow hrest⟩

/-! ## The sorts of what arrives -/

/-- The keys of the records, from the least up. -/
def keysOf (key : β → κ) (l : List β) : List κ := (l.map key).toFinset.sort (· ≤ ·)

theorem mem_keysOf {l : List β} {a : β} (h : a ∈ l) : key a ∈ keysOf key l := by
  rw [keysOf, Finset.mem_sort, List.mem_toFinset]
  exact List.mem_map_of_mem h

theorem keysOf_pairwise (key : β → κ) (l : List β) : (keysOf key l).Pairwise (· < ·) :=
  (Finset.sortedLT_sort _).pairwise

theorem keysOf_perm {l l' : List β} (h : l.Perm l') : keysOf key l = keysOf key l' := by
  rw [keysOf, keysOf, List.toFinset_eq_of_perm _ _ (h.map key)]

/-- The groups of the batches, in the order of the sort. -/
def ties (key : β → κ) (batches : List (List β)) : List (List β) := tiesAt key (keysOf key batches.flatten) batches

theorem sortOn_flatten (key : β → κ) (batches : List (List β)) :
    sortOn key batches.flatten = (ties key batches).flatten := by
  rw [ties, flatten_tiesAt]
  exact sortOn_eq_flatMap_withKey (keysOf_pairwise key _) fun a => mem_keysOf

/-- Each batch in any order gives each group in any order, and nothing else. -/
theorem sortOn_shuffled_iff {batches : List (List β)} {l : List β} :
    (∃ batches', Shuffled batches batches' ∧ sortOn key batches'.flatten = l) ↔
      ∃ groups, Shuffled (ties key batches) groups ∧ groups.flatten = l := by
  constructor
  · rintro ⟨batches', h, rfl⟩
    refine ⟨ties key batches', ?_, (sortOn_flatten key batches').symm⟩
    rw [ties, ties, keysOf_perm h.flatten_perm.symm]
    exact tiesAt_shuffled _ h
  · rintro ⟨groups, h, rfl⟩
    obtain ⟨batches', hperm, rfl⟩ := exists_batches_of_shuffled (keysOf_pairwise key _).nodup h
    have hbatches : Shuffled batches batches' := by
      have hall : ∀ l ∈ batches, l.filter (key · ∈ keysOf key batches.flatten) = l := fun l hl =>
        List.filter_eq_self.mpr fun a ha => decide_eq_true (mem_keysOf (List.mem_flatten_of_mem hl ha))
      exact ((List.forall₂_and_left _ _).mpr ⟨hall, hperm⟩).imp fun l l' h => h.1 ▸ h.2
    refine ⟨batches', hbatches, ?_⟩
    rw [sortOn_flatten, ties, keysOf_perm hbatches.flatten_perm.symm]

end SynapsNotes.Framework
