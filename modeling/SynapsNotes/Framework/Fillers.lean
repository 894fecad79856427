import Mathlib.Computability.Language
import SynapsNotes.Framework.Deletion

/-!
# What deleting several words takes out

Words are deleted one after the other. A text is taken out altogether by the
first `n` of them exactly if it is made of words among these, each possibly
with earlier ones between its letters (`fillers`, `mem_fillers_iff`). A word in
brackets is left over exactly where it stands in the text with fillers between
its letters, and is not itself deleted in time (`infix_deletions_iff`).
-/

namespace SynapsNotes.Framework

open Computability

variable {α : Type*} {a b c : α} {s t x y : List α} {ps : List (List α × α)}

/-! ## Words with gaps -/

/-- The letters, each with a text before it. -/
def spaced (ps : List (List α × α)) : List α := ps.flatMap fun p => p.1 ++ [p.2]

def letters (ps : List (List α × α)) : List α := ps.map Prod.snd

/-- The texts that are the word `s` with texts of `F` between its letters. -/
def around (F : Language α) (s : List α) : Language α :=
  {v | ∃ c ps, s = c :: letters ps ∧ v = c :: spaced ps ∧ ∀ p ∈ ps, p.1 ∈ F}

/-- What the first `n` of the words take out of a text. -/
def fillers (words : List (List α)) : ℕ → Language α
  | 0 => 1
  | n + 1 => (fillers words n + words[n]?.elim 0 (around (fillers words n)))∗

theorem spaced_cons (p : List α × α) (ps : List (List α × α)) : spaced (p :: ps) = p.1 ++ p.2 :: spaced ps := by
  rw [spaced, List.flatMap_cons, List.append_assoc, List.singleton_append]
  rfl

theorem spaced_of_no_gaps (h : ∀ p ∈ ps, p.1 = []) : spaced ps = letters ps := by
  induction ps with
  | nil => rfl
  | cons p ps ih =>
    rw [List.forall_mem_cons] at h
    rw [spaced_cons, ih h.2, h.1]
    rfl

theorem getLast?_spaced (ps : List (List α × α)) : (spaced ps).getLast? = (letters ps).getLast? := by
  induction ps with
  | nil => rfl
  | cons p ps ih =>
    rw [spaced_cons, List.getLast?_append_of_ne_nil _ (List.cons_ne_nil _ _), letters, List.map_cons,
      List.getLast?_cons, List.getLast?_cons, ih]
    rfl

/-- The gaps, with their letters, after one pass. -/
def mapGaps (f : List α → List α) (ps : List (List α × α)) : List (List α × α) := ps.map fun p => (f p.1, p.2)

theorem mapGaps_cons (f : List α → List α) (p : List α × α) (ps : List (List α × α)) :
    mapGaps f (p :: ps) = (f p.1, p.2) :: mapGaps f ps := rfl

theorem letters_mapGaps (f : List α → List α) (ps : List (List α × α)) : letters (mapGaps f ps) = letters ps := by
  rw [letters, mapGaps, List.map_map]
  rfl

/-- A word without the opening bracket does not begin in a gap. -/
theorem prefix_letters_of_prefix (ha : a ∉ s) (hgaps : ∀ p ∈ ps, p.1 = [] ∨ p.1.head? = some a)
    (ht : t = [] ∨ t.head? = some a) (h : s <+: spaced ps ++ t) :
    s <+: letters ps ∧ ∀ p ∈ ps.take s.length, p.1 = [] := by
  induction ps generalizing s with
  | nil =>
    have hnil : s = [] := by
      by_contra h0
      obtain rfl | ht := ht
      · exact h0 (List.prefix_nil.mp h)
      · exact ha (List.mem_of_head? ((head?_of_isPrefix h h0).trans ht))
    rw [hnil]
    exact ⟨List.nil_prefix, fun p hp => (by simp at hp)⟩
  | cons p ps ih =>
    obtain ⟨g, d⟩ := p
    rw [List.forall_mem_cons] at hgaps
    rw [spaced_cons, List.append_assoc, List.cons_append] at h
    cases s with
    | nil => exact ⟨List.nil_prefix, fun p hp => (by simp at hp)⟩
    | cons e s =>
      rw [List.mem_cons, not_or] at ha
      -- a gap that is not empty begins with the opening bracket
      have hg : g = [] := by
        refine hgaps.1.resolve_right fun hhead => ?_
        have hg0 : g ≠ [] := fun h0 => by simp [h0] at hhead
        have := head?_of_isPrefix h (List.cons_ne_nil e s)
        rw [List.head?_append_of_ne_nil _ hg0, hhead, List.head?_cons, Option.some.injEq] at this
        exact ha.1 this.symm
      rw [hg, List.nil_append, List.cons_prefix_cons] at h
      obtain ⟨hs, hall⟩ := ih ha.2 hgaps.2 h.2
      refine ⟨List.cons_prefix_cons.mpr ⟨h.1, hs⟩, ?_⟩
      rw [List.length_cons, List.take_succ_cons, List.forall_mem_cons]
      exact ⟨hg, hall⟩

/-! ## One pass -/

section Pass

variable {f : List α → List α} (hf : Deletes s f) (hs : Bracketed a b s)

include hf hs

/-- Between letters other than the opening bracket, the gaps are passed through
one by one. -/
theorem Deletes.map_spaced_append (hletters : a ∉ letters ps) (hgaps : ∀ p ∈ ps, p.1 = [] ∨ p.1.getLast? = some b)
    (t : List α) : f (spaced ps ++ t) = spaced (mapGaps f ps) ++ f t := by
  induction ps with
  | nil => rfl
  | cons p ps ih =>
    obtain ⟨g, d⟩ := p
    rw [List.forall_mem_cons] at hgaps
    rw [letters, List.map_cons, List.mem_cons, not_or] at hletters
    have hd : f (d :: (spaced ps ++ t)) = d :: f (spaced ps ++ t) := by
      rw [← List.singleton_append, hf.append hs (hs.not_splits_singleton (Ne.symm hletters.1)), hf.map_singleton hs]
      rfl
    rw [spaced_cons, List.append_assoc, List.cons_append, hf.append_of_last hs hgaps.1, hd,
      ih hletters.2 hgaps.2, mapGaps_cons, spaced_cons, List.append_assoc, List.cons_append]

/-- Behind the opening bracket they are too, unless the word itself stands
there without gaps. -/
theorem Deletes.map_cons_spaced_append (hletters : a ∉ letters ps)
    (hgaps : ∀ p ∈ ps, p.1 = [] ∨ p.1.head? = some a ∧ p.1.getLast? = some b) (ht : t = [] ∨ t.head? = some a) :
    f (a :: (spaced ps ++ t)) = a :: (spaced (mapGaps f ps) ++ f t) ∨
      (s <+: a :: letters ps ∧ ∀ p ∈ ps.take (s.length - 1), p.1 = []) := by
  by_cases h : Splits s [a] (spaced ps ++ t)
  · obtain ⟨s₁, s₂, h₁, -, rfl, hs₁, hs₂⟩ := h
    have hlen : s₁.length ≤ 1 := hs₁.length_le
    have heq : s₁ = [a] := hs₁.eq_of_length (Nat.le_antisymm hlen (List.length_pos_of_ne_nil h₁))
    obtain ⟨hletters', hall⟩ :=
      prefix_letters_of_prefix (hs.not_mem_of_append rfl h₁) (fun p hp => (hgaps p hp).imp_right And.left) ht hs₂
    rw [heq, List.singleton_append, List.length_cons, Nat.add_sub_cancel]
    exact .inr ⟨List.cons_prefix_cons.mpr ⟨rfl, hletters'⟩, hall⟩
  · left
    rw [← List.singleton_append, hf.append hs h, hf.map_singleton hs,
      hf.map_spaced_append hs hletters (fun p hp => (hgaps p hp).imp_right And.right)]
    rfl

end Pass

/-! ## All passes -/

section Passes

variable {del : List α → List α → List α} {words : List (List α)}
  (hdel : ∀ s, Bracketed a b s → Deletes s (del s)) (hwords : ∀ s ∈ words, Bracketed a b s)

include hdel hwords

omit hdel hwords in
theorem deletions_mapGaps :
    (∀ p ∈ mapGaps (del s) ps, deletions del words p.1 = []) ↔ ∀ p ∈ ps, deletions del (s :: words) p.1 = [] := by
  rw [mapGaps, List.forall_mem_map]
  rfl

omit hdel in
theorem bracketed_take (n : ℕ) : ∀ s ∈ words.take n, Bracketed a b s := fun s h => hwords s (List.mem_of_mem_take h)

theorem ends_of_deletions (h : deletions del words t = []) : t = [] ∨ t.head? = some a ∧ t.getLast? = some b := by
  obtain rfl | hhead := head?_of_deletions hdel hwords (.inl h)
  · exact .inl rfl
  · refine .inr ⟨hhead, (getLast?_of_deletions hdel hwords (.inl h)).resolve_left fun h0 => ?_⟩
    simp [h0] at hhead

/-- Of letters with gaps that are deleted throughout, the letters are left. -/
theorem deletions_spaced_append (hletters : a ∉ letters ps) (hgaps : ∀ p ∈ ps, deletions del words p.1 = [])
    (t : List α) : deletions del words (spaced ps ++ t) = letters ps ++ deletions del words t := by
  induction words generalizing ps t with
  | nil =>
    rw [deletions, List.foldl_nil, spaced_of_no_gaps hgaps]
    rfl
  | cons s words ih =>
    have hends := fun p hp => getLast?_of_deletions hdel hwords (.inl (hgaps p hp))
    rw [List.forall_mem_cons] at hwords
    rw [deletions_cons, (hdel s hwords.1).map_spaced_append hwords.1 hletters hends,
      ih hwords.2 (by rwa [letters_mapGaps]) (deletions_mapGaps.mpr hgaps), letters_mapGaps, ← deletions_cons]

/-- The beginning of a word, with such gaps, stays. -/
theorem deletions_append_open_spaced (ha : a ∉ letters ps) (hb : b ∉ letters ps)
    (hgaps : ∀ p ∈ ps, deletions del words p.1 = []) (hx : deletions del words x = []) (t : List α) :
    deletions del words (t ++ a :: (spaced ps ++ x)) = deletions del words t ++ a :: letters ps := by
  induction words generalizing ps x t with
  | nil =>
    rw [deletions, List.foldl_nil] at hx
    rw [deletions, List.foldl_nil, spaced_of_no_gaps hgaps, hx, List.append_nil]
    rfl
  | cons s words ih =>
    have hends := fun p hp => ends_of_deletions hdel hwords (hgaps p hp)
    have hend := head?_of_deletions hdel hwords (.inl hx)
    rw [List.forall_mem_cons] at hwords
    have hs := hwords.1
    rw [deletions_cons, (hdel s hs).append_of_head hs (.inr rfl)]
    obtain hpass | ⟨hbegin, -⟩ := (hdel s hs).map_cons_spaced_append hs ha hends hend
    · rw [hpass, ih hwords.2 (by rwa [letters_mapGaps]) (by rwa [letters_mapGaps]) (deletions_mapGaps.mpr hgaps) hx,
        letters_mapGaps, ← deletions_cons]
    · have hmem : b ∈ a :: letters ps := hbegin.subset (List.mem_of_getLast? hs.last)
      exact absurd hmem (List.not_mem_cons_of_ne_of_not_mem hs.ne.symm hb)

/-- A word with such gaps stays, or it is deleted when its gaps are. -/
theorem deletions_cons_spaced (hs : Bracketed a b (a :: letters ps))
    (hgaps : ∀ p ∈ ps, deletions del words p.1 = []) :
    (∀ x y, deletions del words (x ++ (a :: spaced ps ++ y)) =
        deletions del words x ++ (a :: letters ps ++ deletions del words y)) ∨
      ∃ n, words[n]? = some (a :: letters ps) ∧ ∀ p ∈ ps, deletions del (words.take n) p.1 = [] := by
  induction words generalizing ps with
  | nil =>
    left
    intro x y
    rw [deletions, List.foldl_nil, spaced_of_no_gaps hgaps]
    rfl
  | cons r words ih =>
    have hends := fun p hp => ends_of_deletions hdel hwords (hgaps p hp)
    rw [List.forall_mem_cons] at hwords
    have hr := hwords.1
    have hletters : a ∉ letters ps := hs.head_once
    have hlast : (a :: spaced ps).getLast? = some b := by
      rw [List.getLast?_cons, getLast?_spaced, ← List.getLast?_cons]
      exact hs.last
    obtain hpass | ⟨hbegin, hnone⟩ := (hdel r hr).map_cons_spaced_append hr hletters hends (t := []) (.inl rfl)
    · rw [List.append_nil, (hdel r hr).map_nil hr.ne_nil, List.append_nil] at hpass
      obtain hleft | ⟨n, hn, hall⟩ := ih hwords.2 (by rwa [letters_mapGaps]) (deletions_mapGaps.mpr hgaps)
      · left
        intro x y
        rw [deletions_cons, (hdel r hr).append_of_head hr (.inr rfl), (hdel r hr).append_of_last hr (.inr hlast), hpass,
          hleft, letters_mapGaps, ← deletions_cons, ← deletions_cons]
      · rw [letters_mapGaps] at hn
        rw [mapGaps, List.forall_mem_map] at hall
        exact .inr ⟨n + 1, hn, hall⟩
    · obtain rfl := hr.eq_of_prefix hs hbegin
      rw [List.length_cons, Nat.add_sub_cancel, letters, List.length_map, List.take_length] at hnone
      exact .inr ⟨0, rfl, hnone⟩

/-! ## Fillers -/

/-- What is left of a text stands in it with such gaps. -/
theorem exists_spaced_of_deletions (h : deletions del words t = x) : ∃ ps y, t = spaced ps ++ y ∧ letters ps = x ∧
    (∀ p ∈ ps, deletions del words p.1 = []) ∧ deletions del words y = [] := by
  induction x generalizing t with
  | nil => exact ⟨[], t, rfl, rfl, fun p hp => (by cases hp), h⟩
  | cons c x ih =>
    obtain ⟨g, v, rfl, hg, hv⟩ := deletions_exists_cons hdel hwords h
    obtain ⟨ps, y, rfl, rfl, hgaps, hy⟩ := ih hv
    exact ⟨(g, c) :: ps, y, by rw [spaced_cons, List.append_assoc, List.cons_append], rfl,
      List.forall_mem_cons.mpr ⟨hg, hgaps⟩, hy⟩

/-- A word that is left stands in the text with such gaps. -/
theorem exists_around_of_deletions (hs : Bracketed a b s) (h : deletions del words t = x ++ (s ++ y)) :
    ∃ u ps v, t = u ++ (a :: spaced ps ++ v) ∧ s = a :: letters ps ∧ (∀ p ∈ ps, deletions del words p.1 = []) ∧
      deletions del words (a :: spaced ps) = s ∧ deletions del words u = x ∧ deletions del words v = y := by
  obtain ⟨u, w, rfl, hu, hw⟩ := deletions_exists_append hdel hwords h
  obtain ⟨z, v, rfl, hz, hv⟩ := deletions_exists_append hdel hwords hw
  obtain ⟨qs, g', rfl, hqs, hgaps, hg'⟩ := exists_spaced_of_deletions hdel hwords hz
  cases qs with
  | nil => exact absurd hqs.symm hs.ne_nil
  | cons q ps =>
    obtain ⟨g, d⟩ := q
    rw [hs.eq_cons, letters, List.map_cons, List.cons.injEq] at hqs
    rw [List.forall_mem_cons] at hgaps
    obtain ⟨hd, hps⟩ := hqs
    refine ⟨u ++ g, ps, g' ++ v, ?_, ?_, hgaps.2, ?_, ?_, ?_⟩
    · simp only [spaced_cons, ← hd, List.append_assoc, List.cons_append]
    · rw [hs.eq_cons, ← hps]
      rfl
    · rwa [deletions_append_nil hdel hwords hg', spaced_cons, deletions_append_of_nil hdel hwords hgaps.1, hd] at hz
    · rw [deletions_append_nil hdel hwords hgaps.1, hu]
    · rw [deletions_append_of_nil hdel hwords hg', hv]

omit hdel hwords in
theorem deletions_append_words (words' : List (List α)) (t : List α) :
    deletions del (words ++ words') t = deletions del words' (deletions del words t) := List.foldl_append

omit hdel hwords in
theorem deletions_take_succ (n : ℕ) (t : List α) : deletions del (words.take (n + 1)) t =
    words[n]?.elim (deletions del (words.take n) t) fun s => del s (deletions del (words.take n) t) := by
  rw [List.take_add_one, deletions_append_words]
  cases words[n]? <;> rfl

omit hdel hwords in
theorem append_mem_fillers_succ {n : ℕ} (hx : x ∈ fillers words (n + 1)) (hy : y ∈ fillers words (n + 1)) :
    x ++ y ∈ fillers words (n + 1) := by
  rw [fillers, ← kstar_mul_kstar, ← fillers]
  exact Language.append_mem_mul hx hy

omit hdel hwords in
theorem mem_fillers_succ {n : ℕ} (ht : t ∈ fillers words n + words[n]?.elim 0 (around (fillers words n))) :
    t ∈ fillers words (n + 1) := by
  have hle : fillers words n + words[n]?.elim 0 (around (fillers words n)) ≤ fillers words (n + 1) := le_kstar
  exact hle ht

/-- A word with fillers of the words before it is deleted with it. -/
theorem deletions_take_succ_of_mem_around (hnodup : words.Nodup) {n : ℕ} (hs : words[n]? = some s)
    (hfillers : ∀ t ∈ fillers words n, deletions del (words.take n) t = []) (ht : t ∈ around (fillers words n) s) :
    deletions del (words.take (n + 1)) t = [] := by
  have htake := bracketed_take hwords n
  have hbracketed := hwords s (List.mem_of_getElem? hs)
  obtain ⟨c, ps, rfl, rfl, hgaps⟩ := ht
  obtain rfl : c = a := Option.some.inj hbracketed.head
  obtain hleft | ⟨m, hm, -⟩ :=
    deletions_cons_spaced hdel htake hbracketed fun p hp => hfillers _ (hgaps p hp)
  · have h := hleft [] []
    have hpresent := (hdel _ hbracketed).present [] []
    rw [List.append_nil, List.nil_append, deletions_nil hdel htake, List.append_nil, List.nil_append] at h
    rw [List.append_nil, List.nil_append, (hdel _ hbracketed).map_nil hbracketed.ne_nil, List.append_nil] at hpresent
    rw [deletions_take_succ, hs, h]
    exact hpresent
  · -- the word stands only once among the words
    have hlt : m < n := by
      by_contra hge
      rw [List.getElem?_take_eq_none (not_lt.mp hge)] at hm
      cases hm
    rw [List.getElem?_take_of_lt hlt, ← hs] at hm
    have hlen := (List.getElem?_eq_some_iff.mp hs).1
    exact absurd ((List.getElem?_inj (hlt.trans hlen) hnodup).mp hm) hlt.ne

/-- What this pass leaves nothing of is a filler: it holds the word wherever
the passes before left it. -/
theorem mem_fillers_succ_of_pass {n : ℕ} (hs : words[n]? = some s)
    (hfillers : ∀ t, deletions del (words.take n) t = [] → t ∈ fillers words n)
    (h : del s (deletions del (words.take n) t) = []) : t ∈ fillers words (n + 1) := by
  have htake := bracketed_take hwords n
  have hbracketed := hwords s (List.mem_of_getElem? hs)
  generalize hx : deletions del (words.take n) t = x at h
  induction x using infix_induction hbracketed.ne_nil generalizing t with
  | absent x hnot =>
    rw [(hdel s hbracketed).absent x hnot] at h
    exact mem_fillers_succ (.inl (hfillers t (hx.trans h)))
  | present x y ihx ihy =>
    rw [(hdel s hbracketed).present, List.append_eq_nil_iff] at h
    rw [List.append_assoc] at hx
    obtain ⟨u, ps, v, rfl, hps, hgaps, -, hu, hv⟩ := exists_around_of_deletions hdel htake hbracketed hx
    have hword : a :: spaced ps ∈ fillers words (n + 1) := by
      refine mem_fillers_succ (.inr ?_)
      rw [hs]
      exact ⟨a, ps, hps, rfl, fun p hp => hfillers p.1 (hgaps p hp)⟩
    exact append_mem_fillers_succ (ihx hu h.1) (append_mem_fillers_succ hword (ihy hv h.2))

/-- A filler is deleted with the word of this pass. -/
theorem deletions_take_succ_of_mem_fillers (hnodup : words.Nodup) {n : ℕ}
    (hfillers : ∀ t ∈ fillers words n, deletions del (words.take n) t = []) (h : t ∈ fillers words (n + 1)) :
    deletions del (words.take (n + 1)) t = [] := by
  have htake := bracketed_take hwords (n + 1)
  obtain ⟨pieces, rfl, hpieces⟩ := Language.mem_kstar.mp h
  have hpiece : ∀ piece ∈ pieces, deletions del (words.take (n + 1)) piece = [] := by
    intro piece hp
    have hmem := hpieces piece hp
    cases hs : words[n]? with
    | none =>
      rw [hs] at hmem
      rw [deletions_take_succ, hs]
      exact hfillers piece (hmem.resolve_right (Language.notMem_zero piece))
    | some s =>
      rw [hs] at hmem
      obtain hfiller | haround := hmem
      · have hbracketed := hwords s (List.mem_of_getElem? hs)
        rw [deletions_take_succ, hs, hfillers piece hfiller]
        exact (hdel s hbracketed).map_nil hbracketed.ne_nil
      · exact deletions_take_succ_of_mem_around hdel hwords hnodup hs hfillers haround
  clear h hpieces
  induction pieces with
  | nil => exact deletions_nil hdel htake
  | cons piece pieces ih =>
    rw [List.forall_mem_cons] at hpiece
    rw [List.flatten_cons, deletions_append_of_nil hdel htake hpiece.1, ih hpiece.2]

/-- The text is taken out by the first words exactly if it is a filler of
them. -/
theorem mem_fillers_iff (hnodup : words.Nodup) (n : ℕ) (t : List α) :
    t ∈ fillers words n ↔ deletions del (words.take n) t = [] := by
  induction n generalizing t with
  | zero => exact Language.mem_one t
  | succ n ih =>
    refine ⟨deletions_take_succ_of_mem_fillers hdel hwords hnodup fun t => (ih t).mp, fun h => ?_⟩
    rw [deletions_take_succ] at h
    cases hs : words[n]? with
    | none =>
      rw [hs] at h
      exact mem_fillers_succ (.inl ((ih t).mpr h))
    | some s =>
      rw [hs] at h
      exact mem_fillers_succ_of_pass hdel hwords hs (fun t => (ih t).mpr) h

theorem mem_fillers_length_iff (hnodup : words.Nodup) (t : List α) :
    t ∈ fillers words words.length ↔ deletions del words t = [] := by
  rw [mem_fillers_iff hdel hwords hnodup, List.take_length]

/-! ## What is left over -/

/-- The word stands in the text with fillers between its letters, and not only
with such as are taken out in the passes before its own. -/
def LeftOver (words : List (List α)) (s t : List α) : Prop :=
  ∃ v, v <:+: t ∧ v ∈ around (fillers words words.length) s ∧
    ∀ n, words[n]? = some s → v ∉ around (fillers words n) s

/-- A word in brackets is left over, or not, as it stands in the text. -/
theorem infix_deletions_iff (hnodup : words.Nodup) (hs : Bracketed a b s) :
    s <:+: deletions del words t ↔ LeftOver words s t := by
  have hall := mem_fillers_length_iff hdel hwords hnodup
  constructor
  · rintro ⟨x, y, h⟩
    obtain ⟨u, ps, v, rfl, rfl, hgaps, hleft, -⟩ :=
      exists_around_of_deletions hdel hwords hs (h.symm.trans (List.append_assoc ..))
    refine ⟨a :: spaced ps, ⟨u, v, List.append_assoc ..⟩, ⟨a, ps, rfl, rfl, fun p hp => (hall _).mpr (hgaps p hp)⟩, ?_⟩
    intro n hn haround
    have hdeleted := deletions_take_succ_of_mem_around hdel hwords hnodup hn
      (fun t => (mem_fillers_iff hdel hwords hnodup n t).mp) haround
    have hdrop : ∀ s ∈ words.drop (n + 1), Bracketed a b s := fun s h => hwords s (List.mem_of_mem_drop h)
    rw [← List.take_append_drop (n + 1) words, deletions_append_words, hdeleted, deletions_nil hdel hdrop] at hleft
    cases hleft
  · rintro ⟨v, ⟨x, y, rfl⟩, ⟨c, ps, rfl, rfl, hgaps⟩, hnot⟩
    obtain rfl : c = a := Option.some.inj hs.head
    obtain hleft | ⟨n, hn, hgaps'⟩ := deletions_cons_spaced hdel hwords hs fun p hp => (hall _).mp (hgaps p hp)
    · rw [List.append_assoc, hleft]
      exact List.infix_append' ..
    · refine absurd ⟨c, ps, rfl, rfl, fun p hp => ?_⟩ (hnot n hn)
      exact (mem_fillers_iff hdel hwords hnodup n p.1).mpr (hgaps' p hp)

/-- Two words that are not among those deleted are left over, one behind the
other, as they stand in the text. -/
theorem infix_deletions_pair_iff (hnodup : words.Nodup) {s' : List α} (hs : Bracketed a b s) (hs' : Bracketed a b s')
    (hnot : s ∉ words) (hnot' : s' ∉ words) :
    (∃ y, s ++ y ++ s' <:+: deletions del words t) ↔ ∃ v y v', v ++ y ++ v' <:+: t ∧
      v ∈ around (fillers words words.length) s ∧ v' ∈ around (fillers words words.length) s' := by
  have hall := mem_fillers_length_iff hdel hwords hnodup
  constructor
  · rintro ⟨y, x, z, h⟩
    have h' : deletions del words t = x ++ (s ++ (y ++ (s' ++ z))) := by
      rw [← h]
      simp only [List.append_assoc]
    obtain ⟨u, ps, w, rfl, rfl, hgaps, -, -, hw⟩ := exists_around_of_deletions hdel hwords hs h'
    obtain ⟨u', ps', w', rfl, rfl, hgaps', -, -, -⟩ := exists_around_of_deletions hdel hwords hs' hw
    exact ⟨a :: spaced ps, u', a :: spaced ps', ⟨u, w', by simp only [List.append_assoc]⟩,
      ⟨a, ps, rfl, rfl, fun p hp => (hall _).mpr (hgaps p hp)⟩,
      ⟨a, ps', rfl, rfl, fun p hp => (hall _).mpr (hgaps' p hp)⟩⟩
  · rintro ⟨v, y, v', ⟨x, z, rfl⟩, ⟨c, ps, rfl, rfl, hgaps⟩, ⟨c', ps', rfl, rfl, hgaps'⟩⟩
    obtain rfl : c = a := Option.some.inj hs.head
    obtain rfl : c' = c := Option.some.inj hs'.head
    obtain hleft | ⟨n, hn, -⟩ := deletions_cons_spaced hdel hwords hs fun p hp => (hall _).mp (hgaps p hp)
    · obtain hleft' | ⟨n, hn, -⟩ := deletions_cons_spaced hdel hwords hs' fun p hp => (hall _).mp (hgaps' p hp)
      · refine ⟨deletions del words y, deletions del words x, deletions del words z, ?_⟩
        have h := hleft x (y ++ (c' :: spaced ps' ++ z))
        rw [hleft' y z] at h
        simp only [List.append_assoc] at h ⊢
        exact h.symm
      · exact absurd (List.mem_of_getElem? hn) hnot'
    · exact absurd (List.mem_of_getElem? hn) hnot

/-! ## Where two texts meet -/

/-- The text `x` ends in the beginning of the word and `y` begins with the rest
of it, with texts of `F` between the letters. -/
def SplitsAround (F : Language α) (s x y : List α) : Prop :=
  ∃ c ps g qs, qs ≠ [] ∧ s = c :: (letters ps ++ letters qs) ∧ c :: (spaced ps ++ g) <:+ x ∧ spaced qs <+: y ∧
    g ∈ F ∧ ∀ p ∈ ps ++ qs, p.1 ∈ F

/-- What is left of two texts splits a word as the texts do. -/
theorem splits_deletions_iff (hs : Bracketed a b s) : Splits s (deletions del words x) (deletions del words y) ↔
    SplitsAround {t | deletions del words t = []} s x y := by
  constructor
  · rintro ⟨s₁, s₂, h₁, h₂, rfl, ⟨x', hx⟩, ⟨y', hy⟩⟩
    obtain ⟨u, z, rfl, -, hz⟩ := deletions_exists_append hdel hwords hx.symm
    obtain ⟨z', w, rfl, hz', -⟩ := deletions_exists_append hdel hwords hy.symm
    obtain ⟨rs, g, rfl, rfl, hrs, hg⟩ := exists_spaced_of_deletions hdel hwords hz
    obtain ⟨qs, g', rfl, rfl, hqs, -⟩ := exists_spaced_of_deletions hdel hwords hz'
    cases rs with
    | nil => exact absurd rfl h₁
    | cons r ps =>
      rw [List.forall_mem_cons] at hrs
      refine ⟨r.2, ps, g, qs, fun h => h₂ (by rw [h]; rfl), rfl, ⟨u ++ r.1, ?_⟩, ⟨g' ++ w, ?_⟩, hg, ?_⟩
      · simp only [spaced_cons, List.append_assoc, List.cons_append]
      · rw [List.append_assoc]
      · exact List.forall_mem_append.mpr ⟨hrs.2, hqs⟩
  · rintro ⟨c, ps, g, qs, hqs, rfl, ⟨u, rfl⟩, ⟨w, rfl⟩, hg, hgaps⟩
    obtain rfl : c = a := Option.some.inj hs.head
    rw [List.forall_mem_append] at hgaps
    have hqs' : letters qs ≠ [] := fun h => hqs (List.map_eq_nil_iff.mp h)
    have hsplit : c :: (letters ps ++ letters qs) = (c :: letters ps) ++ letters qs := rfl
    have ha := hs.not_mem_of_append hsplit (List.cons_ne_nil _ _)
    have hb := hs.not_mem_of_append' hsplit hqs'
    have ha' : c ∉ letters ps := fun h => hs.head_once (List.mem_append_left _ h)
    rw [List.mem_cons, not_or] at hb
    rw [deletions_append_open_spaced hdel hwords ha' hb.2 hgaps.1 hg, deletions_spaced_append hdel hwords ha hgaps.2]
    exact ⟨c :: letters ps, letters qs, List.cons_ne_nil _ _, hqs', rfl, List.suffix_append _ _, List.prefix_append _ _⟩

/-- Two texts split a word in some pass exactly if they split it with fillers
of the words before it. -/
theorem splitsOne_iff (hnodup : words.Nodup) :
    SplitsOne del words x y ↔ ∃ n s, words[n]? = some s ∧ SplitsAround (fillers words n) s x y := by
  refine exists_congr fun n => exists_congr fun s => and_congr_right fun hs => ?_
  have htake := bracketed_take hwords n
  have heq : fillers words n = {t | deletions del (words.take n) t = []} :=
    Language.ext fun t => mem_fillers_iff hdel hwords hnodup n t
  rw [splits_deletions_iff hdel htake (hwords s (List.mem_of_getElem? hs)), heq]

end Passes

end SynapsNotes.Framework
