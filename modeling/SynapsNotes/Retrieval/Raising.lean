import SynapsNotes.Framework.Raised
import SynapsNotes.Retrieval.Arrival
import SynapsNotes.Retrieval.Duplicates

/-!
# A candidate with a better score

A candidate whose score is raised moves to the front of the ranking past some
of the others (`Raised`). If it was selected, it is selected again
(`mem_selected_of_raised`): it meets the loop earlier, with no less room and no
fewer places for its document, unless what is taken before the loop changes;
that changes only where the candidate itself becomes the best of its kind, and
then it is taken with the others or first of all.
-/

namespace SynapsNotes.Retrieval

open Framework FloatLike Selection

variable {α : Type}

/-- The candidate with another score. -/
def ScoredCandidate.withScore (c : ScoredCandidate α) (score : α) : ScoredCandidate α := { c with fusedScore := score }

namespace Selection

variable {profile : RAGRetrievalProfile} {s : Selection α} {c x : ScoredCandidate α} {score : α}
  {cs ds front passed back : List (ScoredCandidate α)}

/-! ## The loop -/

theorem skips_withScore : s.skips profile (x.withScore score) = s.skips profile x := rfl

/-- What is not passed over in the end never was. -/
theorem skips_of_skips_fill (h : (fill profile cs s).skips profile c = false) : s.skips profile c = false := by
  by_contra hskip
  have hkept : (fill profile cs s).skips profile c = true :=
    fill_invariant (I := fun t => t.skips profile c = true) (by simpa using hskip) fun t d _ ht => skips_offer ht d
  exact Bool.false_ne_true (h.symm.trans hkept)

/-- There is room for what the loop takes, and it is not passed over. -/
theorem room_of_mem_fill (hs : x ∉ s.selected) (hcs : x ∉ cs) (hds : x ∉ ds)
    (h : x ∈ (fill profile (cs ++ x :: ds) s).selected) :
    (fill profile cs s).selected.length < profile.maxResults ∧ (fill profile cs s).skips profile x = false := by
  have hnot : x ∉ (fill profile cs s).selected := fun h => (mem_of_mem_fill h).elim hs hcs
  rw [fill_append] at h
  by_cases hroom : (fill profile cs s).selected.length < profile.maxResults
  · refine ⟨hroom, Bool.eq_false_iff.mpr fun hskip => ?_⟩
    rw [fill, if_pos hroom, offer, if_pos hskip] at h
    exact (mem_of_mem_fill h).elim hnot hds
  · rw [fill_of_full hroom] at h
    exact absurd h hnot

/-- With room for it, what is not passed over is taken. -/
theorem mem_fill_of_room (cs : List (ScoredCandidate α))
    (hroom : (fill profile cs s).selected.length < profile.maxResults)
    (hskip : (fill profile cs s).skips profile x = false) : x ∈ (fill profile (cs ++ x :: ds) s).selected := by
  rw [fill_append, fill, if_pos hroom]
  refine (prefix_fill profile ds _).subset ?_
  obtain ⟨hskip', -⟩ | ⟨-, he, -⟩ := offer_cases profile (fill profile cs s) x
  · exact absurd (hskip.symm.trans hskip') Bool.false_ne_true
  · rw [he]
    exact List.mem_append_right _ (List.mem_singleton_self x)

/-- What the loop takes, it takes when it comes earlier. -/
theorem mem_fill_withScore (hs : x ∉ s.selected) (hfront : x ∉ front) (hpassed : x ∉ passed) (hback : x ∉ back)
    (h : x ∈ (fill profile (front ++ (passed ++ x :: back)) s).selected) :
    x.withScore score ∈ (fill profile (front ++ x.withScore score :: (passed ++ back)) s).selected := by
  rw [← List.append_assoc] at h
  obtain ⟨hroom, hskip⟩ := room_of_mem_fill hs (fun hx => (List.mem_append.mp hx).elim hfront hpassed) hback h
  rw [fill_append] at hroom hskip
  refine mem_fill_of_room front ?_ ?_
  · exact (prefix_fill profile passed _).length_le.trans_lt hroom
  · rw [skips_withScore]
    exact skips_of_skips_fill hskip

end Selection

/-! ## The first of a kind -/

section Find

variable {p : ScoredCandidate α → Bool} {x x' c : ScoredCandidate α} {front passed back : List (ScoredCandidate α)}

theorem find?_raised_of_neg (hx : p x = false) (hx' : p x' = false) :
    (front ++ x' :: (passed ++ back)).find? p = (front ++ (passed ++ x :: back)).find? p := by
  rw [List.find?_append, List.find?_append, List.find?_cons_of_neg (by simp [hx']), List.find?_append,
    List.find?_append, List.find?_cons_of_neg (by simp [hx])]

theorem find?_of_front {ds : List (ScoredCandidate α)} (h : front.find? p = some c) :
    (front ++ ds).find? p = some c := by
  rw [List.find?_append, h, Option.some_or]

theorem find?_raised_of_front_none (passed back : List (ScoredCandidate α)) (h : front.find? p = none) (hx' : p x') :
    (front ++ x' :: (passed ++ back)).find? p = some x' := by
  rw [List.find?_append, h, Option.none_or, List.find?_cons_of_pos hx']

/-- The best note stays where a chunk is raised. -/
theorem find?_note_raised {score : α} (hchunk : x.source.isNote = false) :
    (front ++ x.withScore score :: (passed ++ back)).find? (·.source.isNote) =
      (front ++ (passed ++ x :: back)).find? (·.source.isNote) :=
  have hchunk' : (x.withScore score).source.isNote = false := hchunk
  find?_raised_of_neg hchunk hchunk'

end Find

/-! ## The selection -/

/-- Sums and differences follow the order of their terms, as they do in exact
arithmetic and under any rounding that does. -/
class MonotoneArithmetic (α : Type) [FloatLike α] : Prop where
  add_mono (a : α) {b c : α} : b ≤ c → a + b ≤ a + c
  sub_mono (a : α) {b c : α} : b ≤ c → a - c ≤ a - b
  sub_self (a : α) : a - a = lit 0

instance : MonotoneArithmetic ℚ where
  add_mono a _ _ h := add_le_add_right h a
  sub_mono a _ _ h := sub_le_sub_left h a
  sub_self a := sub_self a

section Selected

variable [FloatLike α] {profile : RAGRetrievalProfile} {candidates : List (ScoredCandidate α)}
  {note chunk best x : ScoredCandidate α} {score : α} {front passed back : List (ScoredCandidate α)}

/-- Further below the note the gap is no smaller. -/
theorem scoreGap_le [MonotoneArithmetic α] (hbelow : best.fusedScore ≤ note.fusedScore)
    (hle : chunk.fusedScore ≤ best.fusedScore) : scoreGap note best ≤ scoreGap note chunk := by
  have hsub := MonotoneArithmetic.sub_mono note.fusedScore hle
  have hnonneg := MonotoneArithmetic.sub_mono note.fusedScore hbelow
  rw [MonotoneArithmetic.sub_self] at hnonneg
  rw [scoreGap, scoreGap, FloatLike.abs, FloatLike.abs, if_neg hnonneg.not_gt, if_neg (hnonneg.trans hsub).not_gt]
  exact hsub

/-- What is taken before the loop is the best of its kind. -/
theorem find?_of_mem_seed (h : x ∈ (seed profile candidates).selected) :
    candidates.find? (·.source.isNote) = some x ∨ candidates.find? (!·.source.isNote) = some x := by
  obtain he | ⟨chunk, hc, -, he⟩ | ⟨note, hn, -, he⟩ | ⟨note, hn, chunk, hc, -, he⟩ := seed_cases profile candidates
  · rw [he] at h
    cases h
  · rw [he, setCount_selected] at h
    rw [List.mem_singleton.mp h]
    exact .inr hc
  · rw [he] at h
    rw [List.mem_singleton.mp h]
    exact .inl hn
  · rw [he, setCount_selected] at h
    rcases List.mem_pair.mp h with rfl | rfl
    · exact .inl hn
    · exact .inr hc

theorem seed_eq_of_find? {candidates' : List (ScoredCandidate α)}
    (hn : candidates'.find? (·.source.isNote) = candidates.find? (·.source.isNote))
    (hc : candidates'.find? (!·.source.isNote) = candidates.find? (!·.source.isNote)) :
    seed profile candidates' = seed profile candidates := by
  unfold seed
  rw [hn, hc]

/-- The candidates without the raised one, and with it at the front of them. -/
structure Raising (x : ScoredCandidate α) (score : α) (front passed back : List (ScoredCandidate α)) : Prop where
  le : x.fusedScore ≤ score
  descending : Descending (front ++ x.withScore score :: (passed ++ back))
  not_mem_front : x ∉ front
  not_mem_passed : x ∉ passed
  not_mem_back : x ∉ back
  fingerprint_ne : ∀ c ∈ front ++ (passed ++ back), c.fingerprint ≠ x.fingerprint

/-- With the same start the loop takes the raised candidate. -/
theorem Raising.mem_of_seed_eq (h : Raising x score front passed back)
    (hseed : seed profile (front ++ x.withScore score :: (passed ++ back)) =
      seed profile (front ++ (passed ++ x :: back)))
    (hx : x ∉ (seed profile (front ++ (passed ++ x :: back))).selected)
    (hmem : x ∈ diversifyAndBalance (front ++ (passed ++ x :: back)) profile) :
    x.withScore score ∈ diversifyAndBalance (front ++ x.withScore score :: (passed ++ back)) profile := by
  rw [diversifyAndBalance_eq (by simp)] at hmem ⊢
  rw [hseed]
  exact mem_fill_withScore hx h.not_mem_front h.not_mem_passed h.not_mem_back hmem

theorem mem_of_mem_seed_selected (hne : candidates ≠ []) (h : x ∈ (seed profile candidates).selected) :
    x ∈ diversifyAndBalance candidates profile := by
  rw [diversifyAndBalance_eq hne]
  exact (prefix_fill profile candidates _).subset h

/-- A note that is raised stays the best note, becomes it, or is met earlier. -/
theorem Raising.mem_note (h : Raising x score front passed back) (hnote : x.source.isNote)
    (hmem : x ∈ diversifyAndBalance (front ++ (passed ++ x :: back)) profile) :
    x.withScore score ∈ diversifyAndBalance (front ++ x.withScore score :: (passed ++ back)) profile := by
  have hnote' : (x.withScore score).source.isNote := hnote
  have hchunk : (front ++ x.withScore score :: (passed ++ back)).find? (!·.source.isNote) =
      (front ++ (passed ++ x :: back)).find? (!·.source.isNote) :=
    find?_raised_of_neg (by simp [hnote]) (by simp [hnote'])
  cases hf : front.find? (·.source.isNote) with
  | none =>
    refine mem_of_mem_seed_selected (by simp) (List.mem_of_head? ?_)
    rw [head_seed, find?_raised_of_front_none passed back hf hnote', Option.some_or]
  | some note =>
    refine h.mem_of_seed_eq (seed_eq_of_find? ?_ hchunk) (fun hx => ?_) hmem
    · rw [find?_of_front hf, find?_of_front hf]
    · rcases find?_of_mem_seed hx with hx | hx
      · rw [find?_of_front hf] at hx
        exact h.not_mem_front (Option.some.inj hx ▸ List.mem_of_find?_eq_some hf)
      · have := List.find?_some hx
        simp [hnote] at this

/-- Where no chunk stands before the raised one, none has a better score. -/
theorem Raising.le_of_find?_chunk (h : Raising x score front passed back)
    (hf : front.find? (!·.source.isNote) = none)
    (hc : (front ++ (passed ++ x :: back)).find? (!·.source.isNote) = some chunk) : chunk.fusedScore ≤ score := by
  rw [List.find?_append, hf, Option.none_or] at hc
  have hafter := (List.pairwise_cons.mp (List.pairwise_append.mp h.descending).2.1).1
  rcases List.mem_append.mp (List.mem_of_find?_eq_some hc) with hc | hc
  · exact hafter chunk (List.mem_append_left _ hc)
  · rcases List.mem_cons.mp hc with rfl | hc
    · exact h.le
    · exact hafter chunk (List.mem_append_right _ hc)

/-- Where no chunk stands before the raised one and it is above the best note,
nothing stands before it. -/
theorem Raising.front_eq_nil (h : Raising x score front passed back)
    (hf : front.find? (!·.source.isNote) = none)
    (hn : (front ++ x.withScore score :: (passed ++ back)).find? (·.source.isNote) = some note)
    (hlt : note.fusedScore < score) : front = [] := by
  cases front with
  | nil => rfl
  | cons first front =>
    have hnote : first.source.isNote := by simpa using List.find?_eq_none.mp hf first List.mem_cons_self
    have hle : first.fusedScore ≤ note.fusedScore := le_of_find? h.descending hn (by simp) hnote
    have hscore : score ≤ first.fusedScore :=
      (List.pairwise_append.mp h.descending).2.2 first List.mem_cons_self _ List.mem_cons_self
    exact absurd (hscore.trans hle) (not_le.mpr hlt)

/-- A chunk that becomes the best one, below the best note and not close to it:
the best chunk was no better and is as far from the note, so that the loop
begins with the note alone as before. -/
theorem Raising.mem_chunk_below [MonotoneArithmetic α] (h : Raising x score front passed back)
    (hchunk : x.source.isNote = false) (hf : front.find? (!·.source.isNote) = none)
    (hn : (front ++ x.withScore score :: (passed ++ back)).find? (·.source.isNote) = some note)
    (hseed : seed profile (front ++ x.withScore score :: (passed ++ back)) = Selection.empty.select note)
    (hgap : ¬ scoreGap note (x.withScore score) ≤ lit 0.18) (hle : score ≤ note.fusedScore)
    (hmem : x ∈ diversifyAndBalance (front ++ (passed ++ x :: back)) profile) :
    x.withScore score ∈ diversifyAndBalance (front ++ x.withScore score :: (passed ++ back)) profile := by
  have hsome : ((front ++ (passed ++ x :: back)).find? (!·.source.isNote)).isSome := by
    rw [List.find?_isSome]
    exact ⟨x, by simp, by simp [hchunk]⟩
  obtain ⟨c, hc⟩ := Option.isSome_iff_exists.mp hsome
  have hcle : c.fusedScore ≤ score := h.le_of_find?_chunk hf hc
  have hcgap : ¬ scoreGap note c ≤ lit 0.18 := fun hclose =>
    hgap ((show scoreGap note (x.withScore score) ≤ scoreGap note c from scoreGap_le hle hcle).trans hclose)
  have hold : seed profile (front ++ (passed ++ x :: back)) = Selection.empty.select note :=
    seed_of_far (find?_note_raised hchunk ▸ hn) fun ch hch => by rwa [Option.some.inj (hch.symm.trans hc)]
  refine h.mem_of_seed_eq (hseed.trans hold.symm) (fun hx => ?_) hmem
  have hnote : note.source.isNote := by simpa using List.find?_some hn
  rw [hold] at hx
  rw [← List.mem_singleton.mp hx, hchunk] at hnote
  exact absurd hnote Bool.false_ne_true

/-- A chunk that is raised above the best note is first of all, and met right
behind the note. -/
theorem Raising.mem_chunk_above (h : Raising x score front passed back)
    (hchunk : x.source.isNote = false) (hf : front.find? (!·.source.isNote) = none)
    (hn : (front ++ x.withScore score :: (passed ++ back)).find? (·.source.isNote) = some note)
    (hseed : seed profile (front ++ x.withScore score :: (passed ++ back)) = Selection.empty.select note)
    (hlt : note.fusedScore < score) :
    x.withScore score ∈ diversifyAndBalance (front ++ x.withScore score :: (passed ++ back)) profile := by
  have hchunk' : (x.withScore score).source.isNote = false := hchunk
  have hnote : note.source.isNote := by simpa using List.find?_some hn
  obtain rfl : front = [] := h.front_eq_nil hf hn hlt
  have hne : note ≠ x.withScore score := fun heq => by
    rw [heq, hchunk'] at hnote
    exact absurd hnote Bool.false_ne_true
  have hmemnote : note ∈ [] ++ (passed ++ back) :=
    (List.mem_cons.mp (List.mem_of_find?_eq_some hn)).resolve_left hne
  rw [diversifyAndBalance_eq (by simp), hseed]
  refine mem_fill_of_room [] profile.two_le_maxResults ?_
  exact skips_beside_note hnote hchunk' (h.fingerprint_ne note hmemnote).symm

/-- A chunk that is raised stays the best chunk, becomes it, or is met earlier.
As the best chunk it is close to the best note, first of all, or below the
note, where the best chunk was not taken with the note either. -/
theorem Raising.mem_chunk [MonotoneArithmetic α] (h : Raising x score front passed back)
    (hchunk : x.source.isNote = false)
    (hmem : x ∈ diversifyAndBalance (front ++ (passed ++ x :: back)) profile) :
    x.withScore score ∈ diversifyAndBalance (front ++ x.withScore score :: (passed ++ back)) profile := by
  have hchunk' : (x.withScore score).source.isNote = false := hchunk
  cases hf : front.find? (!·.source.isNote) with
  | some first =>
    have hfirst := List.mem_of_find?_eq_some hf
    refine h.mem_of_seed_eq (seed_eq_of_find? (find?_note_raised hchunk) ?_) (fun hx => ?_) hmem
    · rw [find?_of_front hf, find?_of_front hf]
    · rcases find?_of_mem_seed hx with hx | hx
      · have := List.find?_some hx
        simp [hchunk] at this
      · rw [find?_of_front hf] at hx
        exact h.not_mem_front (Option.some.inj hx ▸ hfirst)
  | none =>
    have hbest : (front ++ x.withScore score :: (passed ++ back)).find? (!·.source.isNote) =
        some (x.withScore score) := find?_raised_of_front_none passed back hf (by simp [hchunk'])
    cases hn : (front ++ x.withScore score :: (passed ++ back)).find? (·.source.isNote) with
    | none =>
      refine mem_of_mem_seed_selected (by simp) (List.mem_of_head? ?_)
      rw [head_seed, hn, Option.none_or, hbest]
    | some note =>
      by_cases hgap : scoreGap note (x.withScore score) ≤ lit 0.18
      · refine mem_of_mem_seed_selected (by simp) ?_
        rw [seed_of_close hn hbest hgap]
        exact List.mem_pair.mpr (.inr rfl)
      · have hseed : seed profile (front ++ x.withScore score :: (passed ++ back)) = Selection.empty.select note :=
          seed_of_far hn fun c hc => by rwa [Option.some.inj (hc.symm.trans hbest)]
        by_cases hle : score ≤ note.fusedScore
        · exact h.mem_chunk_below hchunk hf hn hseed hgap hle hmem
        · exact h.mem_chunk_above hchunk hf hn hseed (not_le.mp hle)

/-- A raised candidate is still selected. -/
theorem Raising.mem_diversifyAndBalance [MonotoneArithmetic α] (h : Raising x score front passed back)
    (hmem : x ∈ diversifyAndBalance (front ++ (passed ++ x :: back)) profile) :
    x.withScore score ∈ diversifyAndBalance (front ++ x.withScore score :: (passed ++ back)) profile := by
  cases hkind : x.source.isNote with
  | true => exact h.mem_note hkind hmem
  | false => exact h.mem_chunk hkind hmem

/-! ## The ranking -/

theorem passes_withScore (hle : x.fusedScore ≤ score) (h : passes profile x) : passes profile (x.withScore score) :=
  decide_eq_true ((of_decide_eq_true h : x.fusedScore ≥ _).trans hle)

theorem dismissed_withScore (hle : x.fusedScore ≤ score) (h : dismissed profile x = false) :
    dismissed profile (x.withScore score) = false := by
  by_contra hdismissed
  rw [Bool.not_eq_false, dismissed, Bool.and_eq_true] at hdismissed
  obtain ⟨hlow, hweak⟩ := hdismissed
  have hlow' : decide (x.fusedScore < profile.minimumFusedScore * lit 0.75) = true :=
    decide_eq_true (hle.trans_lt (of_decide_eq_true hlow))
  rw [dismissed, hlow', Bool.true_and] at h
  exact Bool.false_ne_true (h.symm.trans hweak)

theorem activeOf_singleton_of_passes {ranked : List (ScoredCandidate α)} (hd : Descending (x :: ranked))
    (hx : passes profile x) (h : ranked.countP (passes profile) = 0) : activeOf profile (x :: ranked) = [x] := by
  have hcount : activeCount profile (x :: ranked) = 1 := by
    have := maxCandidates_pos profile
    rw [activeCount, List.countP_cons_of_pos hx, h]
    omega
  rw [activeOf_of_pos hd (by omega), hcount]
  rfl

/-- Of the ranked candidates, an active one stays active when it is raised. -/
theorem raised_activeOf (hle : x.fusedScore ≤ score) (hfront : x ∉ front) (hpassed : x ∉ passed)
    (hd : Descending (front ++ (passed ++ x :: back)))
    (hd' : Descending (front ++ x.withScore score :: (passed ++ back)))
    (hmem : x ∈ activeOf profile (front ++ (passed ++ x :: back))) :
    Raised x (x.withScore score) (activeOf profile (front ++ (passed ++ x :: back)))
      (activeOf profile (front ++ x.withScore score :: (passed ++ back))) := by
  obtain hzero | hpos := Nat.eq_zero_or_pos (activeCount profile (front ++ (passed ++ x :: back)))
  · -- the candidate is the best, and the only one
    have hnone : (front ++ (passed ++ x :: back)).countP (passes profile) = 0 := by
      have := maxCandidates_pos profile
      rw [activeCount] at hzero
      omega
    rw [activeOf_of_zero hzero, List.mem_filter] at hmem
    obtain ⟨hhead, hkept⟩ := hmem
    rw [Option.mem_toList] at hhead
    have hkept : dismissed profile x = false := by simpa using hkept
    obtain rfl : front = [] := by
      cases front with
      | nil => rfl
      | cons first front =>
        cases hhead
        exact absurd List.mem_cons_self hfront
    obtain rfl : passed = [] := by
      cases passed with
      | nil => rfl
      | cons first passed =>
        cases hhead
        exact absurd List.mem_cons_self hpassed
    rw [List.nil_append, List.nil_append, List.countP_cons] at hnone
    refine ⟨[], [], [], ?_, ?_⟩
    · rw [activeOf_of_zero hzero]
      simp [hkept]
    · cases hpasses : passes profile (x.withScore score) with
      | true => exact activeOf_singleton_of_passes hd' hpasses (Nat.eq_zero_of_add_eq_zero_right hnone)
      | false =>
        have hzero' : activeCount profile ([] ++ x.withScore score :: ([] ++ back)) = 0 := by
          rw [activeCount, List.nil_append, List.countP_cons_of_neg (by simp [hpasses]), List.nil_append,
            Nat.eq_zero_of_add_eq_zero_right hnone, Nat.min_zero]
        rw [activeOf_of_zero hzero']
        simp [dismissed_withScore hle hkept]
  · have htake := activeOf_of_pos hd hpos
    have hpasses : passes profile x := by
      rw [htake, activeCount, ← filter_take_of_descending hd] at hmem
      exact (List.mem_filter.mp hmem).2
    have hcount : activeCount profile (front ++ x.withScore score :: (passed ++ back)) =
        activeCount profile (front ++ (passed ++ x :: back)) := by
      rw [activeCount, activeCount]
      simp only [List.countP_append, List.countP_cons, hpasses, passes_withScore hle hpasses]
      congr 1
    have hlt : front.length + passed.length < activeCount profile (front ++ (passed ++ x :: back)) := by
      by_contra hge
      have hshort : activeCount profile (front ++ (passed ++ x :: back)) ≤ (front ++ passed).length := by
        rw [List.length_append]
        omega
      generalize activeCount profile (front ++ (passed ++ x :: back)) = n at htake hshort
      rw [htake, ← List.append_assoc, List.take_append_of_le_length hshort] at hmem
      exact (List.mem_append.mp (List.mem_of_mem_take hmem)).elim hfront hpassed
    obtain ⟨back', heq, heq'⟩ := Raised.take x (x.withScore score) back hlt
    rw [htake, activeOf_of_pos hd' (hcount ▸ hpos), hcount]
    exact ⟨front, passed, back', heq, heq'⟩

/-- Where the texts differ, raising a candidate leaves the others as they are. -/
theorem raising_of_nodup (hle : x.fusedScore ≤ score)
    (hd' : Descending (front ++ x.withScore score :: (passed ++ back)))
    (hfp : ((front ++ (passed ++ x :: back)).map ScoredCandidate.fingerprint).Nodup) :
    Raising x score front passed back := by
  have hne : ∀ c ∈ front ++ (passed ++ back), c.fingerprint ≠ x.fingerprint := by
    have hperm : (front ++ (passed ++ x :: back)).Perm (x :: (front ++ (passed ++ back))) := by
      rw [← List.append_assoc, ← List.append_assoc]
      exact List.perm_middle
    rw [(hperm.map _).nodup_iff, List.map_cons, List.nodup_cons] at hfp
    exact fun c hc heq => hfp.1 (heq ▸ List.mem_map_of_mem hc)
  refine ⟨hle, hd', fun hx => hne x ?_ rfl, fun hx => hne x ?_ rfl, fun hx => hne x ?_ rfl, hne⟩
  · exact List.mem_append_left _ hx
  · exact List.mem_append_right _ (List.mem_append_left _ hx)
  · exact List.mem_append_right _ (List.mem_append_right _ hx)

/-- Of all candidates, one that is selected is still selected when its score
is raised. -/
theorem mem_selected_of_raised [MonotoneArithmetic α] {before behind : List (ScoredCandidate α)}
    (hle : x.fusedScore ≤ score)
    (hfp : ((before ++ x :: behind).map ScoredCandidate.fingerprint).Nodup)
    (hmem : x ∈ diversifyAndBalance (activeCandidates profile (before ++ x :: behind)) profile) :
    x.withScore score ∈
      diversifyAndBalance (activeCandidates profile (before ++ x.withScore score :: behind)) profile := by
  have hrank : rank (x.withScore score) ≤ rank x :=
    OrderDual.toDual_le_toDual.mpr (Prod.Lex.toLex_mono ⟨hle, le_refl x.lexicalScore⟩)
  obtain ⟨front, passed, back, hranked, hranked'⟩ := raised_sortOn hrank before behind
  have hd := descending_sortedBy_ranksBefore (before ++ x :: behind)
  have hd' := descending_sortedBy_ranksBefore (before ++ x.withScore score :: behind)
  have hsorted : ((sortOn rank (before ++ x :: behind)).map ScoredCandidate.fingerprint).Nodup :=
    ((sortOn_perm _ _).map _).nodup_iff.mpr hfp
  have hactive := activeCandidates_sublist profile (before ++ x :: behind)
  have hactive' := descending_activeCandidates profile (before ++ x.withScore score :: behind)
  rw [activeCandidates_eq, sortedBy_ranksBefore] at hmem hactive hactive' ⊢
  rw [sortedBy_ranksBefore] at hd hd'
  rw [hranked] at hmem hactive hsorted hd
  rw [hranked'] at hactive' hd' ⊢
  have hraising := raising_of_nodup hle hd' hsorted
  obtain ⟨front₂, passed₂, back₂, heq, heq'⟩ := raised_activeOf hle hraising.not_mem_front hraising.not_mem_passed hd
    hd' (mem_of_mem_diversifyAndBalance hmem)
  rw [heq] at hmem hactive
  rw [heq'] at hactive' ⊢
  exact (raising_of_nodup hle hactive' ((hactive.map _).nodup hsorted)).mem_diversifyAndBalance hmem

end Selected

end SynapsNotes.Retrieval
