import SynapsNotes.Framework.Ties
import SynapsNotes.Retrieval.Pipeline

/-!
# Selection from groups of ties

The ranked candidates as a list of groups, each of which may come in any
order. The selection does not depend on the orders exactly if they are
`Settled`: the best note, and the best chunk where it is taken at once, have no
rival in their group, and whenever the loop comes to a group, at most one
candidate of it can be taken, and is not lost to the cut.

`fill_shuffled` and `loopSettled_of_ordered` say so of the loop,
`find?_shuffled` and `firstSettled_of_find?` of the first candidate of a kind,
and `outcome_settled_iff` of all that is returned.
-/

namespace SynapsNotes.Retrieval

open Framework FloatLike

variable {α : Type}

/-- The candidates of a group are one. -/
def AllSame (group : List (ScoredCandidate α)) : Prop := ∀ a ∈ group, ∀ b ∈ group, a = b

/-! ## The loop -/

namespace Selection

/-- At most one candidate of the group can be taken, and not so many others
are passed over that the cut could leave it out. -/
def GroupSettled (profile : RAGRetrievalProfile) (n : ℕ) (s : Selection α) (group : List (ScoredCandidate α)) : Prop :=
  s.selected.length < profile.maxResults → 0 < n →
    (∀ a ∈ group, ∀ b ∈ group, s.skips profile a = false → s.skips profile b = false → a = b) ∧
      ((∃ a ∈ group, s.skips profile a = false) → group.countP (s.skips profile) < n)

/-- Each group is settled when the loop comes to it, with `n` places left
before the cut. -/
def LoopSettled (profile : RAGRetrievalProfile) : ℕ → Selection α → List (List (ScoredCandidate α)) → Prop
  | _, _, [] => True
  | n, s, group :: groups =>
    GroupSettled profile n s group ∧ LoopSettled profile (n - group.length) (fill profile (group.take n) s) groups

variable {profile : RAGRetrievalProfile} {s t : Selection α} {a c : ScoredCandidate α} {n : ℕ}
  {group group' cs : List (ScoredCandidate α)} {groups groups' : List (List (ScoredCandidate α))}

theorem fill_of_full (h : ¬ s.selected.length < profile.maxResults) : fill profile cs s = s := by
  cases cs with
  | nil => rfl
  | cons c cs => rw [fill, if_neg h]

theorem fill_append (cs ds : List (ScoredCandidate α)) (s : Selection α) :
    fill profile (cs ++ ds) s = fill profile ds (fill profile cs s) := by
  induction cs generalizing s with
  | nil => rfl
  | cons c cs ih =>
    by_cases hroom : s.selected.length < profile.maxResults
    · rw [List.cons_append, fill, fill, if_pos hroom, if_pos hroom, ih]
    · rw [fill_of_full hroom, fill_of_full hroom, fill_of_full hroom]

/-- The groups, one after another. -/
theorem fill_flatten_cons (profile : RAGRetrievalProfile) (n : ℕ) (s : Selection α)
    (group : List (ScoredCandidate α)) (groups : List (List (ScoredCandidate α))) :
    fill profile ((group :: groups).flatten.take n) s =
      fill profile (groups.flatten.take (n - group.length)) (fill profile (group.take n) s) := by
  rw [List.flatten_cons, List.take_append, fill_append]

theorem sameSource_self (c : ScoredCandidate α) : sameSource c c = true := by
  unfold sameSource
  cases c.source <;> simp

theorem count_le_setCount (s : Selection α) (documentId : Option UUID) (id : UUID) :
    s.chunkPerDocumentCount id ≤
      (s.setCount documentId fun id => s.chunkPerDocumentCount id + 1).chunkPerDocumentCount id := by
  cases documentId with
  | none => exact le_rfl
  | some other =>
    simp only [setCount]
    by_cases h : id = other
    · rw [h, Function.update_self]
      exact Nat.le_succ _
    · rw [Function.update_of_ne h]

theorem count_le_offer (s : Selection α) (a : ScoredCandidate α) (id : UUID) :
    s.chunkPerDocumentCount id ≤ (s.offer profile a).chunkPerDocumentCount id := by
  unfold offer
  split
  · exact le_rfl
  · split
    · exact le_rfl
    · exact count_le_setCount (s.select a) a.documentId id

/-- What is passed over stays so. -/
theorem skips_offer (h : s.skips profile c = true) (a : ScoredCandidate α) :
    (s.offer profile a).skips profile c = true := by
  obtain ⟨-, hsame⟩ | ⟨-, hselected, hfingerprints⟩ := offer_cases profile s a
  · rwa [hsame]
  · rw [skips, Bool.or_eq_true, Bool.or_eq_true] at h ⊢
    rw [hselected, hfingerprints]
    rcases h with (hany | hmem) | hcount
    · left; left
      rw [List.any_append, hany, Bool.true_or]
    · left; right
      exact decide_eq_true (Finset.mem_insert_of_mem (of_decide_eq_true hmem))
    · right
      obtain ⟨hchunk, hcount⟩ := Bool.and_eq_true_iff.mp hcount
      obtain ⟨id, hid, hle⟩ := (Option.any_eq_true _ _).mp hcount
      refine Bool.and_eq_true_iff.mpr ⟨hchunk, (Option.any_eq_true _ _).mpr ⟨id, hid, ?_⟩⟩
      exact decide_eq_true ((of_decide_eq_true hle).trans (count_le_offer s a id))

/-- What has been taken is passed over. -/
theorem skips_offer_self (h : s.skips profile a = false) : (s.offer profile a).skips profile a = true := by
  obtain ⟨hskip, -⟩ | ⟨-, hsel, -⟩ := offer_cases profile s a
  · rw [h] at hskip
    exact nomatch hskip
  · rw [skips, hsel, List.any_append, List.any_cons, sameSource_self]
    simp

/-- Nothing is taken of what is all passed over. -/
theorem fill_of_skips (h : ∀ c ∈ cs, s.skips profile c = true) : fill profile cs s = s := by
  induction cs with
  | nil => rfl
  | cons c cs ih =>
    by_cases hroom : s.selected.length < profile.maxResults
    · rw [fill, if_pos hroom, offer, if_pos (h c List.mem_cons_self)]
      exact ih fun d hd => h d (List.mem_cons_of_mem _ hd)
    · exact fill_of_full hroom

/-- The one candidate that can be taken is taken. -/
theorem fill_of_forced (hroom : s.selected.length < profile.maxResults) (ha : s.skips profile a = false)
    (hmem : a ∈ cs) (honly : ∀ c ∈ cs, s.skips profile c = false → c = a) :
    fill profile cs s = s.offer profile a := by
  induction cs with
  | nil => exact nomatch hmem
  | cons c cs ih =>
    rw [fill, if_pos hroom]
    have htail : ∀ d ∈ cs, s.skips profile d = false → d = a := fun d hd => honly d (List.mem_cons_of_mem _ hd)
    cases hc : s.skips profile c with
    | true =>
      have hne : a ≠ c := by
        rintro rfl
        rw [ha] at hc
        cases hc
      rw [offer, if_pos hc]
      exact ih ((List.mem_cons.mp hmem).resolve_left hne) htail
    | false =>
      obtain rfl := honly c List.mem_cons_self hc
      refine fill_of_skips fun d hd => ?_
      cases hd' : s.skips profile d with
      | true => exact skips_offer hd' c
      | false =>
        rw [htail d hd hd']
        exact skips_offer_self ha

/-- A settled group may come in any order. -/
theorem GroupSettled.fill_perm (h : GroupSettled profile n s group) (hp : group.Perm group') :
    fill profile (group'.take n) s = fill profile (group.take n) s := by
  by_cases hroom : s.selected.length < profile.maxResults
  · rcases Nat.eq_zero_or_pos n with rfl | hn
    · rw [List.take_zero, List.take_zero]
    · obtain ⟨honly, hcut⟩ := h hroom hn
      by_cases hopen : ∃ a ∈ group, s.skips profile a = false
      · obtain ⟨a, ha, haopen⟩ := hopen
        -- too few are passed over to fill the places before the cut
        have hforced : ∀ l, group.Perm l → fill profile (l.take n) s = s.offer profile a := by
          intro l hl
          have hlonly : ∀ c ∈ l, s.skips profile c = false → c = a := fun c hc hcopen =>
            honly c (hl.mem_iff.mpr hc) a ha hcopen haopen
          refine fill_of_forced hroom haopen ?_ fun c hc => hlonly c (List.mem_of_mem_take hc)
          by_contra hnot
          have hall : ∀ c ∈ l.take n, s.skips profile c = true := fun c hc => by
            by_contra hopen
            obtain rfl := hlonly c (List.mem_of_mem_take hc) (Bool.not_eq_true _ ▸ hopen)
            exact hnot hc
          have hcount : min n l.length < n := by
            rw [← List.length_take, ← List.countP_eq_length.mpr hall]
            calc (l.take n).countP (s.skips profile) ≤ l.countP (s.skips profile) := (List.take_sublist n l).countP_le
              _ = group.countP (s.skips profile) := (hl.countP_eq _).symm
              _ < n := hcut ⟨a, ha, haopen⟩
          rw [List.take_of_length_le (by omega)] at hnot
          exact hnot (hl.mem_iff.mp ha)
        rw [hforced group' hp, hforced group (.refl _)]
      · have hskips : ∀ c ∈ group, s.skips profile c = true := fun c hc =>
          Bool.not_eq_false _ ▸ fun hopen' => hopen ⟨c, hc, hopen'⟩
        rw [fill_of_skips fun c hc => hskips c (hp.mem_iff.mpr (List.mem_of_mem_take hc)),
          fill_of_skips fun c hc => hskips c (List.mem_of_mem_take hc)]
  · rw [fill_of_full hroom, fill_of_full hroom]

/-- Settled groups may each come in any order. -/
theorem fill_shuffled (h : LoopSettled profile n s groups) (hs : Shuffled groups groups') :
    fill profile (groups'.flatten.take n) s = fill profile (groups.flatten.take n) s := by
  induction hs generalizing n s with
  | nil => rfl
  | @cons group group' groups groups' hp _ ih =>
    rw [fill_flatten_cons, fill_flatten_cons, h.1.fill_perm hp, ← hp.length_eq]
    exact ih h.2

theorem loopSettled_of_allSame (h : ∀ group ∈ groups, AllSame group) (n : ℕ) (s : Selection α) :
    LoopSettled profile n s groups := by
  induction groups generalizing n s with
  | nil => trivial
  | cons group groups ih =>
    have hsame := h group List.mem_cons_self
    refine ⟨fun _ hn => ⟨fun a ha b hb _ _ => hsame a ha b hb, ?_⟩, ih (fun g hg => h g (List.mem_cons_of_mem _ hg)) _ _⟩
    rintro ⟨a, ha, htaken⟩
    have hnone : group.countP (s.skips profile) = 0 :=
      List.countP_eq_zero.mpr fun b hb => by rw [hsame b hb a ha, htaken]; exact Bool.false_ne_true
    rwa [hnone]

end Selection

/-! ## What the order of the selection shows -/

section Ordered

variable [FloatLike α]

/-- The selection in the order it is returned in. -/
def ordered (selected : List (ScoredCandidate α)) : List (ScoredCandidate α) :=
  sortedBy (fun a b => decide (a.fusedScore > b.fusedScore)) selected

variable {selected rest rest' : List (ScoredCandidate α)} {a b : ScoredCandidate α}

theorem ordered_eq (selected : List (ScoredCandidate α)) :
    ordered selected = sortOn (fun c => OrderDual.toDual c.fusedScore) selected :=
  sortedBy_eq_sortOn (fun a b => by rw [decide_eq_true_eq, OrderDual.toDual_lt_toDual]) _

theorem length_ordered (selected : List (ScoredCandidate α)) : (ordered selected).length = selected.length :=
  (List.perm_insertionSort _ _).length_eq

/-- Behind the same candidates, another one with the same score is seen. -/
theorem eq_of_ordered_eq (h : ordered (selected ++ a :: rest) = ordered (selected ++ b :: rest'))
    (hscore : a.fusedScore = b.fusedScore) : a = b := by
  have hkey := congrArg (withKey (fun c => OrderDual.toDual c.fusedScore) (OrderDual.toDual a.fusedScore)) h
  rw [ordered_eq, ordered_eq, withKey_sortOn, withKey_sortOn, withKey_append, withKey_append,
    List.append_cancel_left_eq, withKey, withKey, List.filter_cons_of_pos (by simp),
    List.filter_cons_of_pos (by simp [hscore])] at hkey
  exact (List.cons.inj hkey).1

end Ordered

namespace Selection

variable {profile : RAGRetrievalProfile} {s : Selection α} {a : ScoredCandidate α} {n : ℕ}
  {group : List (ScoredCandidate α)} {groups : List (List (ScoredCandidate α))}

/-- A candidate that can be taken and comes first in its group is taken. -/
theorem prefix_fill_cons (hroom : s.selected.length < profile.maxResults) (hn : 0 < n)
    (ha : s.skips profile a = false) (cs : List (ScoredCandidate α)) (groups : List (List (ScoredCandidate α))) :
    ∃ rest, (fill profile (((a :: cs) :: groups).flatten.take n) s).selected = s.selected ++ a :: rest := by
  obtain ⟨n, rfl⟩ := Nat.exists_eq_add_one.mpr hn
  obtain ⟨hskip, -⟩ | ⟨-, hselected, -⟩ := offer_cases profile s a
  · exact nomatch ha.symm.trans hskip
  · rw [List.flatten_cons, List.cons_append, List.take_succ_cons, fill, if_pos hroom]
    obtain ⟨rest, hrest⟩ := prefix_fill profile ((cs ++ groups.flatten).take n) (s.offer profile a)
    exact ⟨rest, by rw [← hrest, hselected, List.append_assoc]; rfl⟩

/-- With those that are passed over in front, the cut can leave out the rest
of the group. -/
theorem fill_skips_first (hcount : n ≤ group.countP (s.skips profile)) (groups : List (List (ScoredCandidate α))) :
    fill profile (((group.filter (s.skips profile) ++ group.filter (!s.skips profile ·)) :: groups).flatten.take n) s =
      s := by
  have hlength : n ≤ (group.filter (s.skips profile)).length := by rwa [← List.countP_eq_length_filter]
  rw [List.flatten_cons, List.append_assoc, List.take_append_of_le_length hlength]
  exact fill_of_skips fun c hc => (List.mem_filter.mp (List.mem_of_mem_take hc)).2

theorem exists_perm_cons {c : ScoredCandidate α} (h : c ∈ group) : ∃ rest, group.Perm (c :: rest) := by
  obtain ⟨before, after, rfl⟩ := List.append_of_mem h
  exact ⟨before ++ after, List.perm_middle⟩

/-- Where no order of the groups is seen in what is returned, the groups are
settled. -/
theorem loopSettled_of_ordered [FloatLike α]
    (hscore : ∀ group ∈ groups, ∀ a ∈ group, ∀ b ∈ group, a.fusedScore = b.fusedScore)
    (h : ∀ groups', Shuffled groups groups' →
      ordered (fill profile (groups'.flatten.take n) s).selected =
        ordered (fill profile (groups.flatten.take n) s).selected) :
    LoopSettled profile n s groups := by
  induction groups generalizing n s with
  | nil => trivial
  | cons group groups ih =>
    have htail := Shuffled.refl groups
    refine ⟨fun hroom hn => ⟨fun a ha b hb haopen hbopen => ?_, fun ⟨a, ha, haopen⟩ => ?_⟩, ?_⟩
    · -- either may come first in the group, and is then taken
      obtain ⟨acs, hpa⟩ := exists_perm_cons ha
      obtain ⟨bcs, hpb⟩ := exists_perm_cons hb
      obtain ⟨arest, harest⟩ := prefix_fill_cons hroom hn haopen acs groups
      obtain ⟨brest, hbrest⟩ := prefix_fill_cons hroom hn hbopen bcs groups
      have hsame := (h _ (.cons hpa htail)).trans (h _ (.cons hpb htail)).symm
      rw [harest, hbrest] at hsame
      exact eq_of_ordered_eq hsame (hscore group List.mem_cons_self a ha b hb)
    · -- it may come first, or behind the cut
      by_contra hcut
      obtain ⟨cs, hp⟩ := exists_perm_cons ha
      obtain ⟨rest, hrest⟩ := prefix_fill_cons hroom hn haopen cs groups
      have hlast := (List.filter_append_perm (s.skips profile) group).symm
      have hsame := (h _ (.cons hp htail)).trans (h _ (.cons hlast htail)).symm
      rw [hrest, fill_skips_first (not_lt.mp hcut)] at hsame
      have hlength := congrArg List.length hsame
      rw [length_ordered, length_ordered, List.length_append, List.length_cons] at hlength
      omega
    · refine ih (fun group' hgroup' => hscore group' (List.mem_cons_of_mem _ hgroup')) fun groups' hs => ?_
      have hsame := h (group :: groups') (.cons (.refl _) hs)
      rwa [fill_flatten_cons, fill_flatten_cons] at hsame

end Selection

/-! ## The first candidate of a kind -/

/-- The group that the first candidate of a kind comes from, if it comes before
the cut, is of one candidate. -/
def FirstSettled (p : ScoredCandidate α → Bool) : ℕ → List (List (ScoredCandidate α)) → Prop
  | _, [] => True
  | n, group :: groups =>
    0 < n → if group.any p then AllSame group else FirstSettled p (n - group.length) groups

section First

variable {p : ScoredCandidate α → Bool} {n : ℕ} {groups groups' : List (List (ScoredCandidate α))}

/-- The candidates of a group are of one kind. -/
abbrev OfOneKind (p : ScoredCandidate α → Bool) (groups : List (List (ScoredCandidate α))) : Prop :=
  ∀ group ∈ groups, ∀ a ∈ group, ∀ b ∈ group, p a = p b

theorem find?_flatten_cons_of_none {group : List (ScoredCandidate α)} (h : ∀ c ∈ group, p c = false) :
    ((group :: groups).flatten.take n).find? p = (groups.flatten.take (n - group.length)).find? p := by
  rw [List.flatten_cons, List.take_append, List.find?_append, List.find?_eq_none.mpr fun c hc => ?_, Option.none_or]
  rw [h c (List.mem_of_mem_take hc)]
  exact Bool.false_ne_true

theorem find?_flatten_cons_of_head {a : ScoredCandidate α} {cs : List (ScoredCandidate α)} (hn : 0 < n)
    (h : p a = true) : (((a :: cs) :: groups).flatten.take n).find? p = some a := by
  obtain ⟨n, rfl⟩ := Nat.exists_eq_add_one.mpr hn
  rw [List.flatten_cons, List.cons_append, List.take_succ_cons, List.find?_cons_of_pos h]

theorem find?_shuffled (hkind : OfOneKind p groups) (h : FirstSettled p n groups) (hs : Shuffled groups groups') :
    (groups'.flatten.take n).find? p = (groups.flatten.take n).find? p := by
  induction hs generalizing n with
  | nil => rfl
  | @cons group group' groups groups' hp _ ih =>
    rcases Nat.eq_zero_or_pos n with rfl | hn
    · rw [List.take_zero, List.take_zero]
    · have h := h hn
      split at h
      · rename_i hany
        obtain ⟨a, ha, hpa⟩ := List.any_eq_true.mp hany
        obtain ⟨first, cs, rfl⟩ := List.exists_cons_of_ne_nil (List.ne_nil_of_mem ha)
        obtain ⟨first', cs', rfl⟩ := List.exists_cons_of_ne_nil (List.ne_nil_of_mem (hp.mem_iff.mp ha))
        have hfirst : p first = true := h a ha first List.mem_cons_self ▸ hpa
        have hsame : first' = first := h first' (hp.mem_iff.mpr List.mem_cons_self) first List.mem_cons_self
        rw [find?_flatten_cons_of_head hn hfirst, find?_flatten_cons_of_head hn (hsame ▸ hfirst), hsame]
      · rename_i hany
        have hnone : ∀ c ∈ group, p c = false := by simpa using hany
        rw [find?_flatten_cons_of_none hnone, find?_flatten_cons_of_none fun c hc => hnone c (hp.mem_iff.mpr hc),
          ← hp.length_eq]
        exact ih (fun group hgroup => hkind group (List.mem_cons_of_mem _ hgroup)) h

theorem firstSettled_of_find? (hkind : OfOneKind p groups)
    (h : ∀ groups', Shuffled groups groups' →
      (groups'.flatten.take n).find? p = (groups.flatten.take n).find? p) : FirstSettled p n groups := by
  induction groups generalizing n with
  | nil => trivial
  | cons group groups ih =>
    intro hn
    have htail := Shuffled.refl groups
    split
    · rename_i hany
      obtain ⟨c, hc, hpc⟩ := List.any_eq_true.mp hany
      intro a ha b hb
      have hkind := hkind group List.mem_cons_self
      obtain ⟨acs, hpa⟩ := Selection.exists_perm_cons ha
      obtain ⟨bcs, hpb⟩ := Selection.exists_perm_cons hb
      have hsame := (h _ (.cons hpa htail)).trans (h _ (.cons hpb htail)).symm
      rw [find?_flatten_cons_of_head hn ((hkind a ha c hc).trans hpc),
        find?_flatten_cons_of_head hn ((hkind b hb c hc).trans hpc)] at hsame
      exact Option.some.inj hsame
    · rename_i hany
      have hnone : ∀ c ∈ group, p c = false := by simpa using hany
      refine ih (fun group hgroup => hkind group (List.mem_cons_of_mem _ hgroup)) fun groups' hs => ?_
      have hsame := h (group :: groups') (.cons (.refl _) hs)
      rwa [find?_flatten_cons_of_none hnone, find?_flatten_cons_of_none hnone] at hsame

theorem firstSettled_of_allSame (h : ∀ group ∈ groups, AllSame group) (n : ℕ) : FirstSettled p n groups := by
  induction groups generalizing n with
  | nil => trivial
  | cons group groups ih =>
    intro _
    split
    · exact h group List.mem_cons_self
    · exact ih (fun g hg => h g (List.mem_cons_of_mem _ hg)) _

end First

/-! ## What is returned -/

section Outcome

variable [FloatLike α]

/-- `activeCandidates`, of the ranked candidates. -/
def activeOf (profile : RAGRetrievalProfile) (ranked : List (ScoredCandidate α)) : List (ScoredCandidate α) :=
  let ranked := ranked.take profile.maxCandidates
  let filtered := ranked.filter fun c => decide (c.fusedScore ≥ profile.minimumFusedScore)
  if filtered.isEmpty then
    match ranked with
    | [] => []
    | top :: _ =>
      let relaxedThreshold := profile.minimumFusedScore * lit 0.75
      if top.fusedScore < relaxedThreshold ∧ (!top.usedSemantic ∨ top.lexicalScore < lit 0.45) then [] else [top]
  else filtered

theorem activeCandidates_eq (profile : RAGRetrievalProfile) (candidates : List (ScoredCandidate α)) :
    activeCandidates profile candidates = activeOf profile (sortedBy ranksBefore candidates) := rfl

/-- What is returned for the ranked candidates. -/
def outcomeOf (embeddingEnabled : Bool) (profile : RAGRetrievalProfile) (ranked : List (ScoredCandidate α)) :
    RetrievalResult (List α) α :=
  let selected := diversifyAndBalance (activeOf profile ranked) profile
  if selected.isEmpty then .empty else assemble embeddingEnabled selected

/-- The candidate reaches the minimum. -/
def passes (profile : RAGRetrievalProfile) (c : ScoredCandidate α) : Bool :=
  decide (c.fusedScore ≥ profile.minimumFusedScore)

/-- The best candidate is not near the minimum. -/
def dismissed (profile : RAGRetrievalProfile) (c : ScoredCandidate α) : Bool :=
  decide (c.fusedScore < profile.minimumFusedScore * lit 0.75) &&
    (!c.usedSemantic || decide (c.lexicalScore < lit 0.45))

/-- How many candidates the selection is made from. -/
def activeCount (profile : RAGRetrievalProfile) (ranked : List (ScoredCandidate α)) : ℕ :=
  min profile.maxCandidates (ranked.countP (passes profile))

variable {profile : RAGRetrievalProfile} {ranked : List (ScoredCandidate α)}

/-- The candidates that reach the minimum come first. -/
theorem filter_take_of_descending (hd : Descending ranked) (n : ℕ) :
    (ranked.take n).filter (passes profile) = ranked.take (min n (ranked.countP (passes profile))) := by
  induction ranked generalizing n with
  | nil => simp
  | cons c ranked ih =>
    obtain ⟨hc, hd⟩ := List.pairwise_cons.mp hd
    cases n with
    | zero => simp
    | succ n =>
      by_cases hp : passes profile c = true
      · rw [List.take_succ_cons, List.filter_cons_of_pos hp, ih hd, List.countP_cons_of_pos hp, Nat.succ_min_succ,
          List.take_succ_cons]
      · have hnone : ∀ d ∈ c :: ranked, ¬ passes profile d = true := by
          intro d hd hpd
          rcases List.mem_cons.mp hd with rfl | hd
          · exact hp hpd
          · exact hp (decide_eq_true ((of_decide_eq_true hpd : d.fusedScore ≥ _).trans (hc d hd)))
        rw [List.countP_eq_zero.mpr hnone, Nat.min_zero, List.take_zero, List.filter_eq_nil_iff]
        exact fun d hd => hnone d (List.mem_of_mem_take hd)

theorem maxCandidates_pos (profile : RAGRetrievalProfile) : 0 < profile.maxCandidates := by cases profile <;> decide

theorem take_activeCount_ne_nil (h : 0 < activeCount profile ranked) :
    ranked.take (activeCount profile ranked) ≠ [] := by
  have hcount : 0 < ranked.countP (passes profile) := h.trans_le (Nat.min_le_right _ _)
  refine List.ne_nil_of_length_pos ?_
  rw [List.length_take]
  exact Nat.lt_min.mpr ⟨h, hcount.trans_le List.countP_le_length⟩

theorem activeOf_of_pos (hd : Descending ranked) (h : 0 < activeCount profile ranked) :
    activeOf profile ranked = ranked.take (activeCount profile ranked) := by
  have hfiltered : (ranked.take profile.maxCandidates).filter
      (fun c => decide (c.fusedScore ≥ profile.minimumFusedScore)) =
      ranked.take (activeCount profile ranked) := filter_take_of_descending hd profile.maxCandidates
  simp only [activeOf]
  rw [hfiltered, if_neg]
  rw [List.isEmpty_iff]
  exact take_activeCount_ne_nil h

theorem activeOf_of_zero (h : activeCount profile ranked = 0) :
    activeOf profile ranked = ranked.head?.toList.filter (!dismissed profile ·) := by
  have hcount : ranked.countP (passes profile) = 0 := by
    have := maxCandidates_pos profile
    rw [activeCount] at h
    omega
  have hfiltered : (ranked.take profile.maxCandidates).filter
      (fun c => decide (c.fusedScore ≥ profile.minimumFusedScore)) = [] :=
    List.filter_eq_nil_iff.mpr fun c hc => List.countP_eq_zero.mp hcount c (List.mem_of_mem_take hc)
  simp only [activeOf]
  rw [hfiltered, List.isEmpty_nil, if_pos rfl]
  cases ranked with
  | nil => simp
  | cons top ranked =>
    obtain ⟨m, hm⟩ := Nat.exists_eq_add_one.mpr (maxCandidates_pos profile)
    rw [hm, List.take_succ_cons, List.head?_cons, Option.toList_some]
    have hiff : (top.fusedScore < profile.minimumFusedScore * lit 0.75 ∧
        (!top.usedSemantic ∨ top.lexicalScore < lit 0.45)) ↔ dismissed profile top = true := by simp [dismissed]
    simp only [hiff]
    cases hdismissed : dismissed profile top <;> simp [hdismissed]

/-! ### The seeds -/

open Selection

/-- The best chunk is taken before the loop: there is no note, or the best note
does not score much more or less. -/
def ChunkSeeded (candidates : List (ScoredCandidate α)) : Prop :=
  ∀ note ∈ candidates.find? (·.source.isNote), ∀ chunk ∈ candidates.find? (!·.source.isNote),
    scoreGap note chunk ≤ lit 0.18

theorem seed_of_chunkSeeded {candidates : List (ScoredCandidate α)} (h : ChunkSeeded candidates) :
    (seed profile candidates).selected =
      (candidates.find? (·.source.isNote)).toList ++ (candidates.find? (!·.source.isNote)).toList := by
  cases hn : candidates.find? (·.source.isNote) with
  | none => exact seed_of_no_note hn
  | some note =>
    cases hc : candidates.find? (!·.source.isNote) with
    | none =>
      rw [seed_of_far hn fun chunk hchunk => (nomatch hc.symm.trans hchunk)]
      rfl
    | some chunk => exact seed_of_close hn hc (h note hn chunk hc)

theorem seed_of_not_chunkSeeded (profile : RAGRetrievalProfile) {candidates : List (ScoredCandidate α)}
    (h : ¬ ChunkSeeded candidates) :
    ∃ note, candidates.find? (·.source.isNote) = some note ∧
      seed profile candidates = Selection.empty.select note := by
  simp only [ChunkSeeded, not_forall] at h
  obtain ⟨note, hn, chunk, hc, hgap⟩ := h
  refine ⟨note, hn, seed_of_far hn fun chunk' hchunk' => ?_⟩
  obtain rfl := Option.some.inj (hc.symm.trans hchunk')
  exact hgap

variable {candidates candidates' : List (ScoredCandidate α)}

/-- Candidates with the same kinds and scores, in this order. -/
def Matching (candidates candidates' : List (ScoredCandidate α)) : Prop :=
  candidates'.map (fun c => (c.source.isNote, c.fusedScore)) = candidates.map fun c => (c.source.isNote, c.fusedScore)

omit [FloatLike α] in
/-- The first of a kind have the same score. -/
theorem Matching.find? (h : Matching candidates candidates') (kind : Bool → Bool) :
    (candidates'.find? (kind ·.source.isNote)).map ScoredCandidate.fusedScore =
      (candidates.find? (kind ·.source.isNote)).map ScoredCandidate.fusedScore := by
  have hmap := congrArg (fun l => (l.find? (kind ·.1)).map Prod.snd) h
  rw [List.find?_map, List.find?_map, Option.map_map, Option.map_map] at hmap
  exact hmap

theorem Matching.chunkSeeded (h : Matching candidates candidates') (hseeded : ChunkSeeded candidates') :
    ChunkSeeded candidates := by
  intro note hnote chunk hchunk
  have hnotes := h.find? id
  have hchunks := h.find? (!·)
  simp only [id] at hnotes
  rw [hnote, Option.map_some] at hnotes
  rw [hchunk, Option.map_some] at hchunks
  obtain ⟨note', hnote', hnoteScore⟩ := Option.map_eq_some_iff.mp hnotes
  obtain ⟨chunk', hchunk', hchunkScore⟩ := Option.map_eq_some_iff.mp hchunks
  have hgap := hseeded note' hnote' chunk' hchunk'
  rwa [scoreGap, hnoteScore, hchunkScore] at hgap

/-- The seeds are the best note, and the best chunk where it is taken. -/
theorem seed_congr (profile : RAGRetrievalProfile) (h : Matching candidates candidates')
    (hn : candidates'.find? (·.source.isNote) = candidates.find? (·.source.isNote))
    (hc : ChunkSeeded candidates → candidates'.find? (!·.source.isNote) = candidates.find? (!·.source.isNote)) :
    seed profile candidates' = seed profile candidates := by
  by_cases hseeded : ChunkSeeded candidates
  · rw [seed, seed, hn, hc hseeded]
  · obtain ⟨note, hnote, hseed⟩ := seed_of_not_chunkSeeded profile hseeded
    obtain ⟨note', hnote', hseed'⟩ := seed_of_not_chunkSeeded profile fun h' => hseeded (h.chunkSeeded h')
    rw [hseed, hseed']
    rw [hn, hnote] at hnote'
    rw [Option.some.inj hnote']

/-! ### What is returned of a selection -/

section Assemble

variable {selected selected' : List (ScoredCandidate α)}
  {embeddingEnabled : Bool}

omit [FloatLike α] in
/-- Sources are told apart by their kinds in order, the notes and the chunks. -/
theorem sources_ext {l l' : List (CandidateSource α)}
    (hkind : l.map CandidateSource.isNote = l'.map CandidateSource.isNote)
    (hnotes : l.filterMap CandidateSource.note? = l'.filterMap CandidateSource.note?)
    (hchunks : l.filterMap CandidateSource.chunk? = l'.filterMap CandidateSource.chunk?) : l = l' := by
  induction l generalizing l' with
  | nil => exact (List.map_eq_nil_iff.mp hkind.symm).symm
  | cons source l ih =>
    cases l' with
    | nil => exact nomatch hkind
    | cons source' l' =>
      obtain ⟨hsame, htail⟩ := List.cons.inj hkind
      cases source with
      | note note =>
        cases source' with
        | note note' =>
          obtain ⟨rfl, hrest⟩ := List.cons.inj hnotes
          rw [ih htail hrest hchunks]
        | chunk chunk' => exact nomatch hsame
      | chunk chunk =>
        cases source' with
        | note note' => exact nomatch hsame
        | chunk chunk' =>
          obtain ⟨rfl, hrest⟩ := List.cons.inj hchunks
          rw [ih htail hnotes hrest]

omit [FloatLike α] in
theorem citation_sourceType (index : ℕ) (source : CandidateSource α) :
    ((citation index source).sourceType == .note) = source.isNote := by
  cases source <;> rfl

/-- The selection can be told from what is returned of it, up to its order. -/
theorem ordered_eq_of_assemble (score : CandidateSource α → Option (ScoredCandidate α))
    (hs : ∀ c ∈ selected, score c.source = some c)
    (hs' : ∀ c ∈ selected', score c.source = some c)
    (h : assemble embeddingEnabled selected = assemble embeddingEnabled selected') :
    ordered selected = ordered selected' := by
  have hkinds (l : List (CandidateSource α)) : (l.mapIdx citation).map (·.sourceType == .note) =
      l.map CandidateSource.isNote := by
    rw [List.mapIdx_eq_zipIdx_map, List.map_map, ← List.zipIdx_map_fst 0 l, List.map_map]
    simp [citation_sourceType]
  have hsources : (ordered selected).map ScoredCandidate.source = (ordered selected').map ScoredCandidate.source := by
    have hcitations := congrArg (fun r => r.citations.map (·.sourceType == .note)) h
    refine sources_ext ?_ (congrArg RetrievalResult.selectedNotes h) (congrArg RetrievalResult.selectedChunks h)
    rw [← hkinds, ← hkinds]
    exact hcitations
  have hself {l : List (ScoredCandidate α)} (hl : ∀ c ∈ l, score c.source = some c) :
      ((ordered l).map ScoredCandidate.source).filterMap score = ordered l := by
    rw [List.filterMap_map]
    refine (List.filterMap_congr fun c hc => ?_).trans List.filterMap_some
    exact hl c ((List.perm_insertionSort _ _).mem_iff.mp hc)
  rw [← hself hs, hsources, hself hs']

end Assemble

/-! ### Settled groups -/

/-- Where no candidate reaches the minimum: the best one has no rival in its
group, or none of them is near it. -/
def TopSettled (profile : RAGRetrievalProfile) : List (List (ScoredCandidate α)) → Prop
  | [] => True
  | [] :: groups => TopSettled profile groups
  | (top :: group) :: _ => AllSame (top :: group) ∨ ∀ c ∈ top :: group, dismissed profile c = true

/-- No order of the groups makes a difference: for the best note, for the best
chunk if it is taken at once, nor in the loop. -/
def Settled (profile : RAGRetrievalProfile) (groups : List (List (ScoredCandidate α))) : Prop :=
  let n := activeCount profile groups.flatten
  let active := groups.flatten.take n
  if n = 0 then TopSettled profile groups
  else
    FirstSettled (·.source.isNote) n groups ∧
      (ChunkSeeded active → FirstSettled (!·.source.isNote) n groups) ∧
        LoopSettled profile n (seed profile active) groups

theorem topSettled_of_allSame (profile : RAGRetrievalProfile) {groups : List (List (ScoredCandidate α))}
    (h : ∀ group ∈ groups, AllSame group) : TopSettled profile groups := by
  induction groups with
  | nil => trivial
  | cons group groups ih =>
    cases group with
    | nil => exact ih fun g hg => h g (List.mem_cons_of_mem _ hg)
    | cons top group => exact .inl (h _ List.mem_cons_self)

/-- Where no two candidates of a group differ, no order makes a difference. -/
theorem settled_of_allSame (profile : RAGRetrievalProfile) {groups : List (List (ScoredCandidate α))}
    (h : ∀ group ∈ groups, AllSame group) : Settled profile groups := by
  rw [Settled]
  split
  · exact topSettled_of_allSame profile h
  · exact ⟨firstSettled_of_allSame h _, fun _ => firstSettled_of_allSame h _,
      Selection.loopSettled_of_allSame h _ _⟩

/-- The candidates of a group have one score and are of one kind. -/
structure Uniform (groups : List (List (ScoredCandidate α))) : Prop where
  fusedScore : ∀ group ∈ groups, ∀ a ∈ group, ∀ b ∈ group, a.fusedScore = b.fusedScore
  isNote : ∀ group ∈ groups, ∀ a ∈ group, ∀ b ∈ group, a.source.isNote = b.source.isNote

section Shuffled

variable {groups groups' : List (List (ScoredCandidate α))} {embeddingEnabled : Bool}

omit [FloatLike α] in
/-- What is the same throughout each group is in the same order. -/
theorem map_flatten_shuffled {β : Type} {f : ScoredCandidate α → β}
    (hf : ∀ group ∈ groups, ∀ a ∈ group, ∀ b ∈ group, f a = f b) (hs : Shuffled groups groups') :
    groups'.flatten.map f = groups.flatten.map f := by
  induction hs with
  | nil => rfl
  | @cons group group' groups groups' hp _ ih =>
    rw [List.flatten_cons, List.flatten_cons, List.map_append, List.map_append,
      ih fun group hgroup => hf group (List.mem_cons_of_mem _ hgroup)]
    congr 1
    have hsame := hf group List.mem_cons_self
    cases group with
    | nil => rw [hp.symm.eq_nil]
    | cons a group =>
      rw [List.map_eq_replicate_iff.mpr fun b hb => hsame b hb a List.mem_cons_self,
        List.map_eq_replicate_iff.mpr fun b hb => hsame b (hp.mem_iff.mpr hb) a List.mem_cons_self, hp.length_eq]

omit [FloatLike α] in
theorem Uniform.matching (h : Uniform groups) (hs : Shuffled groups groups') (n : ℕ) :
    Matching (groups.flatten.take n) (groups'.flatten.take n) := by
  have hmap := map_flatten_shuffled (f := fun c => (c.source.isNote, c.fusedScore)) (fun group hgroup a ha b hb =>
    Prod.ext (h.isNote group hgroup a ha b hb) (h.fusedScore group hgroup a ha b hb)) hs
  rw [Matching, List.map_take, List.map_take, hmap]

theorem Uniform.descending (h : Uniform groups) (hs : Shuffled groups groups') (hd : Descending groups.flatten) :
    Descending groups'.flatten := by
  have hmap := map_flatten_shuffled h.fusedScore hs
  have hd' : (groups.flatten.map ScoredCandidate.fusedScore).Pairwise fun a b => b ≤ a := List.pairwise_map.mpr hd
  rw [← hmap] at hd'
  exact List.pairwise_map.mp hd'

theorem activeCount_shuffled (profile : RAGRetrievalProfile) (hs : Shuffled groups groups') :
    activeCount profile groups'.flatten = activeCount profile groups.flatten := by
  rw [activeCount, activeCount, hs.flatten_perm.countP_eq]

/-! ### Where nothing reaches the minimum -/

theorem diversifyAndBalance_singleton (profile : RAGRetrievalProfile) (top : ScoredCandidate α) :
    diversifyAndBalance [top] profile = [top] := by
  have hseed : (seed profile [top]).selected = [top] := by
    have hseeded : ChunkSeeded [top] := by
      intro note hnote chunk hchunk
      cases h : top.source.isNote <;> simp [h] at hnote hchunk
    rw [seed_of_chunkSeeded hseeded]
    cases h : top.source.isNote <;> simp [h]
  rw [diversifyAndBalance_eq (List.cons_ne_nil _ _), fill_of_skips, hseed]
  intro c hc
  obtain rfl := List.mem_singleton.mp hc
  rw [skips, hseed, List.any_cons, sameSource_self, Bool.true_or, Bool.true_or, Bool.true_or]

/-- What is returned for the best candidate. -/
def outcomeOfTop (embeddingEnabled : Bool) (profile : RAGRetrievalProfile) :
    Option (ScoredCandidate α) → RetrievalResult (List α) α
  | some top => if dismissed profile top then .empty else assemble embeddingEnabled [top]
  | none => .empty

theorem outcomeOf_of_zero (h : activeCount profile ranked = 0) :
    outcomeOf embeddingEnabled profile ranked = outcomeOfTop embeddingEnabled profile ranked.head? := by
  rw [outcomeOf, activeOf_of_zero h]
  cases ranked.head? with
  | none => rfl
  | some top =>
    rw [Option.toList_some, outcomeOfTop]
    cases hd : dismissed profile top with
    | true => simp [hd, diversifyAndBalance]
    | false => simp [hd, diversifyAndBalance_singleton]

theorem outcomeOfTop_eq_iff {score : CandidateSource α → Option (ScoredCandidate α)} {a c : ScoredCandidate α}
    (ha : score a.source = some a) (hc : score c.source = some c) (hopen : dismissed profile c = false)
    (h : outcomeOfTop embeddingEnabled profile (some a) = outcomeOfTop embeddingEnabled profile (some c)) : a = c := by
  rw [outcomeOfTop, outcomeOfTop, hopen, if_neg Bool.false_ne_true] at h
  split at h
  · exact nomatch congrArg RetrievalResult.topScore h
  · have hordered := ordered_eq_of_assemble score (by simpa using ha) (by simpa using hc) h
    exact (List.cons.inj hordered).1

/-- The best candidate comes from the first group that has one. -/
theorem topSettled_cons_iff (embeddingEnabled : Bool) {score : CandidateSource α → Option (ScoredCandidate α)}
    {top : ScoredCandidate α} {group : List (ScoredCandidate α)}
    (hscore : ∀ c ∈ top :: group, score c.source = some c) :
    (∀ groups', Shuffled ((top :: group) :: groups) groups' →
      outcomeOfTop embeddingEnabled profile groups'.flatten.head? =
        outcomeOfTop embeddingEnabled profile (some top)) ↔ TopSettled profile ((top :: group) :: groups) := by
  constructor
  · intro h
    by_cases hall : ∀ c ∈ top :: group, dismissed profile c = true
    · exact .inr hall
    · left
      simp only [not_forall, Bool.not_eq_true] at hall
      obtain ⟨c, hc, hopen⟩ := hall
      obtain ⟨ccs, hpc⟩ := exists_perm_cons hc
      have hc' := h _ (.cons hpc (Shuffled.refl groups))
      have hsame : ∀ a ∈ top :: group, a = c := by
        intro a ha
        obtain ⟨acs, hpa⟩ := exists_perm_cons ha
        have ha' := h _ (.cons hpa (Shuffled.refl groups))
        exact outcomeOfTop_eq_iff (hscore a ha) (hscore c hc) hopen (ha'.trans hc'.symm)
      intro a ha b hb
      rw [hsame a ha, hsame b hb]
  · rintro hsettled groups' (_ | ⟨hp, hs⟩)
    rename_i group' groups'
    obtain ⟨top', cs, rfl⟩ := List.exists_cons_of_ne_nil (List.ne_nil_of_mem (hp.mem_iff.mp List.mem_cons_self))
    have htop' : top' ∈ top :: group := hp.mem_iff.mpr List.mem_cons_self
    show outcomeOfTop embeddingEnabled profile (some top') = outcomeOfTop embeddingEnabled profile (some top)
    rcases hsettled with hsame | hall
    · rw [hsame top' htop' top List.mem_cons_self]
    · rw [outcomeOfTop, outcomeOfTop, if_pos (hall top' htop'), if_pos (hall top List.mem_cons_self)]

theorem topSettled_iff (embeddingEnabled : Bool) {score : CandidateSource α → Option (ScoredCandidate α)}
    (hscore : ∀ c ∈ groups.flatten, score c.source = some c) :
    (∀ groups', Shuffled groups groups' → outcomeOfTop embeddingEnabled profile groups'.flatten.head? =
      outcomeOfTop embeddingEnabled profile groups.flatten.head?) ↔ TopSettled profile groups := by
  induction groups with
  | nil =>
    refine iff_of_true (fun groups' hs => ?_) trivial
    cases hs
    rfl
  | cons group groups ih =>
    cases group with
    | nil =>
      rw [TopSettled, ← ih fun c hc => hscore c hc]
      constructor
      · exact fun h groups' hs => h ([] :: groups') (.cons .nil hs)
      · rintro h groups' (_ | ⟨hp, hs⟩)
        rename_i group' groups'
        obtain rfl := hp.symm.eq_nil
        exact h groups' hs
    | cons top group =>
      exact topSettled_cons_iff embeddingEnabled fun c hc => hscore c (List.mem_append_left _ hc)

/-! ### Where some candidate reaches the minimum -/

/-- The selection from the candidates before the cut. -/
def selectedOf (profile : RAGRetrievalProfile) (n : ℕ) (ranked : List (ScoredCandidate α)) : List (ScoredCandidate α) :=
  (fill profile (ranked.take n) (seed profile (ranked.take n))).selected

theorem outcomeOf_of_pos (hd : Descending ranked) (h : 0 < activeCount profile ranked) :
    outcomeOf embeddingEnabled profile ranked =
      assemble embeddingEnabled (selectedOf profile (activeCount profile ranked) ranked) := by
  have hactive := activeOf_of_pos hd h
  have hne : activeOf profile ranked ≠ [] := hactive ▸ take_activeCount_ne_nil h
  obtain ⟨top, hhead, -⟩ := head_diversifyAndBalance profile hne
  rw [outcomeOf, if_neg, diversifyAndBalance_eq hne, hactive, selectedOf]
  rw [List.isEmpty_iff]
  exact fun hnil => nomatch (hnil ▸ hhead : [].head? = some top)

variable {n : ℕ}

/-- The best note stands first in the selection. -/
theorem selectedOf_of_note (profile : RAGRetrievalProfile) {note : ScoredCandidate α}
    (h : (ranked.take n).find? (·.source.isNote) = some note) :
    ∃ rest, selectedOf profile n ranked = note :: rest := by
  have hhead := head_seed profile (ranked.take n)
  obtain ⟨rest, hrest⟩ := prefix_fill profile (ranked.take n) (seed profile (ranked.take n))
  rw [h, Option.some_or] at hhead
  obtain ⟨seeds, hseeds⟩ := List.head?_eq_some_iff.mp hhead
  exact ⟨seeds ++ rest, by rw [selectedOf, ← hrest, hseeds]; rfl⟩

/-- The best chunk, where it is taken at once, stands behind the best note. -/
theorem selectedOf_of_chunk (profile : RAGRetrievalProfile) {chunk : ScoredCandidate α}
    (hseeded : ChunkSeeded (ranked.take n))
    (h : (ranked.take n).find? (!·.source.isNote) = some chunk) :
    ∃ rest, selectedOf profile n ranked = ((ranked.take n).find? (·.source.isNote)).toList ++ chunk :: rest := by
  obtain ⟨rest, hrest⟩ := prefix_fill profile (ranked.take n) (seed profile (ranked.take n))
  rw [seed_of_chunkSeeded hseeded, h, Option.toList_some, List.append_assoc] at hrest
  exact ⟨rest, hrest.symm⟩

theorem mem_of_mem_selectedOf {c : ScoredCandidate α} (h : c ∈ selectedOf profile n ranked) : c ∈ ranked :=
  List.mem_of_mem_take ((mem_of_mem_fill h).elim mem_of_mem_seed id)

/-- Settled groups may each come in any order. -/
theorem selectedOf_shuffled (hu : Uniform groups) (hs : Shuffled groups groups')
    (hnote : FirstSettled (·.source.isNote) n groups)
    (hchunk : ChunkSeeded (groups.flatten.take n) → FirstSettled (!·.source.isNote) n groups)
    (hloop : LoopSettled profile n (seed profile (groups.flatten.take n)) groups) :
    selectedOf profile n groups'.flatten = selectedOf profile n groups.flatten := by
  have hseed : seed profile (groups'.flatten.take n) = seed profile (groups.flatten.take n) := by
    refine seed_congr profile (hu.matching hs n) (find?_shuffled hu.isNote hnote hs) fun hseeded => ?_
    exact find?_shuffled (fun group hg a ha b hb => congrArg (!·) (hu.isNote group hg a ha b hb)) (hchunk hseeded) hs
  rw [selectedOf, selectedOf, hseed, fill_shuffled hloop hs]

section Seen

variable {candidates candidates' : List (ScoredCandidate α)}

/-- Another best note is seen in what is returned. -/
theorem find?_note_of_ordered (hm : Matching (candidates.take n) (candidates'.take n))
    (h : ordered (selectedOf profile n candidates') = ordered (selectedOf profile n candidates)) :
    (candidates'.take n).find? (·.source.isNote) = (candidates.take n).find? (·.source.isNote) := by
  have hscore := hm.find? id
  simp only [id] at hscore
  cases hnote : (candidates.take n).find? (·.source.isNote) with
  | none => simpa [hnote] using hscore
  | some note =>
    rw [hnote, Option.map_some] at hscore
    obtain ⟨note', hnote', hsame⟩ := Option.map_eq_some_iff.mp hscore
    obtain ⟨rest, hrest⟩ := selectedOf_of_note profile hnote
    obtain ⟨rest', hrest'⟩ := selectedOf_of_note profile hnote'
    rw [hrest, hrest'] at h
    rw [hnote', eq_of_ordered_eq (show ordered ([] ++ note' :: rest') = ordered ([] ++ note :: rest) from h) hsame]

/-- Another best chunk is seen in what is returned, where it is taken at
once. -/
theorem find?_chunk_of_ordered (hm : Matching (candidates.take n) (candidates'.take n))
    (hseeded : ChunkSeeded (candidates.take n))
    (hnote : (candidates'.take n).find? (·.source.isNote) = (candidates.take n).find? (·.source.isNote))
    (h : ordered (selectedOf profile n candidates') = ordered (selectedOf profile n candidates)) :
    (candidates'.take n).find? (!·.source.isNote) = (candidates.take n).find? (!·.source.isNote) := by
  have hscore := hm.find? (!·)
  cases hchunk : (candidates.take n).find? (!·.source.isNote) with
  | none => simpa [hchunk] using hscore
  | some chunk =>
    rw [hchunk, Option.map_some] at hscore
    obtain ⟨chunk', hchunk', hsame⟩ := Option.map_eq_some_iff.mp hscore
    obtain ⟨rest, hrest⟩ := selectedOf_of_chunk profile hseeded hchunk
    obtain ⟨rest', hrest'⟩ := selectedOf_of_chunk profile (Matching.chunkSeeded hm.symm hseeded) hchunk'
    rw [hrest, hrest', hnote] at h
    rw [hchunk', eq_of_ordered_eq h hsame]

end Seen

/-- What is returned does not depend on the orders of the groups exactly if
they are settled. -/
theorem outcome_settled_iff {score : CandidateSource α → Option (ScoredCandidate α)} (hu : Uniform groups)
    (hd : Descending groups.flatten) (hscore : ∀ c ∈ groups.flatten, score c.source = some c) :
    (∀ groups', Shuffled groups groups' →
      outcomeOf embeddingEnabled profile groups'.flatten = outcomeOf embeddingEnabled profile groups.flatten) ↔
      Settled profile groups := by
  rcases Nat.eq_zero_or_pos (activeCount profile groups.flatten) with hzero | hpos
  · rw [Settled, if_pos hzero, ← topSettled_iff embeddingEnabled hscore]
    refine forall₂_congr fun groups' hs => ?_
    rw [outcomeOf_of_zero hzero, outcomeOf_of_zero ((activeCount_shuffled profile hs).trans hzero)]
  · have hout : ∀ groups', Shuffled groups groups' → outcomeOf embeddingEnabled profile groups'.flatten =
        assemble embeddingEnabled (selectedOf profile (activeCount profile groups.flatten) groups'.flatten) := by
      intro groups' hs
      have hcount := activeCount_shuffled profile hs
      rw [outcomeOf_of_pos (hu.descending hs hd) (hcount ▸ hpos), hcount]
    rw [Settled, if_neg hpos.ne']
    constructor
    · intro h
      have hordered : ∀ groups', Shuffled groups groups' →
          ordered (selectedOf profile (activeCount profile groups.flatten) groups'.flatten) =
            ordered (selectedOf profile (activeCount profile groups.flatten) groups.flatten) := by
        intro groups' hs
        have hsame := h groups' hs
        rw [hout groups' hs, hout groups (.refl _)] at hsame
        refine ordered_eq_of_assemble score (fun c hc => ?_) (fun c hc => ?_) hsame
        · exact hscore c (hs.flatten_perm.mem_iff.mpr (mem_of_mem_selectedOf hc))
        · exact hscore c (mem_of_mem_selectedOf hc)
      have hnote := fun groups' hs => find?_note_of_ordered (hu.matching hs _) (hordered groups' hs)
      have hchunk := fun hseeded groups' hs =>
        find?_chunk_of_ordered (hu.matching hs _) hseeded (hnote groups' hs) (hordered groups' hs)
      refine ⟨firstSettled_of_find? hu.isNote hnote, fun hseeded => ?_, ?_⟩
      · refine firstSettled_of_find? (fun group hg a ha b hb => ?_) (hchunk hseeded)
        exact congrArg (!·) (hu.isNote group hg a ha b hb)
      · refine loopSettled_of_ordered hu.fusedScore fun groups' hs => ?_
        have hseed := seed_congr profile (hu.matching hs _) (hnote groups' hs) fun hseeded =>
          hchunk hseeded groups' hs
        have hsame := hordered groups' hs
        rwa [selectedOf, selectedOf, hseed] at hsame
    · rintro ⟨hnote, hchunk, hloop⟩ groups' hs
      rw [hout groups' hs, hout groups (.refl _), selectedOf_shuffled hu hs hnote hchunk hloop]

end Shuffled

end Outcome

end SynapsNotes.Retrieval
