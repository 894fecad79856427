import SynapsNotes.Retrieval.Scoring
import Mathlib.Order.UpperLower.Basic

/-!
# Which candidates are returned

`diversifyAndBalance` goes through the candidates from the best score down.
It takes the best note first, whatever its score, then the best chunk if its
score is close, and then what is left as long as there is room, at most a few
chunks of a document and no text twice.

The first candidate it takes is therefore not always the best one it takes:
`head_max_iff` says exactly when it is.
-/

namespace SynapsNotes.Retrieval

open FloatLike

variable {α : Type}

def sameSource (lhs rhs : ScoredCandidate α) : Bool :=
  match lhs.source, rhs.source with
  | .note left, .note right => left.id == right.id
  | .chunk left, .chunk right => left.id == right.id
  | _, _ => false

/-- The variables of `diversifyAndBalance`. -/
structure Selection (α : Type) where
  selected : List (ScoredCandidate α)
  selectedFingerprints : Finset Text
  chunkPerDocumentCount : UUID → Nat

namespace Selection

def empty : Selection α := ⟨[], ∅, fun _ => 0⟩

def select (s : Selection α) (c : ScoredCandidate α) : Selection α :=
  { s with
    selected := s.selected ++ [c]
    selectedFingerprints := insert c.fingerprint s.selectedFingerprints }

def setCount (s : Selection α) (documentId : Option UUID) (count : UUID → Nat) : Selection α :=
  match documentId with
  | some id => { s with chunkPerDocumentCount := Function.update s.chunkPerDocumentCount id (count id) }
  | none => s

/-- The candidates the loop passes over. -/
def skips (profile : RAGRetrievalProfile) (s : Selection α) (c : ScoredCandidate α) : Bool :=
  s.selected.any (sameSource · c) || decide (c.fingerprint ∈ s.selectedFingerprints) ||
    !c.source.isNote && c.documentId.any fun id => profile.maxChunksPerDocument ≤ s.chunkPerDocumentCount id

def offer (profile : RAGRetrievalProfile) (s : Selection α) (c : ScoredCandidate α) : Selection α :=
  if s.skips profile c then s
  else if c.source.isNote then s.select c
  else (s.select c).setCount c.documentId fun id => s.chunkPerDocumentCount id + 1

/-- The loop, which ends when there is no more room. -/
def fill (profile : RAGRetrievalProfile) : List (ScoredCandidate α) → Selection α → Selection α
  | [], s => s
  | c :: cs, s => if s.selected.length < profile.maxResults then fill profile cs (s.offer profile c) else s

section Seed

variable [FloatLike α]

def scoreGap (top bestChunk : ScoredCandidate α) : α := FloatLike.abs (top.fusedScore - bestChunk.fusedScore)

/-- The best note and the best chunk, before the loop. -/
def seed (profile : RAGRetrievalProfile) (candidates : List (ScoredCandidate α)) : Selection α :=
  let bestNote := candidates.find? (·.source.isNote)
  let bestChunk := candidates.find? (!·.source.isNote)
  let s : Selection α := match bestNote with
    | some bestNote => empty.select bestNote
    | none => empty
  match bestChunk with
  | some bestChunk =>
    match s.selected.head? with
    | some top =>
      if scoreGap top bestChunk ≤ lit 0.18 ∧ s.selected.length < profile.maxResults then
        (s.select bestChunk).setCount bestChunk.documentId fun _ => 1
      else s
    | none => (s.select bestChunk).setCount bestChunk.documentId fun _ => 1
  | none => s

end Seed

end Selection

def diversifyAndBalance [FloatLike α] (candidates : List (ScoredCandidate α)) (profile : RAGRetrievalProfile) :
    List (ScoredCandidate α) :=
  if candidates.isEmpty then [] else (Selection.fill profile candidates (.seed profile candidates)).selected

namespace Selection

/-! ## What the loop adds -/

@[simp] theorem setCount_selected (s : Selection α) (d : Option UUID) (count : UUID → Nat) :
    (s.setCount d count).selected = s.selected := by
  unfold setCount; split <;> rfl

@[simp] theorem setCount_selectedFingerprints (s : Selection α) (d : Option UUID) (count : UUID → Nat) :
    (s.setCount d count).selectedFingerprints = s.selectedFingerprints := by
  unfold setCount; split <;> rfl

variable {profile : RAGRetrievalProfile} {s : Selection α} {c : ScoredCandidate α}

/-- A candidate is passed over or appended. -/
theorem offer_cases (profile : RAGRetrievalProfile) (s : Selection α) (c : ScoredCandidate α) :
    s.skips profile c = true ∧ s.offer profile c = s ∨
      s.skips profile c = false ∧ (s.offer profile c).selected = s.selected ++ [c] ∧
        (s.offer profile c).selectedFingerprints = insert c.fingerprint s.selectedFingerprints := by
  unfold offer
  cases s.skips profile c
  · right
    refine ⟨rfl, ?_⟩
    rw [if_neg Bool.false_ne_true]
    split
    · exact ⟨rfl, rfl⟩
    · exact ⟨setCount_selected _ _ _, setCount_selectedFingerprints _ _ _⟩
  · exact .inl ⟨rfl, rfl⟩

/-- What the loop keeps, given that there is room for each candidate it is
offered. -/
theorem fill_induction {I : Selection α → Prop} {cs : List (ScoredCandidate α)} (h₀ : I s)
    (hstep : ∀ s, ∀ c ∈ cs, s.selected.length < profile.maxResults → I s → I (s.offer profile c)) :
    I (fill profile cs s) := by
  induction cs generalizing s with
  | nil => exact h₀
  | cons c cs ih =>
    unfold fill
    split
    · rename_i hroom
      exact ih (hstep s c List.mem_cons_self hroom h₀) fun s c hc => hstep s c (List.mem_cons_of_mem _ hc)
    · exact h₀

/-- What the loop keeps of a property of candidates and fingerprints. -/
theorem fill_invariant {I : Selection α → Prop} {cs : List (ScoredCandidate α)}
    (h₀ : I s) (hstep : ∀ s, ∀ c ∈ cs, I s → I (s.offer profile c)) : I (fill profile cs s) :=
  fill_induction h₀ fun s c hc _ => hstep s c hc

theorem prefix_fill (profile : RAGRetrievalProfile) (cs : List (ScoredCandidate α)) (s : Selection α) :
    s.selected <+: (fill profile cs s).selected := by
  refine fill_invariant (I := fun t => s.selected <+: t.selected) (List.prefix_refl _) fun t c _ ht => ?_
  rcases offer_cases profile t c with ⟨-, h⟩ | ⟨-, h, -⟩
  · rw [h]
    exact ht
  · rw [h]
    exact ht.trans (List.prefix_append _ _)

/-- The loop takes candidates only. -/
theorem mem_of_mem_fill {cs : List (ScoredCandidate α)} (h : c ∈ (fill profile cs s).selected) :
    c ∈ s.selected ∨ c ∈ cs := by
  refine fill_invariant (I := fun t => ∀ c ∈ t.selected, c ∈ s.selected ∨ c ∈ cs) (fun c hc => .inl hc)
    (fun t d hd ht c hc => ?_) c h
  rcases offer_cases profile t d with ⟨-, he⟩ | ⟨-, he, -⟩
  · exact ht c (he ▸ hc)
  · rw [he] at hc
    rcases List.mem_append.mp hc with hc | hc
    · exact ht c hc
    · exact .inr (List.mem_singleton.mp hc ▸ hd)

/-- Beside a note, a chunk with another text is not passed over. -/
theorem skips_beside_note {note : ScoredCandidate α} (hnote : note.source.isNote) (hc : c.source.isNote = false)
    (hfp : c.fingerprint ≠ note.fingerprint) : (empty.select note).skips profile c = false := by
  have hsame : sameSource note c = false := by
    unfold sameSource
    split <;> simp_all [CandidateSource.isNote]
  have hcount : ¬ profile.maxChunksPerDocument ≤ 0 := by
    have := profile.maxChunksPerDocument_pos
    omega
  simp [skips, Selection.empty, select, hsame, hcount, hfp]

/-- While every text among some candidates is the note's own, none of them is
taken beside the note. -/
theorem forall_mem_fill {note : ScoredCandidate α} {cs : List (ScoredCandidate α)} {S : Set α}
    (hnote : note.fusedScore ∉ S) (hfp : ∀ c ∈ cs, c.fusedScore ∈ S → c.fingerprint = note.fingerprint) :
    ∀ c ∈ (fill profile cs (Selection.empty.select note)).selected, c.fusedScore ∉ S := by
  let I : Selection α → Prop := fun s =>
    note.fingerprint ∈ s.selectedFingerprints ∧ ∀ c ∈ s.selected, c.fusedScore ∉ S
  have h₀ : I (Selection.empty.select note) :=
    ⟨Finset.mem_insert_self _ _, fun c hc => by rwa [List.mem_singleton.mp hc]⟩
  have hstep : ∀ s, ∀ c ∈ cs, I s → I (s.offer profile c) := by
    rintro s c hc ⟨hmem, hnot⟩
    rcases offer_cases profile s c with ⟨-, he⟩ | ⟨hskip, he, hefp⟩
    · rw [he]
      exact ⟨hmem, hnot⟩
    · show _ ∈ (s.offer profile c).selectedFingerprints ∧ ∀ d ∈ (s.offer profile c).selected, _
      rw [he, hefp]
      refine ⟨Finset.mem_insert_of_mem hmem, fun d hd => ?_⟩
      rcases List.mem_append.mp hd with hd | hd
      · exact hnot d hd
      · rw [List.mem_singleton.mp hd]
        intro habove
        rw [skips, hfp c hc habove, decide_eq_true hmem, Bool.or_true, Bool.true_or] at hskip
        exact nomatch hskip
  exact (fill_invariant h₀ hstep).2

end Selection

/-! ## The best candidate taken -/

section Head

variable [FloatLike α] {profile : RAGRetrievalProfile} {candidates : List (ScoredCandidate α)}

open Selection

/-- The best note is the best candidate, or the candidates above it are not
taken: the best chunk is not close, and all that score higher share the
note's text. -/
def NoteLeads (candidates : List (ScoredCandidate α)) : Prop :=
  ∀ note ∈ candidates.find? (·.source.isNote),
    (∀ c ∈ candidates, c.fusedScore ≤ note.fusedScore) ∨
      ∀ chunk ∈ candidates.find? (!·.source.isNote), ¬ scoreGap note chunk ≤ lit 0.18 ∧
        ∀ c ∈ candidates, note.fusedScore < c.fusedScore → c.fingerprint = note.fingerprint

instance (candidates : List (ScoredCandidate α)) : Decidable (NoteLeads candidates) :=
  inferInstanceAs (Decidable (∀ note ∈ candidates.find? (·.source.isNote),
    (∀ c ∈ candidates, c.fusedScore ≤ note.fusedScore) ∨
      ∀ chunk ∈ candidates.find? (!·.source.isNote), ¬ scoreGap note chunk ≤ lit 0.18 ∧
        ∀ c ∈ candidates, note.fusedScore < c.fusedScore → c.fingerprint = note.fingerprint))

/-- The best score comes first. -/
abbrev Descending (candidates : List (ScoredCandidate α)) : Prop :=
  candidates.Pairwise fun a b => b.fusedScore ≤ a.fusedScore

theorem seed_eq_of_no_note {chunk : ScoredCandidate α} (hn : candidates.find? (·.source.isNote) = none)
    (hc : candidates.find? (!·.source.isNote) = some chunk) :
    seed profile candidates = (Selection.empty.select chunk).setCount chunk.documentId fun _ => 1 := by
  simp [seed, hn, hc, Selection.empty]

theorem seed_of_no_note (hn : candidates.find? (·.source.isNote) = none) :
    (seed profile candidates).selected = (candidates.find? (!·.source.isNote)).toList := by
  cases hc : candidates.find? (!·.source.isNote) with
  | none => simp [seed, hn, hc, Selection.empty]
  | some chunk =>
    rw [seed_eq_of_no_note hn hc]
    exact setCount_selected _ _ _

theorem seed_eq_of_close {note chunk : ScoredCandidate α} (hn : candidates.find? (·.source.isNote) = some note)
    (hc : candidates.find? (!·.source.isNote) = some chunk) (hgap : scoreGap note chunk ≤ lit 0.18) :
    seed profile candidates = ((Selection.empty.select note).select chunk).setCount chunk.documentId fun _ => 1 := by
  have hroom : 1 < profile.maxResults := profile.two_le_maxResults
  simp only [seed, hn, hc]
  show (if scoreGap note chunk ≤ lit 0.18 ∧ 1 < profile.maxResults then _ else _ : Selection α) = _
  rw [if_pos ⟨hgap, hroom⟩]

theorem seed_of_close {note chunk : ScoredCandidate α} (hn : candidates.find? (·.source.isNote) = some note)
    (hc : candidates.find? (!·.source.isNote) = some chunk) (hgap : scoreGap note chunk ≤ lit 0.18) :
    (seed profile candidates).selected = [note, chunk] := by
  rw [seed_eq_of_close hn hc hgap]
  exact setCount_selected _ _ _

theorem seed_of_far {note : ScoredCandidate α} (hn : candidates.find? (·.source.isNote) = some note)
    (hgap : ∀ chunk ∈ candidates.find? (!·.source.isNote), ¬ scoreGap note chunk ≤ lit 0.18) :
    seed profile candidates = Selection.empty.select note := by
  simp only [seed, hn]
  split
  · rename_i chunk hc
    show (if scoreGap note chunk ≤ lit 0.18 ∧ _ then _ else _ : Selection α) = _
    rw [if_neg fun h => hgap chunk hc h.1]
  · rfl

/-- What is taken before the loop: nothing, the chunk, the note, or the note
and a chunk close to it. -/
theorem seed_cases (profile : RAGRetrievalProfile) (candidates : List (ScoredCandidate α)) :
    seed profile candidates = Selection.empty ∨
      (∃ chunk ∈ candidates.find? (!·.source.isNote), candidates.find? (·.source.isNote) = none ∧
        seed profile candidates = (Selection.empty.select chunk).setCount chunk.documentId fun _ => 1) ∨
      (∃ note ∈ candidates.find? (·.source.isNote),
        (∀ chunk ∈ candidates.find? (!·.source.isNote), ¬ scoreGap note chunk ≤ lit 0.18) ∧
          seed profile candidates = Selection.empty.select note) ∨
      ∃ note ∈ candidates.find? (·.source.isNote), ∃ chunk ∈ candidates.find? (!·.source.isNote),
        scoreGap note chunk ≤ lit 0.18 ∧
          seed profile candidates =
            ((Selection.empty.select note).select chunk).setCount chunk.documentId fun _ => 1 := by
  cases hn : candidates.find? (·.source.isNote) with
  | none =>
    cases hc : candidates.find? (!·.source.isNote) with
    | none => exact .inl (by simp [seed, hn, hc, Selection.empty])
    | some chunk => exact .inr (.inl ⟨chunk, rfl, rfl, seed_eq_of_no_note hn hc⟩)
  | some note =>
    refine .inr (.inr ?_)
    by_cases hgap : ∀ chunk ∈ candidates.find? (!·.source.isNote), ¬ scoreGap note chunk ≤ lit 0.18
    · exact .inl ⟨note, rfl, hgap, seed_of_far hn hgap⟩
    · push Not at hgap
      obtain ⟨chunk, hc, hgap⟩ := hgap
      exact .inr ⟨note, rfl, chunk, hc, hgap, seed_eq_of_close hn hc hgap⟩

/-- The note, if there is one, comes first. -/
theorem head_seed (profile : RAGRetrievalProfile) (candidates : List (ScoredCandidate α)) :
    (seed profile candidates).selected.head? =
      (candidates.find? (·.source.isNote)).or (candidates.find? (!·.source.isNote)) := by
  cases hn : candidates.find? (·.source.isNote) with
  | none =>
    rw [seed_of_no_note hn]
    cases candidates.find? (!·.source.isNote) <;> rfl
  | some note =>
    by_cases hgap : ∀ chunk ∈ candidates.find? (!·.source.isNote), ¬ scoreGap note chunk ≤ lit 0.18
    · rw [seed_of_far hn hgap]
      rfl
    · push Not at hgap
      obtain ⟨chunk, hc, hgap⟩ := hgap
      rw [seed_of_close hn hc hgap]
      rfl

theorem mem_of_mem_seed {c : ScoredCandidate α} (h : c ∈ (seed profile candidates).selected) :
    c ∈ candidates := by
  cases hn : candidates.find? (·.source.isNote) with
  | none =>
    rw [seed_of_no_note hn, Option.mem_toList] at h
    exact List.mem_of_find?_eq_some h
  | some note =>
    by_cases hgap : ∀ chunk ∈ candidates.find? (!·.source.isNote), ¬ scoreGap note chunk ≤ lit 0.18
    · rw [seed_of_far hn hgap] at h
      rw [List.mem_singleton.mp h]
      exact List.mem_of_find?_eq_some hn
    · push Not at hgap
      obtain ⟨chunk, hc, hgap⟩ := hgap
      rw [seed_of_close hn hc hgap] at h
      rcases List.mem_pair.mp h with rfl | rfl
      · exact List.mem_of_find?_eq_some hn
      · exact List.mem_of_find?_eq_some hc

theorem diversifyAndBalance_eq (hne : candidates ≠ []) : diversifyAndBalance candidates profile =
    (fill profile candidates (seed profile candidates)).selected := by
  unfold diversifyAndBalance
  rw [if_neg fun h => hne (List.isEmpty_iff.mp h)]

/-- What is taken are candidates. -/
theorem mem_of_mem_diversifyAndBalance {c : ScoredCandidate α}
    (h : c ∈ diversifyAndBalance candidates profile) : c ∈ candidates := by
  by_cases hne : candidates = []
  · subst hne
    exact nomatch h
  · rw [diversifyAndBalance_eq hne] at h
    exact (mem_of_mem_fill h).elim mem_of_mem_seed id

/-- Of several candidates one is taken, and the first of all is the note. -/
theorem head_diversifyAndBalance (profile : RAGRetrievalProfile) (hne : candidates ≠ []) :
    ∃ top, (diversifyAndBalance candidates profile).head? = some top ∧
      (candidates.find? (·.source.isNote)).or (candidates.find? (!·.source.isNote)) = some top := by
  obtain ⟨c, cs, rfl⟩ := List.exists_cons_of_ne_nil hne
  have hsome : ∃ top, ((c :: cs).find? (·.source.isNote)).or ((c :: cs).find? (!·.source.isNote)) = some top := by
    cases hc : c.source.isNote <;> simp [hc]
  obtain ⟨top, htop⟩ := hsome
  refine ⟨top, ?_, htop⟩
  rw [diversifyAndBalance_eq hne]
  have hhead := (head_seed profile (c :: cs)).trans htop
  obtain ⟨t, ht⟩ := prefix_fill profile (c :: cs) (seed profile (c :: cs))
  rw [← ht, List.head?_append, hhead]
  rfl

/-- While only the note is taken, a candidate above it with another text is
taken when its turn comes, or one that is no worse. -/
theorem exists_mem_fill (profile : RAGRetrievalProfile) {note c : ScoredCandidate α} {cs : List (ScoredCandidate α)}
    {S : Set α} (hS : IsUpperSet S) (hd : Descending cs)
    (hchunk : ∀ d ∈ cs, d.fusedScore ∈ S → d.source.isNote = false)
    (hnote : note.source.isNote) (hc : c ∈ cs) (habove : c.fusedScore ∈ S) (hfp : c.fingerprint ≠ note.fingerprint) :
    ∃ d ∈ (fill profile cs (Selection.empty.select note)).selected, d.fusedScore ∈ S := by
  induction cs with
  | nil => exact nomatch hc
  | cons d cs ih =>
    obtain ⟨hle, hd⟩ := List.pairwise_cons.mp hd
    have hdabove : d.fusedScore ∈ S := by
      rcases List.mem_cons.mp hc with rfl | hc
      · exact habove
      · exact hS (hle c hc) habove
    have hroom : (Selection.empty.select note).selected.length < profile.maxResults := profile.two_le_maxResults
    rw [fill, if_pos hroom]
    rcases offer_cases profile (Selection.empty.select note) d with ⟨hskip, he⟩ | ⟨-, he, -⟩
    · rw [he]
      refine ih hd (fun d hd => hchunk d (List.mem_cons_of_mem _ hd)) ((List.mem_cons.mp hc).resolve_left ?_)
      rintro rfl
      -- passed over, so of the note's text
      rw [skips_beside_note hnote (hchunk c List.mem_cons_self habove) hfp] at hskip
      exact absurd hskip Bool.false_ne_true
    · refine ⟨d, (prefix_fill profile cs _).subset ?_, hdabove⟩
      rw [he]
      exact List.mem_append_right _ (List.mem_singleton_self d)

theorem le_head_of_descending {top c : ScoredCandidate α} (hd : Descending candidates)
    (ht : candidates.head? = some top) (hc : c ∈ candidates) : c.fusedScore ≤ top.fusedScore := by
  cases candidates with
  | nil => exact nomatch hc
  | cons d cs =>
    cases ht
    rcases List.mem_cons.mp hc with rfl | hc
    · exact le_refl _
    · exact (List.pairwise_cons.mp hd).1 c hc

/-- The first of a kind is the best of its kind. -/
theorem le_of_find? {p : ScoredCandidate α → Bool} {best c : ScoredCandidate α} (hd : Descending candidates)
    (hb : candidates.find? p = some best) (hc : c ∈ candidates) (hp : p c) : c.fusedScore ≤ best.fusedScore := by
  obtain ⟨-, as, bs, rfl, has⟩ := List.find?_eq_some_iff_append.mp hb
  rcases List.mem_append.mp hc with hc | hc
  · exact absurd hp (by simpa using has c hc)
  · exact le_head_of_descending (List.pairwise_append.mp hd).2.1 rfl hc

/-- What is above the best note is a chunk. -/
theorem isNote_of_above {note c : ScoredCandidate α} (hd : Descending candidates)
    (hn : candidates.find? (·.source.isNote) = some note) (hc : c ∈ candidates)
    (habove : note.fusedScore < c.fusedScore) : c.source.isNote = false := by
  rw [← Bool.not_eq_true]
  exact fun hcn => absurd habove (not_lt.mpr (le_of_find? hd hn hc hcn))

/-- Where a candidate is above the best note, and the best chunk is close to
the note or some text above it is another one, something above it is taken. -/
theorem exists_above_taken (profile : RAGRetrievalProfile) {note chunk c : ScoredCandidate α} (hd : Descending candidates)
    (hn : candidates.find? (·.source.isNote) = some note) (hchunk : candidates.find? (!·.source.isNote) = some chunk)
    (hc : c ∈ candidates) (habove : note.fusedScore < c.fusedScore)
    (hfar : ¬ scoreGap note chunk ≤ lit 0.18 →
      ∃ d ∈ candidates, note.fusedScore < d.fusedScore ∧ d.fingerprint ≠ note.fingerprint) :
    ∃ d ∈ diversifyAndBalance candidates profile, note.fusedScore < d.fusedScore := by
  rw [diversifyAndBalance_eq (List.ne_nil_of_mem hc)]
  have hchunks := fun d hdm => isNote_of_above (c := d) hd hn hdm
  by_cases hgap : scoreGap note chunk ≤ lit 0.18
  · -- the best chunk is taken with the note, and is no worse than the one above the note
    have hcabove : note.fusedScore < chunk.fusedScore :=
      habove.trans_le (le_of_find? hd hchunk hc (by rw [hchunks c hc habove]; rfl))
    refine ⟨chunk, (prefix_fill profile _ _).subset ?_, hcabove⟩
    rw [seed_of_close hn hchunk hgap]
    exact List.mem_pair.mpr (.inr rfl)
  · obtain ⟨d, hdm, hdabove, hdfp⟩ := hfar hgap
    rw [seed_of_far hn fun ch hch => by rwa [Option.some.inj (hch.symm.trans hchunk)]]
    have hnote : note.source.isNote := by simpa using List.find?_some hn
    exact exists_mem_fill profile (isUpperSet_Ioi note.fusedScore) hd hchunks hnote hdm hdabove hdfp

/-- Where the best chunk is not close and all that score higher share the
note's text, nothing above the note is taken. -/
theorem le_of_taken {note c : ScoredCandidate α} (hd : Descending candidates)
    (hn : candidates.find? (·.source.isNote) = some note)
    (hfar : ∀ chunk ∈ candidates.find? (!·.source.isNote), ¬ scoreGap note chunk ≤ lit 0.18 ∧
      ∀ c ∈ candidates, note.fusedScore < c.fusedScore → c.fingerprint = note.fingerprint)
    (hc : c ∈ diversifyAndBalance candidates profile) : c.fusedScore ≤ note.fusedScore := by
  have hne : candidates ≠ [] := List.ne_nil_of_mem (mem_of_mem_diversifyAndBalance hc)
  rw [diversifyAndBalance_eq hne, seed_of_far hn fun chunk hchunk => (hfar chunk hchunk).1] at hc
  refine not_lt.mp (forall_mem_fill (S := Set.Ioi note.fusedScore) (lt_irrefl _) (fun d hdm hdabove => ?_) c hc)
  have hdchunk := isNote_of_above hd hn hdm hdabove
  obtain ⟨chunk, hchunk⟩ : ∃ chunk, candidates.find? (!·.source.isNote) = some chunk := by
    rw [← Option.isSome_iff_exists, List.find?_isSome]
    exact ⟨d, hdm, by rw [hdchunk]; rfl⟩
  exact (hfar chunk hchunk).2 d hdm hdabove

/-- The first candidate taken is the best one taken exactly where the best
note leads. -/
theorem head_max_iff (hd : Descending candidates) :
    (∀ top ∈ (diversifyAndBalance candidates profile).head?, ∀ c ∈ diversifyAndBalance candidates profile,
      c.fusedScore ≤ top.fusedScore) ↔ NoteLeads candidates := by
  by_cases hne : candidates = []
  · subst hne
    exact ⟨fun _ _ h => (nomatch h), fun _ _ h => (nomatch h)⟩
  obtain ⟨top, hhead, htop⟩ := head_diversifyAndBalance profile hne
  rw [hhead]
  simp only [Option.mem_some_iff, forall_eq']
  cases hn : candidates.find? (·.source.isNote) with
  | none =>
    -- without a note the best chunk is the best candidate
    rw [hn, Option.none_or] at htop
    refine ⟨fun _ note hnote => (nomatch hn.symm.trans hnote), fun _ c hc => ?_⟩
    refine le_head_of_descending hd ?_ (mem_of_mem_diversifyAndBalance hc)
    obtain ⟨d, ds, rfl⟩ := List.exists_cons_of_ne_nil hne
    have hchunk : d.source.isNote = false := by
      simpa using List.find?_eq_none.mp hn d List.mem_cons_self
    rw [List.find?_cons_of_pos (by rw [hchunk]; rfl)] at htop
    exact htop
  | some note =>
    rw [hn, Option.some_or] at htop
    obtain rfl : note = top := Option.some.inj htop
    unfold NoteLeads
    rw [hn]
    simp only [Option.mem_some_iff, forall_eq']
    constructor
    · intro hle
      by_contra hnot
      push Not at hnot
      obtain ⟨⟨c, hc, habove⟩, chunk, hchunk, hfar⟩ := hnot
      obtain ⟨d, hdm, hdabove⟩ :=
        exists_above_taken profile hd hn hchunk hc habove fun hgap => hfar (not_le.mp hgap)
      exact absurd (hle d hdm) (not_le.mpr hdabove)
    · rintro (hmax | hfar) c hc
      · exact hmax c (mem_of_mem_diversifyAndBalance hc)
      · exact le_of_taken hd hn hfar hc

end Head

end SynapsNotes.Retrieval
