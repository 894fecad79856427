import SynapsNotes.Knowledge.Chunking

/-!
# Where sentences end

`splitIntoSentences` goes from one match of its pattern to the next, with the
boundaries that it ignores left out. What it returns is the text cut at the
positions at which it ends a sentence, each piece trimmed
(`splitIntoSentences_eq`): the whitespace of a match belongs to no sentence,
and whether a piece begins before or behind it makes no difference.
-/

namespace SynapsNotes.Knowledge

open Framework

variable {U : Unicode} {text : Text} {i j start : Nat}

/-! ## Cutting a text at positions -/

/-- What lies between the positions, trimmed, where anything is left. -/
def cutAt (text : Text) : List Nat → Nat → List Text
  | [], start => nonEmpty (Text.trimmingCharacters (text.drop start))
  | cut :: cuts, start =>
    nonEmpty (Text.trimmingCharacters ((text.take cut).drop start)) ++ cutAt text cuts cut

/-- The sentences that end at the positions, and the last one. -/
def sentencesAt (text : Text) (cuts : List Nat) : List Text :=
  let sentences := cutAt text cuts 0
  if sentences.isEmpty then [text] else sentences

def isTerminator (c : Char) : Bool := c == '.' || c == '!' || c == '?'

/-- A terminator stands right before the position. -/
def behindTerminator (text : Text) (i : Nat) : Bool := decide (0 < i) && text[i - 1]?.any isTerminator

/-- The pattern matches from a position on. -/
def isBoundary (text : Text) (i : Nat) : Bool := behindTerminator text i && text[i]?.any isRegexSpace

theorem isWhitespace_of_isRegexSpace {c : Char} (h : isRegexSpace c = true) : isWhitespace c = true := by
  simp only [isRegexSpace, Bool.and_eq_true] at h
  exact h.1.1

theorem isWhitespace_of_isTerminator {c : Char} (h : isTerminator c = true) : isWhitespace c = false := by
  simp only [isTerminator, Bool.or_eq_true, beq_iff_eq] at h
  obtain (rfl | rfl) | rfl := h <;> rfl

theorem sentenceBoundaries_eq (text : Text) : sentenceBoundaries text =
    ((List.range text.length).filter (isBoundary text)).map fun i => (i, advanceWhile isRegexSpace text i) := by
  rw [← List.filterMap_eq_map, List.filterMap_filter, sentenceBoundaries]
  refine List.filterMap_congr fun i _ => ?_
  cases i with
  | zero => rfl
  | succ i =>
    simp only [isBoundary, behindTerminator, Nat.add_sub_cancel]
    cases text[i]? with
    | none => simp
    | some prev =>
      cases text[i + 1]? with
      | none => simp
      | some c => simp [isTerminator, or_assoc]

theorem drop_eq_slice_append {t : Text} {start' : Nat} (hle : start' ≤ start) :
    t.drop start' = (t.take start).drop start' ++ t.drop start := by
  conv_lhs => rw [← List.take_append_drop (start - start') (t.drop start')]
  rw [List.drop_take, List.drop_drop, Nat.add_sub_cancel' hle]

/-- Whitespace that a slice begins with is trimmed. -/
theorem trimmingCharacters_drop {t : Text} {start' : Nat} (hle : start' ≤ start)
    (hws : ∀ c ∈ (t.take start).drop start', isWhitespace c = true) :
    Text.trimmingCharacters (t.drop start') = Text.trimmingCharacters (t.drop start) := by
  rw [drop_eq_slice_append hle, Text.trimmingCharacters, trim, List.dropWhile_append_of_pos hws]
  rfl

theorem take_advanceWhile (p : Char → Bool) (text : Text) (i : Nat) :
    (text.take (advanceWhile p text i)).drop i = (text.drop i).takeWhile p := by
  rw [advanceWhile, List.drop_take, Nat.add_sub_cancel_left]
  exact (List.prefix_iff_eq_take.mp (List.takeWhile_prefix p)).symm

theorem le_advanceWhile (p : Char → Bool) (text : Text) (i : Nat) : i ≤ advanceWhile p text i := Nat.le_add_right ..

/-- What is passed over satisfies the predicate. -/
theorem any_of_lt_advanceWhile {p : Char → Bool} (hi : i ≤ j) (hj : j < advanceWhile p text i) :
    text[j]?.any p = true := by
  obtain ⟨k, rfl⟩ := Nat.exists_eq_add_of_le hi
  have hk : k < ((text.drop i).takeWhile p).length := by
    unfold advanceWhile at hj
    omega
  have hget : text[i + k]? = some ((text.drop i).takeWhile p)[k] := by
    rw [← List.getElem?_drop, (List.takeWhile_prefix p).getElem hk]
    exact List.getElem?_eq_getElem _
  rw [hget, Option.any_some]
  exact List.mem_takeWhile_imp (List.getElem_mem hk)

/-- No terminator is whitespace, so the pattern matches no more within a run. -/
theorem advanceWhile_le_of_isBoundary (hij : i < j) (hj : behindTerminator text j = true) :
    advanceWhile isRegexSpace text i ≤ j := by
  by_contra hlt
  have hspace : text[j - 1]?.any isRegexSpace = true :=
    any_of_lt_advanceWhile (show i ≤ j - 1 by omega) (show j - 1 < advanceWhile isRegexSpace text i by omega)
  simp only [behindTerminator, Bool.and_eq_true] at hj
  obtain ⟨c, hc, hterminator⟩ := (Option.any_eq_true _ _).mp hj.2
  rw [hc, Option.any_some] at hspace
  exact Bool.false_ne_true ((isWhitespace_of_isTerminator hterminator).symm.trans (isWhitespace_of_isRegexSpace hspace))

/-- The sentences from a start on, where whitespace that precedes it may be
put in front. -/
theorem sentencesFrom_eq_cutAt {positions : List Nat} {start' : Nat} (hle : start' ≤ start)
    (hws : ∀ c ∈ (text.take start).drop start', isWhitespace c = true) (hfrom : ∀ i ∈ positions, start ≤ i)
    (hsorted : positions.Pairwise fun i j => advanceWhile isRegexSpace text i ≤ j) :
    sentencesFrom U text (positions.map fun i => (i, advanceWhile isRegexSpace text i)) start =
      cutAt text (positions.filter fun i => !shouldIgnoreSentenceBoundary U text i) start' := by
  induction positions generalizing start start' with
  | nil =>
    rw [List.map_nil, sentencesFrom, List.filter_nil, cutAt, trimmingCharacters_drop hle hws]
  | cons i positions ih =>
    obtain ⟨hafter, hsorted⟩ := List.pairwise_cons.mp hsorted
    rw [List.map_cons, sentencesFrom]
    split
    case isTrue hignore =>
      rw [List.filter_cons_of_neg (by rw [hignore]; exact Bool.false_ne_true)]
      exact ih hle hws (fun j hj => hfrom j (List.mem_cons_of_mem i hj)) hsorted
    case isFalse hignore =>
      rw [Bool.not_eq_true] at hignore
      have hslice : ((text.take i).take start).drop start' = (text.take start).drop start' := by
        rw [List.take_take, Nat.min_eq_left (hfrom i List.mem_cons_self)]
      have hpiece : Text.trimmingCharacters ((text.take i).drop start') =
          Text.trimmingCharacters ((text.take i).drop start) :=
        trimmingCharacters_drop hle (by rwa [hslice])
      have hspaces : ∀ c ∈ (text.take (advanceWhile isRegexSpace text i)).drop i, isWhitespace c = true := by
        rw [take_advanceWhile]
        exact fun c hc => isWhitespace_of_isRegexSpace (List.mem_takeWhile_imp hc)
      rw [List.filter_cons_of_pos (by rw [hignore]; rfl), cutAt, hpiece,
        ih (le_advanceWhile isRegexSpace text i) hspaces hafter hsorted]

/-- The positions at which the service ends a sentence. -/
def sentenceEnds (U : Unicode) (text : Text) : List Nat :=
  (List.range text.length).filter fun i => isBoundary text i && !shouldIgnoreSentenceBoundary U text i

/-- The sentences are what lies between the positions at which the service ends
one. -/
theorem splitIntoSentences_eq (U : Unicode) (text : Text) :
    splitIntoSentences U text = sentencesAt text (sentenceEnds U text) := by
  have hsorted : ((List.range text.length).filter (isBoundary text)).Pairwise
      fun i j => advanceWhile isRegexSpace text i ≤ j := by
    refine (List.pairwise_lt_range.filter _).imp_of_mem fun _ hj hij => advanceWhile_le_of_isBoundary hij ?_
    have hboundary := (List.mem_filter.mp hj).2
    simp only [isBoundary, Bool.and_eq_true] at hboundary
    exact hboundary.1
  have hfrom : ∀ i ∈ (List.range text.length).filter (isBoundary text), 0 ≤ i := fun i _ => Nat.zero_le i
  have hcut := sentencesFrom_eq_cutAt (U := U) (Nat.le_refl 0) (by simp) hfrom hsorted
  rw [List.filter_filter] at hcut
  rw [splitIntoSentences, sentencesAt, sentenceBoundaries_eq, hcut, sentenceEnds]
  simp only [Bool.and_comm]

end SynapsNotes.Knowledge
