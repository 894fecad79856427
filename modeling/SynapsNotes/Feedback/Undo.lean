import SynapsNotes.Feedback.Boosts
import SynapsNotes.Framework.Transition

/-!
# Changing a rating

What the boosts should be at any time: the clamp of the sum of the deltas of
the ratings as they stand (`standing`), whatever was rated before. A rating
that replaces another one keeps to that, unless clamping had cut off a part
of the sum and the new rating is milder: taking the previous delta back then
gives the source more than that delta had taken from it
(`recordFeedback_settled_iff`).
-/

namespace SynapsNotes.Feedback

open Framework

/-- The messages, by their ids. A message that lists a source twice cites it
twice. -/
structure MessageTable where
  message : UUID → ChatMessage
  id_message (id : UUID) : (message id).id = id

variable {T : UUIDText} {M : MessageTable}

/-- The sum, over the messages that cite the source, of the deltas of their
ratings. -/
def deltaSum (M : MessageTable) (ratings : AList fun _ : UUID => AssistantAnswerFeedback)
    (src : Source) : ℚ :=
  (ratings.entries.map fun e => citations (M.message e.1) src * delta e.2).sum

/-- That sum, for the ratings that are recorded. -/
def standing (M : MessageTable) (s : FeedbackState) (src : Source) : ℚ :=
  deltaSum M s.feedbackByAssistantMessageId src

/-- Every boost is the clamp of what the recorded ratings add up to. -/
def Settled (M : MessageTable) (s : FeedbackState) : Prop :=
  ∀ src, s.boost src = clampedBoost (standing M s src)

/-- One session of the app: ratings of any messages. -/
def session (T : UUIDText) (M : MessageTable) : Machine FeedbackState (AssistantAnswerFeedback × UUID) where
  step s a := some (recordFeedback T a.1 (M.message a.2) s)

/-- The rating is not milder than the one it replaces, or no source that the
message cites has lost a part of its sum to the clamp; or the message lists
the source so often that the rating takes any boost to the lower bound. -/
def Recoverable (M : MessageTable) (s : FeedbackState) (a : AssistantAnswerFeedback × UUID) : Prop :=
  (M.message a.2).role = "assistant" →
    ∀ previous ∈ s.feedbackByAssistantMessageId.lookup a.2, delta previous < delta a.1 →
      ∀ src, 0 < citations (M.message a.2) src →
        -2 / 10 ≤ standing M s src ∨ 2 / 10 + citations (M.message a.2) src * delta a.1 ≤ -2 / 10

/-! ## The sum of the recorded ratings -/

theorem standing_recordFeedback {f : AssistantAnswerFeedback} {id : UUID} {s : FeedbackState}
    (hr : (M.message id).role = "assistant") (src : Source) :
    standing M (recordFeedback T f (M.message id) s) src =
      standing M s src - ((s.feedbackByAssistantMessageId.lookup id).map fun previous =>
        citations (M.message id) src * delta previous).getD 0 + citations (M.message id) src * delta f := by
  rw [standing, feedback_recordFeedback hr, M.id_message]
  exact sum_entries_insert (fun i f => citations (M.message i) src * delta f) _ _ _

theorem deltaSum_nonpos (ratings : AList fun _ : UUID => AssistantAnswerFeedback) (src : Source) :
    deltaSum M ratings src ≤ 0 := by
  rw [deltaSum]
  induction ratings.entries with
  | nil => exact le_rfl
  | cons e l ih =>
    rw [List.map_cons, List.sum_cons]
    have := mul_nonpos_of_nonneg_of_nonpos
      (Nat.cast_nonneg (α := ℚ) (citations (M.message e.1) src)) (delta_neg e.2).le
    linarith

theorem standing_nonpos (s : FeedbackState) (src : Source) : standing M s src ≤ 0 :=
  deltaSum_nonpos _ src

/-- What the other messages add up to is not positive either. -/
theorem standing_sub_nonpos {s : FeedbackState} {id : UUID} {previous : AssistantAnswerFeedback}
    (hp : s.feedbackByAssistantMessageId.lookup id = some previous) (src : Source) :
    standing M s src - citations (M.message id) src * delta previous ≤ 0 := by
  have h := sum_entries_erase (fun i f => (citations (M.message i) src : ℚ) * delta f)
    s.feedbackByAssistantMessageId id
  rw [hp] at h
  exact h ▸ deltaSum_nonpos (s.feedbackByAssistantMessageId.erase id) src

/-! ## One rating -/

/-- A first rating leaves every boost what it should be. -/
theorem settled_of_first {s : FeedbackState} (hs : Settled M s) {f : AssistantAnswerFeedback} {id : UUID}
    (hr : (M.message id).role = "assistant") (hp : s.feedbackByAssistantMessageId.lookup id = none) :
    Settled M (recordFeedback T f (M.message id) s) := by
  intro src
  have hp' : s.feedbackByAssistantMessageId.lookup (M.message id).id = none := by
    rw [M.id_message, hp]
  have hd : (citations (M.message id) src : ℚ) * delta f ≤ 0 :=
    mul_nonpos_of_nonneg_of_nonpos (Nat.cast_nonneg _) (delta_neg f).le
  have hS := standing_nonpos (M := M) s src
  have hmem := clamp_mem (by norm_num : (-2 / 10 : ℚ) ≤ 2 / 10) (standing M s src)
  rw [boost_recordFeedback_first hr hp', standing_recordFeedback hr, hp, hs src, clampedBoost_eq,
    clampedBoost_eq, iterate_of_nonpos (delta_neg f).le hmem, clamp_of_le (by linarith),
    Option.map_none, Option.getD_none, sub_zero, clamp_of_le (by linarith)]
  rcases le_total (-2 / 10) (standing M s src) with h | h
  · rw [max_eq_right h]
  · rw [max_eq_left h, max_eq_left (by linarith), max_eq_left (by linarith)]

/-- A rating leaves every boost what it should be exactly if it is
recoverable. -/
theorem recordFeedback_settled_iff {s : FeedbackState} (hs : Settled M s)
    (a : AssistantAnswerFeedback × UUID) :
    Settled M (recordFeedback T a.1 (M.message a.2) s) ↔ Recoverable M s a := by
  obtain ⟨f, id⟩ := a
  by_cases hr : (M.message id).role = "assistant"
  · cases hp : s.feedbackByAssistantMessageId.lookup id with
    | none =>
      refine iff_of_true (settled_of_first hs hr hp) fun _ previous h => ?_
      rw [hp] at h
      exact nomatch h
    | some previous =>
      have hp' : s.feedbackByAssistantMessageId.lookup (M.message id).id = some previous := by
        rw [M.id_message, hp]
      have hsrc (src : Source) :
          (recordFeedback T f (M.message id) s).boost src =
              clampedBoost (standing M (recordFeedback T f (M.message id) s) src) ↔
            (0 < citations (M.message id) src → delta previous < delta f →
              -2 / 10 ≤ standing M s src ∨
                2 / 10 + citations (M.message id) src * delta f ≤ -2 / 10) := by
        rw [boost_recordFeedback_again hr hp', standing_recordFeedback hr, hp, hs src, clampedBoost_eq,
          clampedBoost_eq]
        exact iterate_replace_clamp_iff (delta_neg f).le (delta_neg previous).le (by norm_num)
          (by norm_num) _ (standing_sub_nonpos hp src)
      constructor
      · intro h _ previous' hprev hlt src hc
        cases hp.symm.trans hprev
        exact (hsrc src).mp (h src) hc hlt
      · intro h src
        exact (hsrc src).mpr fun hc hlt => h hr previous hp hlt src hc
  · simp only [recordFeedback_of_role hr]
    exact iff_of_true hs fun h => absurd h hr

/-! ## A session -/

theorem settled_initial : Settled M FeedbackState.initial := by
  have h : clampedBoost 0 = 0 := by decide +kernel
  intro src
  cases src <;> exact h.symm

/-- In every state of a session the boosts are the clamps of the sums of the
recorded ratings, exactly if every rating in it is recoverable. -/
theorem settled_iff_recoverable (T : UUIDText) (M : MessageTable)
    (as : List (AssistantAnswerFeedback × UUID)) :
    (session T M).Always (Settled M) FeedbackState.initial as ↔
      (session T M).Meets (Recoverable M) FeedbackState.initial as := by
  refine Machine.always_iff_meets (fun _ h => h) ?_ ?_ settled_initial as
  · rintro s a _ hs hok ⟨⟩
    exact (recordFeedback_settled_iff hs a).mpr hok
  · rintro s a _ hs ⟨⟩ hs'
    exact (recordFeedback_settled_iff hs a).mp hs'

/-- Answers that all cite the note 1. -/
def MessageTable.citingNote : MessageTable where
  message id := ⟨id, "assistant", "", none, [1], [], 0, none⟩
  id_message _ := rfl

/-- Four answers are rated "not relevant", then one of them "missing source":
the boost of the note is −0.15, the sum of the ratings −0.19. -/
theorem milder_rating_after_clamp : ¬ (session .tally .citingNote).Always (Settled .citingNote)
    FeedbackState.initial [(.notRelevant, 10), (.notRelevant, 11), (.notRelevant, 12),
      (.notRelevant, 13), (.missingSource, 10)] := by
  intro h
  have hsettled := h.last rfl (.note 1)
  revert hsettled
  decide +kernel

end SynapsNotes.Feedback
