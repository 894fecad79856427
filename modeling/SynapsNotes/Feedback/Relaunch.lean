import SynapsNotes.Feedback.Undo

/-!
# Ratings across launches

The boosts outlive the app and the record of the ratings does not, so that a
rating given after a relaunch takes nothing back. Beside the state of the app
stands what was rated so far: the last rating of each message, and the sum of
the deltas that were applied on its behalf (`Launches`). A message contributes
one delta at most as long as that sum is the delta of its last rating.

`onceEach_iff_takenBack` gives the exact condition under which every rating
of a run keeps to that and rating a message as it was rated last changes no
stored boost.
-/

namespace SynapsNotes.Feedback

open Framework

variable {T : UUIDText} {M : MessageTable}

/-- The deltas that `recordFeedback` applies, in their order. -/
def appliedDeltas (s : FeedbackState) (f : AssistantAnswerFeedback) (id : UUID) : List ℚ :=
  match s.feedbackByAssistantMessageId.lookup id with
  | some previous => [delta previous * -1, delta f]
  | none => [delta f]

/-- The app, and what was rated in all its launches. -/
structure Launches where
  app : FeedbackState
  last : UUID → Option AssistantAnswerFeedback
  applied : UUID → ℚ

def Launches.initial : Launches := ⟨.initial, fun _ => none, fun _ => 0⟩

inductive LaunchAction
  | recordFeedback (feedback : AssistantAnswerFeedback) (id : UUID)
  | relaunch

def launches (T : UUIDText) (M : MessageTable) : Machine Launches LaunchAction where
  step s
    | .recordFeedback f id =>
      let app := recordFeedback T f (M.message id) s.app
      if (M.message id).role = "assistant" then
        some
          { app
            last := Function.update s.last id (some f)
            applied := Function.update s.applied id (s.applied id + (appliedDeltas s.app f id).sum) }
      else some { s with app }
    | .relaunch => some { s with app := relaunch T s.app }

/-- A rating is the application of its deltas, and their recording. -/
theorem boost_recordFeedback_eq_foldl {s : FeedbackState} {f : AssistantAnswerFeedback} {id : UUID}
    (hr : (M.message id).role = "assistant") (src : Source) :
    (recordFeedback T f (M.message id) s).boost src =
      ((appliedDeltas s f id).foldl (fun s d => applyFeedbackDelta d (M.message id) s) s).boost src := by
  rw [appliedDeltas]
  cases hp : s.feedbackByAssistantMessageId.lookup id with
  | none =>
    rw [boost_recordFeedback_first hr (by rw [M.id_message, hp])]
    exact (boost_applyFeedbackDelta _ _ _ _).symm
  | some previous =>
    rw [boost_recordFeedback_again hr (by rw [M.id_message, hp])]
    simp only [List.foldl_cons, List.foldl_nil, boost_applyFeedbackDelta, mul_neg_one]

/-- Every message has contributed the delta of its last rating, and no other,
to the sources it cites. -/
def OneDelta (M : MessageTable) (s : Launches) : Prop :=
  ∀ id src, 0 < citations (M.message id) src → s.applied id = ((s.last id).map delta).getD 0

/-- A rating that the message has already changes no stored boost, and no
message comes to contribute more than one delta. -/
def OnceEach (T : UUIDText) (M : MessageTable) (s : Launches) (a : LaunchAction) (s' : Launches) : Prop :=
  (∀ f id, a = .recordFeedback f id → s.last id = some f →
    ∀ src, s'.app.storedBoost T src = s.app.storedBoost T src) ∧ OneDelta M s'

/-- A message that was rated before and cites a source was rated in this
launch; and if it is rated as it was last, the boost is low enough that the
delta can be taken back before it is applied. -/
def TakenBack (M : MessageTable) (s : Launches) : LaunchAction → Prop
  | .relaunch => True
  | .recordFeedback f id =>
    (M.message id).role = "assistant" → (s.last id).isSome → ∀ src, 0 < citations (M.message id) src →
      (s.app.feedbackByAssistantMessageId.lookup id).isSome ∧
      (s.last id = some f →
        s.app.boost src ≤ max (-2 / 10) (2 / 10 + citations (M.message id) src * delta f))

/-! ## The invariant -/

/-- What every step preserves: the stored boosts are those of the app, within
their bounds, and a rating on record is the message's last. -/
structure Consistent (T : UUIDText) (s : Launches) : Prop where
  stored : s.app.storedBoost T = s.app.boost
  bounds : ∀ src, -2 / 10 ≤ s.app.boost src ∧ s.app.boost src ≤ 2 / 10
  last : ∀ id f, s.app.feedbackByAssistantMessageId.lookup id = some f → s.last id = some f

theorem consistent_initial : Consistent T .initial where
  stored := by
    funext src
    cases src <;> rfl
  bounds src := by
    have h : FeedbackState.initial.boost src = 0 := by cases src <;> rfl
    rw [show Launches.initial.app = FeedbackState.initial from rfl, h]
    norm_num
  last _ _ h := nomatch h

theorem Consistent.step {s s' : Launches} {a : LaunchAction} (h : Consistent T s)
    (he : (launches T M).step s a = some s') : Consistent T s' := by
  cases a with
  | relaunch =>
    cases he
    refine ⟨rfl, fun src => ?_, fun _ _ hf => nomatch hf⟩
    have hsrc : (relaunch T s.app).boost src = s.app.boost src := congrFun h.stored src
    rw [hsrc]
    exact h.bounds src
  | recordFeedback f id =>
    simp only [launches] at he
    split at he
    · rename_i hr
      cases he
      refine ⟨storedBoost_recordFeedback hr, boost_mem_recordFeedback h.bounds, fun i g hg => ?_⟩
      rw [feedback_recordFeedback hr, M.id_message] at hg
      by_cases hi : i = id
      · subst hi
        rw [AList.lookup_insert] at hg
        exact (Function.update_self ..).trans hg
      · rw [AList.lookup_insert_ne hi] at hg
        exact (Function.update_of_ne hi ..).trans (h.last i g hg)
    · rename_i hr
      cases he
      rw [recordFeedback_of_role hr]
      exact ⟨h.stored, h.bounds, h.last⟩

/-! ## One rating -/

section Rating

variable {s : Launches} {f : AssistantAnswerFeedback} {id : UUID}

/-- What a message contributes after a rating of it is the delta of that
rating, exactly if its earlier rating, if it had one, is on record. -/
theorem applied_eq_iff (h : Consistent T s) (hd : s.applied id = ((s.last id).map delta).getD 0) :
    s.applied id + (appliedDeltas s.app f id).sum = delta f ↔
      ((s.last id).isSome → (s.app.feedbackByAssistantMessageId.lookup id).isSome) := by
  rw [hd, appliedDeltas]
  cases hp : s.app.feedbackByAssistantMessageId.lookup id with
  | some previous =>
    rw [h.last id previous hp]
    simp
  | none =>
    cases hl : s.last id with
    | none => simp
    | some previous =>
      have := delta_neg previous
      simp [this.ne]

/-- A rating that the message has on record changes no boost exactly if there
is room to take its delta back. -/
theorem boost_recordFeedback_same_iff (h : Consistent T s) (hr : (M.message id).role = "assistant")
    (hp : s.app.feedbackByAssistantMessageId.lookup id = some f) (src : Source) :
    (recordFeedback T f (M.message id) s.app).boost src = s.app.boost src ↔
      s.app.boost src ≤ max (-2 / 10) (2 / 10 + citations (M.message id) src * delta f) := by
  rw [boost_recordFeedback_again hr (by rw [M.id_message, hp])]
  exact iterate_redo_iff (delta_neg f).le (h.bounds src) _

/-- A source that the message does not cite keeps its boost. -/
theorem boost_recordFeedback_of_not_cited {src : Source} (hc : citations (M.message id) src = 0) :
    (recordFeedback T f (M.message id) s.app).boost src = s.app.boost src := by
  by_cases hr : (M.message id).role = "assistant"
  · cases hp : s.app.feedbackByAssistantMessageId.lookup id with
    | none =>
      rw [boost_recordFeedback_first hr (by rw [M.id_message, hp]), hc]
      rfl
    | some previous =>
      rw [boost_recordFeedback_again hr (by rw [M.id_message, hp]), hc]
      rfl
  · rw [recordFeedback_of_role hr]

/-- A rating of a message keeps what the other messages contributed, and makes
the message contribute one delta exactly if its earlier rating is on record. -/
theorem oneDelta_rate_iff (h : Consistent T s) (hone : OneDelta M s) :
    OneDelta M
        { app := recordFeedback T f (M.message id) s.app
          last := Function.update s.last id (some f)
          applied := Function.update s.applied id (s.applied id + (appliedDeltas s.app f id).sum) } ↔
      ∀ src, 0 < citations (M.message id) src → (s.last id).isSome →
        (s.app.feedbackByAssistantMessageId.lookup id).isSome := by
  constructor
  · intro hs' src hc
    have := hs' id src hc
    simp only [Function.update_self, Option.map_some, Option.getD_some] at this
    exact (applied_eq_iff h (hone id src hc)).mp this
  · intro hrec i src hc
    by_cases hi : i = id
    · subst hi
      simp only [Function.update_self, Option.map_some, Option.getD_some]
      exact (applied_eq_iff h (hone i src hc)).mpr (hrec src hc)
    · simp only [Function.update_of_ne hi]
      exact hone i src hc

end Rating

/-- A step contributes one delta a message at most, and repeats none, exactly
if what it rates can be taken back. -/
theorem onceEach_step_iff {s s' : Launches} {a : LaunchAction} (h : Consistent T s) (hone : OneDelta M s)
    (he : (launches T M).step s a = some s') : OnceEach T M s a s' ↔ TakenBack M s a := by
  have hs' := h.step he
  cases a with
  | relaunch =>
    cases he
    exact iff_of_true ⟨fun _ _ hf => (nomatch hf), hone⟩ trivial
  | recordFeedback f id =>
    simp only [launches] at he
    split at he
    · rename_i hr
      cases he
      have hsame (src : Source) : (recordFeedback T f (M.message id) s.app).storedBoost T src =
          s.app.storedBoost T src ↔
            (recordFeedback T f (M.message id) s.app).boost src = s.app.boost src := by
        rw [storedBoost_recordFeedback hr, h.stored]
      constructor
      · rintro ⟨hrep, hone'⟩ _ hrated src hc
        have hrec := (oneDelta_rate_iff h hone).mp hone' src hc hrated
        refine ⟨hrec, fun hlast => ?_⟩
        obtain ⟨previous, hp⟩ := Option.isSome_iff_exists.mp hrec
        cases hlast.symm.trans (h.last id previous hp)
        exact (boost_recordFeedback_same_iff h hr hp src).mp
          ((hsame src).mp (hrep f id rfl hlast src))
      · intro hok
        refine ⟨fun f' id' heq hlast src => ?_, (oneDelta_rate_iff h hone).mpr fun src hc hrated =>
          (hok hr hrated src hc).1⟩
        cases heq
        refine (hsame src).mpr ?_
        rcases Nat.eq_zero_or_pos (citations (M.message id) src) with hc | hc
        · exact boost_recordFeedback_of_not_cited hc
        · obtain ⟨hrec, hroom⟩ := hok hr (Option.isSome_iff_exists.mpr ⟨f, hlast⟩) src hc
          obtain ⟨previous, hp⟩ := Option.isSome_iff_exists.mp hrec
          cases hlast.symm.trans (h.last id previous hp)
          exact (boost_recordFeedback_same_iff h hr hp src).mpr (hroom hlast)
    · rename_i hr
      cases he
      refine iff_of_true ⟨fun f' id' heq _ src => ?_, hone⟩ fun hr' => absurd hr' hr
      rw [recordFeedback_of_role hr]

end SynapsNotes.Feedback
