import SynapsNotes.Data.Schema
import SynapsNotes.Framework.Clamp
import SynapsNotes.Framework.Dictionary
import Mathlib.Algebra.Order.Field.Rat

/-!
# Ratings of answers and the boosts of their sources

`recordFeedback` of the view model: a rating of an assistant message lowers
the boosts of the sources the message cites, after the rating it had before
was taken back. The boosts are kept in the user defaults (`saveBoostMap`,
`loadBoostMap`); the ratings are not. Boosts are exact numbers here.

What a rating does is said once, for a source of either kind: to its boost
(`boost_recordFeedback_first`, `boost_recordFeedback_again`) and to the record
of the ratings (`feedback_recordFeedback`).
-/

namespace SynapsNotes.Feedback

open Framework

inductive AssistantAnswerFeedback
  | notRelevant
  | partlyWrong
  | missingSource
  deriving DecidableEq

def delta : AssistantAnswerFeedback → ℚ
  | .notRelevant => -6 / 100
  | .partlyWrong => -3 / 100
  | .missingSource => -1 / 100

def clampedBoost (value : ℚ) : ℚ := max (-2 / 10) (min (2 / 10) value)

/-- A `UUID` as a text, and a text as a `UUID`. -/
structure UUIDText where
  uuidString : UUID → String
  uuid : String → Option UUID
  uuid_uuidString (id : UUID) : uuid (uuidString id) = some id

/-- Ids as tallies. -/
def UUIDText.tally : UUIDText where
  uuidString id := String.ofList (List.replicate id 'F')
  uuid s := some s.toList.length
  uuid_uuidString id := by simp

/-- The part of the view model that has to do with feedback, and the two
dictionaries of the user defaults. -/
structure FeedbackState where
  feedbackByAssistantMessageId : AList fun _ : UUID => AssistantAnswerFeedback
  noteFeedbackBoosts : AList fun _ : UUID => ℚ
  chunkFeedbackBoosts : AList fun _ : UUID => ℚ
  ragNoteBoosts : Option (AList fun _ : String => ℚ)
  ragChunkBoosts : Option (AList fun _ : String => ℚ)

/-- Before anything was rated. -/
def FeedbackState.initial : FeedbackState := ⟨∅, ∅, ∅, none, none⟩

def loadBoostMap (T : UUIDText) (raw : Option (AList fun _ : String => ℚ)) : AList fun _ : UUID => ℚ :=
  match raw with
  | none => ∅
  | some raw => rekeyed T.uuid raw

def saveBoostMap (T : UUIDText) (map : AList fun _ : UUID => ℚ) : Option (AList fun _ : String => ℚ) :=
  some (rekeyed (fun id => some (T.uuidString id)) map)

/-- One of the loops of `applyFeedbackDelta`. -/
def addToAll (delta : ℚ) (ids : List UUID) (boosts : AList fun _ : UUID => ℚ) : AList fun _ : UUID => ℚ :=
  ids.foldl (fun boosts id => boosts.insert id (clampedBoost ((boosts.lookup id).getD 0 + delta))) boosts

def applyFeedbackDelta (delta : ℚ) (message : ChatMessage) (s : FeedbackState) : FeedbackState :=
  { s with
    noteFeedbackBoosts := addToAll delta message.sourceNoteIds s.noteFeedbackBoosts
    chunkFeedbackBoosts := addToAll delta message.sourceKnowledgeChunkIds s.chunkFeedbackBoosts }

def recordFeedback (T : UUIDText) (feedback : AssistantAnswerFeedback) (message : ChatMessage)
    (s : FeedbackState) : FeedbackState :=
  if message.role = "assistant" then
    let s := match s.feedbackByAssistantMessageId.lookup message.id with
      | some previous => applyFeedbackDelta (delta previous * -1) message s
      | none => s
    let s := { s with
      feedbackByAssistantMessageId := s.feedbackByAssistantMessageId.insert message.id feedback }
    let s := applyFeedbackDelta (delta feedback) message s
    { s with
      ragNoteBoosts := saveBoostMap T s.noteFeedbackBoosts
      ragChunkBoosts := saveBoostMap T s.chunkFeedbackBoosts }
  else s

/-- `init`, on the user defaults that an earlier launch left. -/
def relaunch (T : UUIDText) (s : FeedbackState) : FeedbackState :=
  { s with
    feedbackByAssistantMessageId := ∅
    noteFeedbackBoosts := loadBoostMap T s.ragNoteBoosts
    chunkFeedbackBoosts := loadBoostMap T s.ragChunkBoosts }

/-! ## Sources -/

/-- A source of either kind. -/
inductive Source
  | note (id : UUID)
  | knowledgeChunk (id : UUID)
  deriving DecidableEq

/-- How often the message lists the source. -/
def citations (message : ChatMessage) : Source → ℕ
  | .note id => message.sourceNoteIds.count id
  | .knowledgeChunk id => message.sourceKnowledgeChunkIds.count id

def FeedbackState.boost (s : FeedbackState) : Source → ℚ
  | .note id => (s.noteFeedbackBoosts.lookup id).getD 0
  | .knowledgeChunk id => (s.chunkFeedbackBoosts.lookup id).getD 0

/-- The boost that a launch would find. -/
def FeedbackState.storedBoost (T : UUIDText) (s : FeedbackState) : Source → ℚ :=
  (relaunch T s).boost

/-! ## What a rating does -/

theorem delta_neg (f : AssistantAnswerFeedback) : delta f < 0 := by
  cases f <;> decide +kernel

theorem clampedBoost_eq (value : ℚ) : clampedBoost value = clamp (-2 / 10) (2 / 10) value := rfl

theorem lookup_addToAll (delta : ℚ) (ids : List UUID) (boosts : AList fun _ : UUID => ℚ) (id : UUID) :
    ((addToAll delta ids boosts).lookup id).getD 0 =
      (clampedAdd (-2 / 10) (2 / 10) delta)^[ids.count id] ((boosts.lookup id).getD 0) := by
  rw [addToAll]
  induction ids generalizing boosts with
  | nil => rfl
  | cons i ids ih =>
    rw [List.foldl_cons, ih]
    by_cases hi : i = id
    · subst hi
      rw [List.count_cons_self, Function.iterate_succ_apply, AList.lookup_insert]
      rfl
    · rw [List.count_cons_of_ne hi, AList.lookup_insert_ne (Ne.symm hi)]

theorem boost_applyFeedbackDelta (delta : ℚ) (message : ChatMessage) (s : FeedbackState) (src : Source) :
    (applyFeedbackDelta delta message s).boost src =
      (clampedAdd (-2 / 10) (2 / 10) delta)^[citations message src] (s.boost src) := by
  cases src with
  | note id => exact lookup_addToAll _ _ _ _
  | knowledgeChunk id => exact lookup_addToAll _ _ _ _

section RecordFeedback

variable {T : UUIDText} {f previous : AssistantAnswerFeedback} {message : ChatMessage} {s : FeedbackState}

theorem recordFeedback_of_role (h : message.role ≠ "assistant") : recordFeedback T f message s = s :=
  if_neg h

/-- A first rating adds its delta. -/
theorem boost_recordFeedback_first (hr : message.role = "assistant")
    (hp : s.feedbackByAssistantMessageId.lookup message.id = none) (src : Source) :
    (recordFeedback T f message s).boost src =
      (clampedAdd (-2 / 10) (2 / 10) (delta f))^[citations message src] (s.boost src) := by
  rw [recordFeedback, if_pos hr, hp]
  exact boost_applyFeedbackDelta _ _ { s with feedbackByAssistantMessageId := _ } src

/-- A later rating takes the previous delta back before it adds its own. -/
theorem boost_recordFeedback_again (hr : message.role = "assistant")
    (hp : s.feedbackByAssistantMessageId.lookup message.id = some previous) (src : Source) :
    (recordFeedback T f message s).boost src =
      (clampedAdd (-2 / 10) (2 / 10) (delta f))^[citations message src]
        ((clampedAdd (-2 / 10) (2 / 10) (-delta previous))^[citations message src] (s.boost src)) := by
  rw [recordFeedback, if_pos hr, hp]
  refine (boost_applyFeedbackDelta _ _ { applyFeedbackDelta _ _ s with feedbackByAssistantMessageId := _ }
    src).trans ?_
  rw [← mul_neg_one (delta previous)]
  exact congrArg _ (boost_applyFeedbackDelta _ _ _ src)

/-- The rating is recorded under the message, and the other ratings stay. -/
theorem feedback_recordFeedback (hr : message.role = "assistant") :
    (recordFeedback T f message s).feedbackByAssistantMessageId =
      s.feedbackByAssistantMessageId.insert message.id f := by
  rw [recordFeedback, if_pos hr]
  split <;> rfl

theorem boost_mem_recordFeedback (h : ∀ src, -2 / 10 ≤ s.boost src ∧ s.boost src ≤ 2 / 10) (src : Source) :
    -2 / 10 ≤ (recordFeedback T f message s).boost src ∧
      (recordFeedback T f message s).boost src ≤ 2 / 10 := by
  by_cases hr : message.role = "assistant"
  · cases hp : s.feedbackByAssistantMessageId.lookup message.id with
    | none =>
      rw [boost_recordFeedback_first hr hp]
      exact clampedAdd_iterate_mem (h src) _ _
    | some previous =>
      rw [boost_recordFeedback_again hr hp]
      exact clampedAdd_iterate_mem (clampedAdd_iterate_mem (h src) _ _) _ _
  · rw [recordFeedback_of_role hr]
    exact h src

/-! ## What is stored -/

theorem lookup_load_save (T : UUIDText) (map : AList fun _ : UUID => ℚ) (id : UUID) :
    (loadBoostMap T (saveBoostMap T map)).lookup id = map.lookup id := by
  have hinj {a b : UUID} (h : T.uuidString a = T.uuidString b) : a = b :=
    Option.some.inj (by rw [← T.uuid_uuidString a, h, T.uuid_uuidString])
  have hsave (i : UUID) : (rekeyed (fun id => some (T.uuidString id)) map).lookup (T.uuidString i) =
      map.lookup i :=
    lookup_rekeyed (f := fun id => some (T.uuidString id)) rfl map fun a _ ha =>
      hinj (Option.some.inj ha)
  rw [← hsave id]
  refine lookup_rekeyed (T.uuid_uuidString id) _ fun text htext hid => ?_
  -- every stored key is the text of an id
  obtain ⟨i, _, hi⟩ := exists_of_mem_rekeyed htext
  cases hi
  rw [T.uuid_uuidString] at hid
  rw [Option.some.inj hid]

theorem storedBoost_recordFeedback (hr : message.role = "assistant") :
    (recordFeedback T f message s).storedBoost T = (recordFeedback T f message s).boost := by
  funext src
  rw [recordFeedback, if_pos hr]
  cases src with
  | note id => exact congrArg (·.getD 0) (lookup_load_save T _ id)
  | knowledgeChunk id => exact congrArg (·.getD 0) (lookup_load_save T _ id)

end RecordFeedback

end SynapsNotes.Feedback
