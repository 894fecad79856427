import SynapsNotes.Editor.Controller
import SynapsNotes.Foundation.Surrogates

/-!
# Drafts that are accepted and rejected

What `accept` hands over is what the editor showed (`previewNoteContent`). In
UTF-16 units, it is the note with only the target of the action replaced,
exactly if the target neither begins nor ends inside a surrogate pair
(`applies_iff`): the halves of a pair do not stay what they were.
-/

namespace SynapsNotes.Editor

open Framework NSString

/-! ## The preview in the editor -/

namespace Controller

def previewNoteContent (fallbackCurrentText : String) (c : Controller) : String :=
  match c.activeAction, c.snapshot with
  | some action, some snapshot =>
    let replacement := replacementText action snapshot c.previewText
    (NSString.ofString snapshot.baseText).replacingCharacters snapshot.replacementRange replacement
  | _, _ => fallbackCurrentText

def previewSelectionRange (fallback : NSRange) (c : Controller) : NSRange :=
  match c.activeAction, c.snapshot with
  | some action, some snapshot =>
    let replacement := replacementText action snapshot c.previewText
    let previewContent := c.previewNoteContent snapshot.baseText
    let location := snapshot.replacementRange.location + (NSString.ofString replacement).length
    clampedRange ⟨location, 0⟩ previewContent
  | _, _ => fallback

end Controller

/-! ## What an action is to do -/

/-- The selection, the place of the cursor or all of the note. -/
def targetRange (action : NoteAIAction) (noteText : String) (selection : NSRange) : NSRange :=
  if 0 < selection.length then selection
  else if action = .autoComplete then ⟨selection.location, 0⟩
  else ⟨0, (ofString noteText).length⟩

/-- The units of a text in a range. -/
def unitsIn (range : NSRange) (text : String) : NSString :=
  ((ofString text).drop range.location.toNat).take range.length.toNat

/-- What of the target stays, in front of the draft. -/
def keptUnits (action : NoteAIAction) (noteText : String) (selection : NSRange) : NSString :=
  if action = .autoComplete ∧ 0 < selection.length then unitsIn selection noteText else []

/-- The note with only the target replaced. -/
def replacedUnits (action : NoteAIAction) (noteText : String) (selection : NSRange) (preview : String) : NSString :=
  let target := targetRange action noteText selection
  (ofString noteText).take target.location.toNat ++ (keptUnits action noteText selection ++ ofString preview) ++
    (ofString noteText).drop (target.location.toNat + target.length.toNat)

/-- The place behind what is inserted. -/
def cursorBehind (action : NoteAIAction) (noteText : String) (selection : NSRange) (preview : String) : NSRange :=
  ⟨(targetRange action noteText selection).location +
    (keptUnits action noteText selection ++ ofString preview).length, 0⟩

/-- The target begins or ends inside a surrogate pair. -/
def TargetSplits (action : NoteAIAction) (noteText : String) (selection : NSRange) : Prop :=
  let target := targetRange action noteText selection
  SplitsPair (ofString noteText) target.location.toNat ∨
    SplitsPair (ofString noteText) (target.location.toNat + target.length.toNat)

instance (action : NoteAIAction) (noteText : String) (selection : NSRange) :
    Decidable (TargetSplits action noteText selection) := inferInstanceAs (Decidable (_ ∨ _))

/-- A draft on the note is pending. -/
structure Drafting (action : NoteAIAction) (noteText : String) (selectedRange : NSRange) (c : Controller) : Prop where
  activeAction : c.activeAction = some action
  snapshot : c.snapshot = some (takeSnapshot action noteText (clampedRange selectedRange noteText))

/-- Accepting hands over what the editor shows, the note with only the target
replaced, and the place behind the draft; rejecting hands over the note and the
selection. -/
structure Applies (action : NoteAIAction) (noteText : String) (selectedRange : NSRange) (c : Controller) : Prop where
  accepted : ∀ result, c.accept.2 = some result →
    (∀ fallback, result.content = c.previewNoteContent fallback) ∧
      ofString result.content = replacedUnits action noteText (clampedRange selectedRange noteText) c.previewText ∧
      result.selectedRange = cursorBehind action noteText (clampedRange selectedRange noteText) c.previewText ∧
      ∀ fallback, result.selectedRange = c.previewSelectionRange fallback
  rejected : c.reject.2 = some ⟨noteText, clampedRange selectedRange noteText⟩

/-! ## The target -/

section Target

variable {action : NoteAIAction} {noteText preview : String} {range selection : NSRange}

/-- The range lies in the text. -/
structure InText (range : NSRange) (text : String) : Prop where
  location : 0 ≤ range.location
  length : 0 ≤ range.length
  end_ : range.location + range.length ≤ (ofString text).length

theorem clampedRange_inText (range : NSRange) (text : String) : InText (clampedRange range text) text := by
  refine ⟨?_, ?_, ?_⟩ <;> simp only [clampedRange] <;> omega

theorem clampedRange_of_inText (h : InText range noteText) : clampedRange range noteText = range := by
  obtain ⟨hlocation, hlength, hend⟩ := h
  obtain ⟨location, length⟩ := range
  simp only [clampedRange, NSRange.mk.injEq]
  simp only at hlocation hlength hend
  omega

theorem targetRange_inText (h : InText selection noteText) :
    InText (targetRange action noteText selection) noteText := by
  obtain ⟨hlocation, hlength, hend⟩ := h
  unfold targetRange
  split
  · exact ⟨hlocation, hlength, hend⟩
  · split
    · exact ⟨hlocation, le_rfl, by simp only; omega⟩
    · exact ⟨le_rfl, by simp only; omega, by simp only; omega⟩

theorem ofString_append (s t : String) : ofString (s ++ t) = ofString s ++ ofString t := by
  rw [ofString, String.toList_append, List.flatMap_append]
  rfl

theorem ofString_replacementText (action : NoteAIAction) (noteText : String) (selection : NSRange) (preview : String) :
    ofString (replacementText action (takeSnapshot action noteText selection) preview) =
      repaired (keptUnits action noteText selection) ++ ofString preview := by
  have hmode : (takeSnapshot action noteText selection).mode = .selection ↔ 0 < selection.length := by
    rw [takeSnapshot]
    by_cases hlen : 0 < selection.length
    · simp [hlen]
    · by_cases haction : action = .autoComplete <;> simp [hlen, haction]
  rw [replacementText, keptUnits]
  by_cases h : action = .autoComplete ∧ 0 < selection.length
  · rw [if_pos h, if_pos ⟨h.1, hmode.mpr h.2⟩, ofString_append, repaired]
    simp only [takeSnapshot, if_pos h.2]
    rfl
  · rw [if_neg h, if_neg fun h' => h ⟨h'.1, hmode.mp h'.2⟩]
    rfl

/-- Unless the target splits a pair, what of it stays is what it was. -/
theorem repaired_keptUnits (h : ¬ TargetSplits action noteText selection) :
    repaired (keptUnits action noteText selection) = keptUnits action noteText selection := by
  rw [TargetSplits, not_or] at h
  unfold keptUnits
  split
  · rename_i hkept
    rw [targetRange, if_pos hkept.2] at h
    exact repaired_part h.1 h.2
  · rfl

theorem ofString_content (action : NoteAIAction) (noteText : String) (selection : NSRange) (preview : String) :
    ofString (applied action (takeSnapshot action noteText selection) preview).content =
      repaired ((ofString noteText).take (targetRange action noteText selection).location.toNat ++
        ofString (replacementText action (takeSnapshot action noteText selection) preview) ++
        (ofString noteText).drop ((targetRange action noteText selection).location.toNat +
          (targetRange action noteText selection).length.toNat)) := rfl

theorem replacementText_ne_empty (hp : preview ≠ "") (snapshot : Snapshot) :
    replacementText action snapshot preview ≠ "" := by
  unfold replacementText
  split
  · intro h
    have hlist := congrArg String.toList h
    rw [String.toList_append] at hlist
    exact hp (String.toList_eq_nil_iff.mp (List.append_eq_nil_iff.mp hlist).2)
  · exact hp

/-- Only the target is replaced, unless it splits a pair. -/
theorem ofString_content_iff (hp : preview ≠ "") :
    ofString (applied action (takeSnapshot action noteText selection) preview).content =
        replacedUnits action noteText selection preview ↔ ¬ TargetSplits action noteText selection := by
  rw [ofString_content, repaired_insert _ _ (replacementText_ne_empty hp _), ofString_replacementText, replacedUnits]
  constructor
  · intro h hsplits
    obtain ⟨hfront, hbehind⟩ := List.append_inj h (by simp [length_repaired])
    obtain ⟨hbefore, -⟩ := List.append_inj hfront (by simp [length_repaired])
    obtain hstart | hend := hsplits
    · exact (repaired_take_iff noteText _).mp hbefore hstart
    · exact (repaired_drop_iff noteText _).mp hbehind hend
  · intro h
    rw [repaired_keptUnits h]
    rw [TargetSplits, not_or] at h
    rw [(repaired_take_iff noteText _).mpr h.1, (repaired_drop_iff noteText _).mpr h.2]

/-- The cursor is behind the draft, wherever the target lies. -/
theorem applied_selectedRange (h : InText selection noteText) (preview : String) :
    (applied action (takeSnapshot action noteText selection) preview).selectedRange =
      cursorBehind action noteText selection preview := by
  have htarget : InText (targetRange action noteText selection) noteText := targetRange_inText h
  obtain ⟨hlocation, hlength, hend⟩ := htarget
  have hcontent := congrArg List.length (ofString_content action noteText selection preview)
  have hreplacement := congrArg List.length (ofString_replacementText action noteText selection preview)
  rw [length_repaired, List.length_append, List.length_append, List.length_take, List.length_drop] at hcontent
  rw [List.length_append, length_repaired, ← List.length_append] at hreplacement
  rw [cursorBehind, ← hreplacement]
  refine clampedRange_of_inText ⟨?_, le_rfl, ?_⟩
  · show 0 ≤ (targetRange action noteText selection).location + _
    omega
  · show (targetRange action noteText selection).location + _ + 0 ≤
      ((ofString (applied action (takeSnapshot action noteText selection) preview).content).length : ℤ)
    omega

end Target

/-! ## Pending drafts -/

section Pending

variable {action : NoteAIAction} {noteText : String} {selectedRange : NSRange} {c c' : Controller} {as : List Action}

namespace Controller

/-- A segment of a task leaves the draft as it was asked for. -/
theorem proceed_draft {i : Nat} {g : Generation} {event : Event} (h : c.proceed i g event = some c') :
    c'.activeAction = c.activeAction ∧ c'.snapshot = c.snapshot := by
  obtain ⟨s, -, -, -, -, -, rfl⟩ | ⟨rawOutput, token, -, -, -, rfl⟩ | ⟨message, -, rfl⟩ := proceed_cases h
  · exact ⟨rfl, rfl⟩
  · exact ⟨rfl, rfl⟩
  · exact ⟨rfl, rfl⟩

/-- While a draft is pending, no call replaces it. -/
theorem step_draft {a : Action} (hp : c.hasPendingPreview = true) (hs : machine.step c a = some c')
    (hp' : c'.hasPendingPreview = true) : c'.activeAction = c.activeAction ∧ c'.snapshot = c.snapshot := by
  cases a with
  | setOutputStyle style =>
    cases hs
    exact ⟨rfl, rfl⟩
  | start action noteText selectedRange isModelLoaded isAppGenerating =>
    cases hs
    rw [Controller.start, if_pos hp]
    exact ⟨rfl, rfl⟩
  | resume isAppGenerating =>
    cases hs
    obtain ⟨message, heq⟩ | ⟨-, c₁, prompt, rfl, heq⟩ := c.resume_cases isAppGenerating
    · rw [heq]
      exact ⟨rfl, rfl⟩
    · rw [heq]
      exact ⟨activeAction_cancelTask _, snapshot_cancelTask _⟩
  | stop =>
    cases hs
    unfold Controller.stop
    split
    · exact ⟨rfl, rfl⟩
    · exact ⟨activeAction_cancelTask c, snapshot_cancelTask c⟩
  | accept =>
    cases hs
    unfold Controller.accept at hp' ⊢
    split at hp'
    · split at hp'
      · rename_i hblank
        rw [if_pos hblank]
        exact ⟨rfl, rfl⟩
      · cases hp'
    · exact ⟨rfl, rfl⟩
  | reject =>
    cases hs
    unfold Controller.reject at hp'
    split at hp' <;> cases hp'
  | proceed i event =>
    obtain ⟨g, -, hs⟩ := Option.bind_eq_some_iff.mp hs
    exact proceed_draft hs

end Controller

open Controller

/-- A draft that is asked for is on the note and the selection it was asked
for. -/
theorem drafting_of_start {isModelLoaded isAppGenerating : Bool}
    (h : c.start action noteText selectedRange isModelLoaded isAppGenerating = (c', true)) :
    Drafting action noteText selectedRange c' := by
  obtain ⟨message, heq⟩ | ⟨-, c₁, scopeDescription, prompt, rfl, heq⟩ :=
    c.start_cases action noteText selectedRange isModelLoaded isAppGenerating
  · rw [heq] at h
    cases h
  · rw [heq] at h
    obtain rfl := congrArg Prod.fst h
    exact ⟨activeAction_cancelTask _, snapshot_cancelTask _⟩

/-- And stays so in every run in which it is pending. -/
theorem Drafting.run (h : Drafting action noteText selectedRange c)
    (hpending : machine.Always (fun c => c.hasPendingPreview = true) c as) (hr : machine.run c as = some c') :
    Drafting action noteText selectedRange c' := by
  induction as generalizing c with
  | nil =>
    cases hr
    exact h
  | cons a as ih =>
    obtain ⟨c₁, hs, hrest⟩ := Machine.run_cons.mp hr
    obtain ⟨haction, hsnapshot⟩ := step_draft hpending.1 hs (hpending.2 c₁ hs).head
    exact ih ⟨haction.trans h.activeAction, hsnapshot.trans h.snapshot⟩ (hpending.2 c₁ hs) hrest

theorem accept_of_drafting (h : Drafting action noteText selectedRange c) : c.accept.2 =
    if c.canAcceptPreview then
      some (applied action (takeSnapshot action noteText (clampedRange selectedRange noteText)) c.previewText)
    else none := by
  rw [Controller.accept, h.activeAction, h.snapshot]
  cases hcan : c.canAcceptPreview <;> simp

/-- The editor shows what `accept` hands over. -/
theorem preview_of_drafting (h : Drafting action noteText selectedRange c) (fallback : String) (range : NSRange) :
    (applied action (takeSnapshot action noteText (clampedRange selectedRange noteText)) c.previewText).content =
        c.previewNoteContent fallback ∧
      (applied action (takeSnapshot action noteText (clampedRange selectedRange noteText)) c.previewText).selectedRange =
        c.previewSelectionRange range := by
  rw [previewSelectionRange, previewNoteContent, h.activeAction, h.snapshot]
  refine ⟨rfl, ?_⟩
  dsimp only
  rw [previewNoteContent, h.activeAction, h.snapshot]
  rfl

theorem previewText_ne_empty (h : c.canAcceptPreview = true) : c.previewText ≠ "" := by
  intro hempty
  rw [canAcceptPreview, hempty] at h
  cases h

theorem applies_of_drafting (h : Drafting action noteText selectedRange c) :
    Applies action noteText selectedRange c ↔
      (c.canAcceptPreview = true → ¬ TargetSplits action noteText (clampedRange selectedRange noteText)) := by
  have haccept := accept_of_drafting h
  constructor
  · intro happlies hcan
    rw [if_pos hcan] at haccept
    obtain ⟨-, hunits, -⟩ := happlies.accepted _ haccept
    exact (ofString_content_iff (previewText_ne_empty hcan)).mp hunits
  · intro hsplits
    refine ⟨fun result hresult => ?_, ?_⟩
    · rw [haccept] at hresult
      split at hresult
      · rename_i hcan
        obtain rfl := Option.some.inj hresult
        exact ⟨fun fallback => (preview_of_drafting h fallback ⟨0, 0⟩).1,
          (ofString_content_iff (previewText_ne_empty hcan)).mpr (hsplits hcan),
          applied_selectedRange (clampedRange_inText _ _) _, fun fallback => (preview_of_drafting h "" fallback).2⟩
      · cases hresult
    · rw [Controller.reject, h.snapshot]
      rfl

/-- For every note, selection, action and preview, in every run in which the
draft is pending: accepting and rejecting do what they are to do exactly if the
preview is blank, so that it cannot be accepted, or the target splits no
pair. -/
theorem applies_iff {isModelLoaded isAppGenerating : Bool}
    (hstart : c.start action noteText selectedRange isModelLoaded isAppGenerating = (c', true))
    (hpending : machine.Always (fun c => c.hasPendingPreview = true) c' as) {c₁ : Controller}
    (hr : machine.run c' as = some c₁) (previewText : String) :
    Applies action noteText selectedRange { c₁ with previewText } ↔
      (trimmed previewText).isEmpty = true ∨ ¬ TargetSplits action noteText (clampedRange selectedRange noteText) := by
  have h := (drafting_of_start hstart).run hpending hr
  rw [applies_of_drafting (c := { c₁ with previewText }) ⟨h.activeAction, h.snapshot⟩, canAcceptPreview]
  cases (trimmed previewText).isEmpty <;> simp

end Pending

/-- A continuation of the note at this place, with a draft. -/
def draftAt (noteText : String) (location : Int) (previewText : String) : Controller :=
  { (Controller.new.start .autoComplete noteText ⟨location, 0⟩ true false).1 with previewText }

theorem applies_behind_letter : Applies .autoComplete "a🎈" ⟨1, 0⟩ (draftAt "a🎈" 1 "b") := by
  have hstart : Controller.new.start .autoComplete "a🎈" ⟨1, 0⟩ true false = (draftAt "a🎈" 1 "", true) := rfl
  have hpending : Controller.machine.Always (fun c => c.hasPendingPreview = true) (draftAt "a🎈" 1 "") [] := rfl
  exact (applies_iff hstart hpending rfl "b").mpr (.inr (by decide))

/-- Inside a pair, the draft parts its halves, and neither stays. -/
theorem not_applies_inside_pair : ¬ Applies .autoComplete "🎈" ⟨1, 0⟩ (draftAt "🎈" 1 "b") := fun h =>
  absurd (h.accepted _ rfl).2.1 (by decide)

end SynapsNotes.Editor
