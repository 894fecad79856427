import SynapsNotes.Editor.Draft
import SynapsNotes.Framework.Transition

/-!
# The controller of the note editor's assistant

`NoteEditorAIController` as a machine: the calls of the editor (`start`,
`resume`, `stop`, `accept`, `reject`) and the segments of the tasks that
`runGeneration` creates, in any order. A task that is cancelled goes on to
its end, and its deferred cleanup resets the controller.

What a call that creates a task and what a segment can do is said once
(`start_cases`, `resume_cases`, `proceed_cases`).
-/

namespace SynapsNotes.Editor

open Framework Chat

/-! ## The state -/

/-- Where the task of a generation is suspended, with what it awaits or holds
there. -/
inductive Suspension
  | created
  | templating (messages : List PromptMessage)
  | opening (templatedPrompt : String)
  | streaming (rawOutput : String)
  | ended
  deriving DecidableEq

def Suspension.isEnded : Suspension → Bool
  | ended => true
  | _ => false

/-- The task that one call of `runGeneration` creates. -/
structure Generation where
  prompt : String
  appendToExistingPreview : Bool
  basePreview : String
  isCancelled : Bool
  at_ : Suspension
  deriving DecidableEq

/-- The generation has neither ended nor been cancelled: it can still write
the preview. -/
def Generation.isLive (g : Generation) : Bool := !g.isCancelled && !g.at_.isEnded

/-- The controller, with the tasks `runGeneration` has created
(`generationTask` is the position of one). -/
structure Controller where
  activeAction : Option NoteAIAction
  outputStyle : NoteAIOutputStyle
  isGenerating : Bool
  previewText : String
  errorMessage : Option String
  scopeDescription : Option String
  snapshot : Option Snapshot
  generationTask : Option Nat
  generations : List Generation
  deriving DecidableEq

def Controller.new : Controller where
  activeAction := none
  outputStyle := .balanced
  isGenerating := false
  previewText := ""
  errorMessage := none
  scopeDescription := none
  snapshot := none
  generationTask := none
  generations := []

/-- What a suspended task goes on with. A stream that is cancelled may still
hand out a token it has buffered. -/
inductive Event
  | begin
  | templated (templatedPrompt : String)
  | opened
  | token (token : String)
  | finished
  | failed (localizedDescription : String)
  deriving DecidableEq

inductive Action
  | setOutputStyle (style : NoteAIOutputStyle)
  | start (action : NoteAIAction) (noteText : String) (selectedRange : NSRange) (isModelLoaded isAppGenerating : Bool)
  | resume (isAppGenerating : Bool)
  | stop
  | accept
  | reject
  | proceed (generation : Nat) (event : Event)

/-- The output a task holds where it is suspended, until it ends. -/
def Suspension.rawOutput : Suspension → Option String
  | .created | .templating _ | .opening _ => some ""
  | .streaming rawOutput => some rawOutput
  | .ended => none

/-- The event ends a task that is at `g`. -/
def Event.ends (g : Generation) : Event → Bool
  | .token _ => g.isCancelled
  | .finished | .failed _ => true
  | .begin | .templated _ | .opened => false

namespace Controller

/-! ## The calls -/

def hasPendingPreview (c : Controller) : Bool := c.activeAction.isSome

def canResume (c : Controller) : Bool := c.hasPendingPreview && !c.isGenerating

def canAcceptPreview (c : Controller) : Bool := !(trimmed c.previewText).isEmpty

/-- `generationTask?.cancel()`. -/
def cancelTask (c : Controller) : Controller :=
  match c.generationTask with
  | some i => { c with generations := c.generations.modify i fun g => { g with isCancelled := true } }
  | none => c

def clearState (c : Controller) : Controller :=
  { c.cancelTask with
    generationTask := none
    activeAction := none
    isGenerating := false
    previewText := ""
    errorMessage := none
    scopeDescription := none
    snapshot := none }

/-- The part of `runGeneration` before its task begins. -/
def runGeneration (prompt : String) (appendToExistingPreview : Bool) (c : Controller) : Controller :=
  let c := c.cancelTask
  let previewText := if appendToExistingPreview then c.previewText else ""
  let basePreview := if appendToExistingPreview then previewText else ""
  { c with
    isGenerating := true
    previewText
    generationTask := some c.generations.length
    generations := c.generations ++
      [{ prompt, appendToExistingPreview, basePreview, isCancelled := false, at_ := .created }] }

def start (action : NoteAIAction) (noteText : String) (selectedRange : NSRange)
    (isModelLoaded isAppGenerating : Bool) (c : Controller) : Controller × Bool :=
  if c.hasPendingPreview then
    ({ c with errorMessage := some "Accept or discard the current draft first." }, false)
  else if !isModelLoaded then
    ({ c with errorMessage := some "Load a chat model from Settings to use AI actions." }, false)
  else if isAppGenerating then
    ({ c with errorMessage := some "Another generation is already running." }, false)
  else
    let safeSelection := clampedRange selectedRange noteText
    if action ≠ .autoComplete ∧ ¬ 0 < safeSelection.length ∧ (trimmed noteText).isEmpty then
      ({ c with errorMessage := some "There is no text to process." }, false)
    else
      let snapshot := takeSnapshot action noteText safeSelection
      let c := { c with
        snapshot := some snapshot
        activeAction := some action
        previewText := ""
        errorMessage := none
        scopeDescription := some (scopeText snapshot.mode ++ " • Style: " ++ c.outputStyle.title) }
      (c.runGeneration (buildPrompt action snapshot c.outputStyle) false, true)

def resume (isAppGenerating : Bool) (c : Controller) : Controller × Bool :=
  if !c.canResume then (c, false)
  else if isAppGenerating then
    ({ c with errorMessage := some "Another generation is already running." }, false)
  else
    match c.activeAction, c.snapshot with
    | some action, some snapshot =>
      let currentDraft := trimmed c.previewText
      if currentDraft.isEmpty then ({ c with errorMessage := some "Nothing to resume yet." }, false)
      else
        let c := { c with errorMessage := none }
        (c.runGeneration (buildResumePrompt action snapshot c.outputStyle currentDraft) true, true)
    | _, _ => ({ c with errorMessage := some "No preview session to resume." }, false)

/-- The generation in the actor is asked to stop by a task of its own, which
does not come back to the controller. -/
def stop (c : Controller) : Controller :=
  if !c.isGenerating then c
  else { c.cancelTask with generationTask := none, isGenerating := false }

def accept (c : Controller) : Controller × Option ApplyResult :=
  match c.activeAction, c.snapshot with
  | some action, some snapshot =>
    if !c.canAcceptPreview then (c, none)
    else (c.clearState, some (applied action snapshot c.previewText))
  | _, _ => (c, none)

def reject (c : Controller) : Controller × Option RejectResult :=
  match c.snapshot with
  | none => (c.clearState, none)
  | some snapshot => (c.clearState, some ⟨snapshot.baseText, snapshot.originalSelection⟩)

/-! ## The segments of a task -/

/-- The deferred cleanup. -/
def cleanup (c : Controller) : Controller := { c with isGenerating := false, generationTask := none }

def setGeneration (i : Nat) (g : Generation) (c : Controller) : Controller :=
  { c with generations := c.generations.set i g }

/-- The task leaves its closure. -/
def finish (i : Nat) (g : Generation) (c : Controller) : Controller :=
  (c.setGeneration i { g with at_ := .ended }).cleanup

/-- The segment of task `i`, which is at `g`, that an event sets off. -/
def proceed (i : Nat) (g : Generation) (event : Event) (c : Controller) : Option Controller :=
  match g.at_, event with
  | .created, .begin => some (c.setGeneration i { g with at_ := .templating (generationMessages g.prompt) })
  | .templating _, .templated templatedPrompt => some (c.setGeneration i { g with at_ := .opening templatedPrompt })
  | .opening _, .opened => some (c.setGeneration i { g with at_ := .streaming "" })
  | .streaming rawOutput, .token token =>
    if g.isCancelled then some (c.finish i g)
    else
      let r := editorStep g.appendToExistingPreview g.basePreview (rawOutput, c.previewText) token
      some ({ c with previewText := r.2 }.setGeneration i { g with at_ := .streaming r.1 })
  | .streaming _, .finished => some (c.finish i g)
  | .streaming _, .failed localizedDescription =>
    some ({ c with errorMessage := some ("Generation failed: " ++ localizedDescription) }.finish i g)
  | _, _ => none

def machine : Machine Controller Action where
  step c
    | .setOutputStyle style => some { c with outputStyle := style }
    | .start action noteText selectedRange isModelLoaded isAppGenerating =>
      some (c.start action noteText selectedRange isModelLoaded isAppGenerating).1
    | .resume isAppGenerating => some (c.resume isAppGenerating).1
    | .stop => some c.stop
    | .accept => some c.accept.1
    | .reject => some c.reject.1
    | .proceed i event => (c.generations[i]?).bind fun g => c.proceed i g event

/-! ## What the steps do -/

variable {c c' : Controller} {i : Nat} {g : Generation}

theorem length_cancelTask (c : Controller) : c.cancelTask.generations.length = c.generations.length := by
  unfold cancelTask
  split
  · exact List.length_modify ..
  · rfl

theorem previewText_cancelTask (c : Controller) : c.cancelTask.previewText = c.previewText := by
  unfold cancelTask
  split <;> rfl

theorem activeAction_cancelTask (c : Controller) : c.cancelTask.activeAction = c.activeAction := by
  unfold cancelTask
  split <;> rfl

theorem snapshot_cancelTask (c : Controller) : c.cancelTask.snapshot = c.snapshot := by
  unfold cancelTask
  split <;> rfl

/-- `start` is refused with a message, or takes the note as it is and creates a
task. -/
theorem start_cases (c : Controller) (action : NoteAIAction) (noteText : String) (selectedRange : NSRange)
    (isModelLoaded isAppGenerating : Bool) :
    (∃ errorMessage, c.start action noteText selectedRange isModelLoaded isAppGenerating =
      ({ c with errorMessage }, false)) ∨
    c.hasPendingPreview = false ∧ ∃ c₁ scopeDescription prompt, c₁ = { c with
        snapshot := some (takeSnapshot action noteText (clampedRange selectedRange noteText))
        activeAction := some action
        previewText := ""
        errorMessage := none
        scopeDescription } ∧
      c.start action noteText selectedRange isModelLoaded isAppGenerating = (c₁.runGeneration prompt false, true) := by
  unfold start
  split
  · exact .inl ⟨_, rfl⟩
  rename_i hpending
  split
  · exact .inl ⟨_, rfl⟩
  split
  · exact .inl ⟨_, rfl⟩
  dsimp only
  split
  · exact .inl ⟨_, rfl⟩
  · exact .inr ⟨Bool.eq_false_iff.mpr hpending, _, _, _, rfl, rfl⟩

/-- `resume` is refused, or goes on behind the preview, in which there is
something. -/
theorem resume_cases (c : Controller) (isAppGenerating : Bool) :
    (∃ errorMessage, c.resume isAppGenerating = ({ c with errorMessage }, false)) ∨
    (trimmed c.previewText).isEmpty = false ∧ ∃ c₁ prompt, c₁ = { c with errorMessage := none } ∧
      c.resume isAppGenerating = (c₁.runGeneration prompt true, true) := by
  unfold resume
  split
  · exact .inl ⟨_, rfl⟩
  split
  · exact .inl ⟨_, rfl⟩
  split
  · dsimp only
    split
    · exact .inl ⟨_, rfl⟩
    · rename_i hdraft
      exact .inr ⟨Bool.eq_false_iff.mpr hdraft, _, _, rfl, rfl⟩
  · exact .inl ⟨_, rfl⟩

/-- What a segment can do: its task goes on without output, it puts out a
token, or it ends and cleans up. -/
theorem proceed_cases {event : Event} (h : c.proceed i g event = some c') :
    (∃ s, event.ends g = false ∧ (∀ token, event ≠ .token token) ∧ g.at_.isEnded = false ∧ s.isEnded = false ∧
      s.rawOutput = g.at_.rawOutput ∧ c' = c.setGeneration i { g with at_ := s }) ∨
    (∃ rawOutput token, event = .token token ∧ g.isCancelled = false ∧ g.at_ = .streaming rawOutput ∧
      c' = { c with
        previewText := (editorStep g.appendToExistingPreview g.basePreview (rawOutput, c.previewText) token).2
      }.setGeneration i { g with at_ := .streaming (rawOutput ++ token) }) ∨
    ∃ errorMessage, event.ends g = true ∧ c' = { c with errorMessage }.finish i g := by
  unfold Controller.proceed at h
  split at h
  · rename_i hphase
    cases h
    exact .inl ⟨_, rfl, by simp, by rw [hphase]; rfl, rfl, by rw [hphase]; rfl, rfl⟩
  · rename_i hphase
    cases h
    exact .inl ⟨_, rfl, by simp, by rw [hphase]; rfl, rfl, by rw [hphase]; rfl, rfl⟩
  · rename_i hphase
    cases h
    exact .inl ⟨_, rfl, by simp, by rw [hphase]; rfl, rfl, by rw [hphase]; rfl, rfl⟩
  · rename_i rawOutput token hphase
    split at h
    · rename_i hcancelled
      cases h
      exact .inr (.inr ⟨_, hcancelled, rfl⟩)
    · rename_i hcancelled
      cases h
      exact .inr (.inl ⟨rawOutput, token, rfl, Bool.eq_false_iff.mpr hcancelled, hphase, rfl⟩)
  · cases h
    exact .inr (.inr ⟨_, rfl, rfl⟩)
  · cases h
    exact .inr (.inr ⟨_, rfl, rfl⟩)
  · cases h

end Controller

end SynapsNotes.Editor
