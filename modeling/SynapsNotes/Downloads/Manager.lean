import Mathlib.Algebra.Order.Field.Rat
import SynapsNotes.Downloads.Storage
import SynapsNotes.Framework.Transition

/-!
# Downloading models

`ModelDownloadManager` with its URL session. The session delivers one
callback at a time; the callback that takes over a finished file does so in
steps, between which the main actor runs and at any of which the app may
crash. The session's tasks outlive a crash; the states shown, the updates on
their way to them and the callback do not.

A task's description always decodes to the descriptor it was made from, so a
task carries the descriptor itself.
-/

namespace SynapsNotes.Downloads

open Framework ModelStorage

inductive DownloadState
  | notStarted
  | queued
  | downloading (progress : ℚ) (bytesWritten : Int) (totalBytes : Option Int)
  | paused (resumeAvailable : Bool)
  | failed (message : String)
  | completed
  deriving DecidableEq

inductive Stage
  | primary
  | auxiliary
  deriving DecidableEq

structure Descriptor where
  id : ModelId
  kind : ModelKind
  filename : String
  sha256 : Option String
  url : String
  stage : Stage
  auxiliaryFilename : Option String
  auxiliaryURL : Option String
  auxiliarySha256 : Option String
  deriving DecidableEq

def Descriptor.resumeKey (desc : Descriptor) : String := desc.id ++ "__" ++ desc.filename

def Descriptor.destURL (P : Platform) (desc : Descriptor) : ModelPath := P.locate ⟨desc.kind, desc.filename⟩

/-- A download task of the session, and the data it was resumed from. -/
structure SessionTask where
  descriptor : Descriptor
  resumeData : Option Bytes
  isCancelling : Bool
  deriving DecidableEq

/-- Where the callback for a finished file is. -/
inductive FinishPoint
  | clearing
  | moving
  | checking
  | hashing
  | discarding (message : String)
  | verified
  | following
  deriving DecidableEq

/-- The callback for a finished file: what it is the file of and the data its
task was resumed from, what was downloaded, and where it is. -/
structure Finishing where
  descriptor : Descriptor
  resumeData : Option Bytes
  location : Bytes
  at_ : FinishPoint
  deriving DecidableEq

structure Manager where
  files : Files
  resumeData : String → Option Bytes
  tasks : List SessionTask
  callback : Option Finishing
  states : ModelId → DownloadState
  /-- The updates of `states` that the main actor has not run yet. -/
  updates : List (ModelId × DownloadState)

/-- What a file operation comes to: whether it fails, and the system's words
for it. -/
structure Outcome where
  fails : Bool
  localizedDescription : String

inductive Action
  | startDownload (item : ModelCatalogItem)
  | cancelDownload (modelId : ModelId)
  /-- `keeps` says which resume data cannot be removed; here and below, `try?`
  hides that. -/
  | deleteDownloaded (item : ModelCatalogItem) (failsPrimary failsAuxiliary : Bool) (keeps : String → Bool)
  | restorePendingTasks
  | runUpdate (i : Nat)
  | cancelled (i : Nat) (resumeData : Option Bytes) (fails : Bool)
  | didWriteData (i : Nat) (totalBytesWritten totalBytesExpectedToWrite : Int)
  | didFinish (i : Nat) (statusCode : Option Int) (location : Bytes) (fails : Bool)
  | stepFinish (outcome : Outcome)
  | didComplete (i : Nat) (isCancelled : Bool) (localizedDescription : String)
  /-- The app crashes and is launched again; the session delivers the file
  whose callback was under way again, or not. -/
  | crash (redelivers : Bool)

namespace Manager

variable (P : Platform) (m : Manager)

/-- `Task { @MainActor in downloadsVM.setState(_:for:) }`. -/
def setState (state : DownloadState) (id : ModelId) : Manager := { m with updates := m.updates ++ [(id, state)] }

def deleteResumeData (fails : Bool) (key : String) : Manager :=
  { m with resumeData := if fails then m.resumeData else Function.update m.resumeData key none }

def saveResumeData (fails : Bool) (data : Bytes) (key : String) : Manager :=
  { m with resumeData := if fails then m.resumeData else Function.update m.resumeData key (some data) }

/-- Every file whose name starts with the id and two underscores. -/
def deleteAllResumeData (keeps : String → Bool) (modelId : ModelId) : Manager :=
  { m with
    resumeData := fun key =>
      if (modelId ++ "__").toList.isPrefixOf key.toList && !keeps key then none else m.resumeData key }

/-- `fileExists(kind:filename:)`. -/
def fileExists (kind : ModelKind) (filename : String) : Bool :=
  if filename = "" then false else isValidModelFile P m.files (P.locate ⟨kind, filename⟩) filename

/-! ## Descriptors -/

def makePrimaryDescriptor (item : ModelCatalogItem) : Option Descriptor :=
  if !P.isURL item.url then none
  else
    some
      { id := item.id
        kind := item.kind
        filename := item.filename
        sha256 := item.sha256
        url := item.url
        stage := .primary
        auxiliaryFilename := item.auxiliaryFilename
        auxiliaryURL := item.auxiliaryURL
        auxiliarySha256 := item.auxiliarySha256 }

/-- The two `makeAuxiliaryDescriptor`, of the fields they read. -/
def auxiliaryDescriptor (id : ModelId) (kind : ModelKind) (auxiliaryFilename auxiliaryURL auxiliarySha256 : Option String) :
    Option Descriptor :=
  match auxiliaryFilename, auxiliaryURL with
  | some filename, some url =>
    if filename = "" || !P.isURL url then none
    else
      some
        { id, kind, filename
          sha256 := auxiliarySha256
          url
          stage := .auxiliary
          auxiliaryFilename := none
          auxiliaryURL := none
          auxiliarySha256 := none }
  | _, _ => none

def makeAuxiliaryDescriptor (item : ModelCatalogItem) : Option Descriptor :=
  auxiliaryDescriptor P item.id item.kind item.auxiliaryFilename item.auxiliaryURL item.auxiliarySha256

/-- `makeAuxiliaryDescriptor(from:)`, of a primary descriptor. -/
def followingDescriptor (primary : Descriptor) : Option Descriptor :=
  auxiliaryDescriptor P primary.id primary.kind primary.auxiliaryFilename primary.auxiliaryURL primary.auxiliarySha256

/-! ## The main actor -/

def enqueueDownload (desc : Descriptor) : Manager :=
  if !P.isURL desc.url then m.setState (.failed "Invalid download URL") desc.id
  else { m with tasks := m.tasks ++ [⟨desc, m.resumeData desc.resumeKey, false⟩] }

def startDownload (item : ModelCatalogItem) : Manager :=
  if !P.isURL item.url then m.setState (.failed "Invalid URL") item.id
  else
    let m := m.setState .queued item.id
    let hasAuxiliary := isGiven item.auxiliaryFilename && isGiven item.auxiliaryURL
    let primaryExists := m.fileExists P item.kind item.filename
    let auxiliaryExists := if hasAuxiliary then m.fileExists P item.kind (item.auxiliaryFilename.getD "") else true
    if primaryExists && auxiliaryExists then m.setState .completed item.id
    else if primaryExists && hasAuxiliary then
      match makeAuxiliaryDescriptor P item with
      | none => m.setState (.failed "Invalid auxiliary model URL") item.id
      | some auxDesc => m.enqueueDownload P auxDesc
    else
      match makePrimaryDescriptor P item with
      | none => m.setState (.failed "Invalid model URL") item.id
      | some primaryDesc => m.enqueueDownload P primaryDesc

/-- `cancelDownload`, up to the answers of the session (`cancelled`). -/
def cancelDownload (modelId : ModelId) : Manager :=
  { m with tasks := m.tasks.map fun t => if t.descriptor.id = modelId then { t with isCancelling := true } else t }

def deleteDownloaded (item : ModelCatalogItem) (failsPrimary failsAuxiliary : Bool) (keeps : String → Bool) :
    Manager :=
  let r := delete P item failsPrimary failsAuxiliary m.files
  let m := { m with files := r.1 }
  if r.2 then m else (m.deleteAllResumeData keeps item.id).setState .notStarted item.id

def restorePendingTasks : Manager :=
  { m with updates := m.updates ++ m.tasks.map fun t => (t.descriptor.id, .queued) }

/-! ## The session's callbacks -/

/-- The session has cancelled a task. -/
def cancelled (t : SessionTask) (resumeData : Option Bytes) (fails : Bool) : Manager :=
  match resumeData with
  | some data => (m.saveResumeData fails data t.descriptor.resumeKey).setState (.paused true) t.descriptor.id
  | none => (m.deleteResumeData fails t.descriptor.resumeKey).setState .notStarted t.descriptor.id

def didWriteData (t : SessionTask) (totalBytesWritten totalBytesExpectedToWrite : Int) : Manager :=
  let total := if totalBytesExpectedToWrite > 0 then some totalBytesExpectedToWrite else none
  let progress : ℚ := match total with
    | some total => min 1 (max 0 (totalBytesWritten / total))
    | none => 0
  m.setState (.downloading progress totalBytesWritten total) t.descriptor.id

/-- `didFinishDownloadingTo`, up to its first file operation. -/
def didFinish (t : SessionTask) (statusCode : Option Int) (location : Bytes) (fails : Bool) : Manager :=
  let desc := t.descriptor
  let m := m.setState .queued desc.id
  match statusCode with
  | some code =>
    if 200 ≤ code ∧ code ≤ 299 then { m with callback := some ⟨desc, t.resumeData, location, .clearing⟩ }
    else
      (m.deleteResumeData fails desc.resumeKey).setState
        (.failed ("HTTP " ++ toString code ++ " while downloading model")) desc.id
  | none => { m with callback := some ⟨desc, t.resumeData, location, .clearing⟩ }

/-- The callback goes on to the next operation. -/
def continue_ (f : Finishing) (at_ : FinishPoint) : Manager := { m with callback := some { f with at_ } }

/-- The callback ends with an error. -/
def fail (f : Finishing) (message : String) : Manager :=
  { m with callback := none }.setState (.failed message) f.descriptor.id

/-- One file operation of the callback, and what follows it up to the next:
the old file is removed, the new one moved to its name, its first bytes and
its hash are checked there, and only then is a bad file removed. -/
def stepFinish (outcome : Outcome) (f : Finishing) : Manager :=
  let desc := f.descriptor
  match f.at_ with
  | .clearing =>
    if outcome.fails then m.fail f outcome.localizedDescription
    else { m with files := remove m.files (desc.destURL P) }.continue_ f .moving
  | .moving =>
    if outcome.fails || (m.files (desc.destURL P)).isSome then m.fail f outcome.localizedDescription
    else { m with files := Function.update m.files (desc.destURL P) (some f.location) }.continue_ f .checking
  | .checking =>
    if P.isGGUFName desc.filename && !(!outcome.fails && (m.files (desc.destURL P)).any isGGUFFile) then
      m.continue_ f (.discarding "Downloaded file is not a valid GGUF model")
    else m.continue_ f .hashing
  | .hashing =>
    let verifies := !isGiven desc.sha256 || !outcome.fails &&
      (m.files (desc.destURL P)).any fun content => verifySHA256IfNeeded P content desc.sha256
    if verifies then m.continue_ f .verified else m.continue_ f (.discarding "SHA256 mismatch")
  | .discarding message =>
    { m with files := if outcome.fails then m.files else remove m.files (desc.destURL P) }.fail f message
  | .verified => (m.deleteResumeData outcome.fails desc.resumeKey).continue_ f .following
  | .following =>
    let m := { m with callback := none }
    match if desc.stage = .primary then followingDescriptor P desc else none with
    | some auxDesc =>
      if m.fileExists P auxDesc.kind auxDesc.filename then m.setState .completed desc.id
      else (m.setState .queued desc.id).enqueueDownload P auxDesc
    | none => m.setState .completed desc.id

def didComplete (t : SessionTask) (isCancelled : Bool) (localizedDescription : String) : Manager :=
  if isCancelled then m else m.setState (.failed localizedDescription) t.descriptor.id

/-- What is left after a crash, once the app is launched again. -/
def crash (redelivers : Bool) : Manager :=
  { m with
    callback := none
    states := fun _ => .notStarted
    updates := []
    tasks := match m.callback with
      | some f => if redelivers then m.tasks ++ [⟨f.descriptor, f.resumeData, false⟩] else m.tasks
      | none => m.tasks }

/-- A task leaves the session. -/
def dropTask (i : Nat) : Manager := { m with tasks := m.tasks.eraseIdx i }

/-! ## What leaves the files alone -/

section Frame

variable {P m}

@[simp] theorem setState_files (state : DownloadState) (id : ModelId) : (m.setState state id).files = m.files := rfl

@[simp] theorem continue_files (f : Finishing) (at_ : FinishPoint) : (m.continue_ f at_).files = m.files := rfl

@[simp] theorem fail_files (f : Finishing) (message : String) : (m.fail f message).files = m.files := rfl

@[simp] theorem enqueueDownload_files (desc : Descriptor) : (m.enqueueDownload P desc).files = m.files := by
  unfold enqueueDownload
  split <;> rfl

/-- What starting a download comes to: a state of the item, or one of its files
is enqueued. -/
theorem startDownload_cases (item : ModelCatalogItem) :
    (∃ updates, m.startDownload P item = { m with updates }) ∨
      ∃ desc, (makePrimaryDescriptor P item = some desc ∨ makeAuxiliaryDescriptor P item = some desc) ∧
        m.startDownload P item = (m.setState .queued item.id).enqueueDownload P desc := by
  unfold startDownload
  dsimp only
  repeat' split
  all_goals first
    | exact Or.inl ⟨_, rfl⟩
    | exact Or.inr ⟨_, Or.inr ‹_›, rfl⟩
    | exact Or.inr ⟨_, Or.inl ‹_›, rfl⟩

@[simp] theorem startDownload_files (item : ModelCatalogItem) : (m.startDownload P item).files = m.files := by
  obtain ⟨updates, he⟩ | ⟨desc, -, he⟩ := startDownload_cases (P := P) (m := m) item
  · rw [he]
  · rw [he, enqueueDownload_files, setState_files]

@[simp] theorem cancelled_files (t : SessionTask) (resumeData : Option Bytes) (fails : Bool) :
    (m.cancelled t resumeData fails).files = m.files := by
  unfold cancelled
  split <;> rfl

@[simp] theorem didWriteData_files (t : SessionTask) (written expected : Int) :
    (m.didWriteData t written expected).files = m.files := rfl

@[simp] theorem didFinish_files (t : SessionTask) (statusCode : Option Int) (location : Bytes) (fails : Bool) :
    (m.didFinish t statusCode location fails).files = m.files := by
  simp only [didFinish]
  repeat' split
  all_goals rfl

@[simp] theorem didComplete_files (t : SessionTask) (isCancelled : Bool) (localizedDescription : String) :
    (m.didComplete t isCancelled localizedDescription).files = m.files := by
  unfold didComplete
  split <;> rfl

end Frame

end Manager

open Manager in
/-- The manager, its session and the main actor. -/
def machine (P : Platform) : Machine Manager Action where
  step m
    | .startDownload item => some (m.startDownload P item)
    | .cancelDownload modelId => some (m.cancelDownload modelId)
    | .deleteDownloaded item failsPrimary failsAuxiliary keeps =>
      some (m.deleteDownloaded P item failsPrimary failsAuxiliary keeps)
    | .restorePendingTasks => some m.restorePendingTasks
    | .runUpdate i => (m.updates[i]?).map fun u =>
      { m with updates := m.updates.eraseIdx i, states := Function.update m.states u.1 u.2 }
    | .cancelled i resumeData fails => (m.tasks[i]?).bind fun t =>
      if t.isCancelling then some ((m.dropTask i).cancelled t resumeData fails) else none
    | .didWriteData i written expected =>
      if m.callback.isSome then none else (m.tasks[i]?).map fun t => m.didWriteData t written expected
    | .didFinish i statusCode location fails =>
      if m.callback.isSome then none
      else (m.tasks[i]?).map fun t => (m.dropTask i).didFinish t statusCode location fails
    | .stepFinish outcome => m.callback.map fun f => m.stepFinish P outcome f
    | .didComplete i isCancelled localizedDescription =>
      if m.callback.isSome then none
      else (m.tasks[i]?).map fun t => (m.dropTask i).didComplete t isCancelled localizedDescription
    | .crash redelivers => some (m.crash redelivers)

/-! ## What the session does -/

section Step

variable {P : Platform} {m m' : Manager} {i : Nat}

theorem step_runUpdate (h : (machine P).step m (.runUpdate i) = some m') : ∃ u, m.updates[i]? = some u ∧
    { m with updates := m.updates.eraseIdx i, states := Function.update m.states u.1 u.2 } = m' :=
  Option.map_eq_some_iff.mp h

/-- A task is cancelled that is to be. -/
theorem step_cancelled {resumeData : Option Bytes} {fails : Bool}
    (h : (machine P).step m (.cancelled i resumeData fails) = some m') :
    ∃ t, m.tasks[i]? = some t ∧ t.isCancelling = true ∧ (m.dropTask i).cancelled t resumeData fails = m' := by
  obtain ⟨t, ht, h⟩ := Option.bind_eq_some_iff.mp h
  obtain ⟨hcancelling, h⟩ := Option.ite_none_right_eq_some.mp h
  exact ⟨t, ht, hcancelling, Option.some.inj h⟩

/-- A callback of the session waits for the one under way. -/
theorem of_waits {f : SessionTask → Manager}
    (h : (if m.callback.isSome then none else m.tasks[i]?.map f) = some m') :
    m.callback = none ∧ ∃ t, m.tasks[i]? = some t ∧ f t = m' := by
  obtain ⟨hcallback, h⟩ := Option.ite_none_left_eq_some.mp h
  exact ⟨Option.not_isSome_iff_eq_none.mp hcallback, Option.map_eq_some_iff.mp h⟩

theorem step_didWriteData {written expected : Int}
    (h : (machine P).step m (.didWriteData i written expected) = some m') :
    m.callback = none ∧ ∃ t, m.tasks[i]? = some t ∧ m.didWriteData t written expected = m' := of_waits h

theorem step_didFinish {statusCode : Option Int} {location : Bytes} {fails : Bool}
    (h : (machine P).step m (.didFinish i statusCode location fails) = some m') :
    m.callback = none ∧ ∃ t, m.tasks[i]? = some t ∧ (m.dropTask i).didFinish t statusCode location fails = m' :=
  of_waits h

theorem step_didComplete {isCancelled : Bool} {localizedDescription : String}
    (h : (machine P).step m (.didComplete i isCancelled localizedDescription) = some m') :
    m.callback = none ∧
      ∃ t, m.tasks[i]? = some t ∧ (m.dropTask i).didComplete t isCancelled localizedDescription = m' := of_waits h

theorem step_stepFinish {outcome : Outcome} (h : (machine P).step m (.stepFinish outcome) = some m') :
    ∃ f, m.callback = some f ∧ m.stepFinish P outcome f = m' := Option.map_eq_some_iff.mp h

end Step

end SynapsNotes.Downloads
