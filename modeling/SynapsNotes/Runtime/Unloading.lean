import Mathlib.Data.Rat.Defs
import SynapsNotes.Framework.Transition
import SynapsNotes.Runtime.ViewModel

/-!
# Unloading the OCR model

The OCR slot of `GlobalViewModel` as a machine: a task for each call that loads
or unloads the model, from one `await` to the next, and the tasks of
`scheduleOCRAutoUnload`, which sleep and then unload a model that was not used
meanwhile. What the actor answers and when a task goes on is part of the
action.

However the tasks interleave, a model that is loaded is watched: a task that
will unload it sleeps, or one unloads it already (`watched_always`). A task that
wakes and unloads finds no import running and the last use 45 seconds old
(`unloadsIdle_always`).
-/

namespace SynapsNotes.Runtime.Ocr

open Framework

/-! ## The state -/

/-- What a task is going to do, or what it awaits. -/
inductive Suspension
  | load (item : ModelCatalogItem)
  | reload (item : ModelCatalogItem)
  | unload (clearSelection : Bool)
  | offload
  | loading (item : ModelCatalogItem) (lowMemory isRetry : Bool)
  | asking (item : ModelCatalogItem)
  | unloading (clearSelection : Bool) (next : Option ModelCatalogItem)
  | sleeping (seconds : ℚ)
  | finished

structure Task where
  isCancelled : Bool
  suspension : Suspension

/-- `modelError`, before it is put into words. -/
inductive OcrError
  | requiredFilesMissing (filename auxiliaryFilename : String)
  | model (error : ModelError)

def OcrError.message (sizeText localizedDescription : String) : OcrError → String
  | requiredFilesMissing filename auxiliaryFilename =>
    "Required files are missing or invalid. Re-download both: " ++ filename ++ " and " ++ auxiliaryFilename ++ "."
  | model error => error.message sizeText localizedDescription

/-- The OCR slot, with its tasks (`ocrAutoUnloadTask` is the position of
one). -/
structure OcrSlot where
  isLowPowerMode : Bool
  isOCRModelLoaded : Bool
  isOCRModelLoading : Bool
  currentOCRModelId : Option ModelId
  /-- The selection kept in the defaults. -/
  activeOCRModelId : Option ModelId
  ocrLastUsedAt : Option Date
  ocrAutoUnloadTask : Option Nat
  isImportingKnowledge : Bool
  modelError : Option OcrError
  tasks : List Task

namespace OcrSlot

/-- The slot at launch, with the selection of the last one. -/
def launch (isLowPowerMode : Bool) (activeOCRModelId : Option ModelId) : OcrSlot where
  isLowPowerMode
  isOCRModelLoaded := false
  isOCRModelLoading := false
  currentOCRModelId := activeOCRModelId
  activeOCRModelId
  ocrLastUsedAt := none
  ocrAutoUnloadTask := none
  isImportingKnowledge := false
  modelError := none
  tasks := []

/-! ## The functions -/

/-- A task of its own. -/
def push (suspension : Suspension) (s : OcrSlot) : OcrSlot :=
  { s with tasks := s.tasks ++ [⟨false, suspension⟩] }

/-- `ocrAutoUnloadTask?.cancel()`. -/
def cancelAutoUnload (s : OcrSlot) : OcrSlot :=
  { s with
    tasks :=
      match s.ocrAutoUnloadTask with
      | some i => s.tasks.modify i fun t => { t with isCancelled := true }
      | none => s.tasks }

def scheduleOCRAutoUnload (seconds : ℚ) (s : OcrSlot) : OcrSlot :=
  let s := s.cancelAutoUnload
  if s.isOCRModelLoaded then { s.push (.sleeping seconds) with ocrAutoUnloadTask := some s.tasks.length } else s

def touchOCRUsage (now : Date) (s : OcrSlot) : OcrSlot :=
  scheduleOCRAutoUnload 45 { s with ocrLastUsedAt := some now }

def filesMissing (item : ModelCatalogItem) : OcrError :=
  match item.auxiliaryFilename with
  | some aux => if aux.isEmpty then .model .fileNotFound else .requiredFilesMissing item.filename aux
  | none => .model .fileNotFound

/-- `loadOCRModelAsync` up to its first `await`. -/
def loadOCRModelAsync (item : ModelCatalogItem) (isInstalled : Bool) (s : OcrSlot) : OcrSlot × Suspension :=
  if item.kind ≠ .ocr ∧ item.kind ≠ .vl then (s, .finished)
  else if !isInstalled then ({ s with modelError := some (filesMissing item) }, .finished)
  else if s.isOCRModelLoading then (s, .finished)
  else ({ s with isOCRModelLoading := true, modelError := none }, .loading item s.isLowPowerMode false)

/-- The model has a vision context. -/
def loaded (item : ModelCatalogItem) (now : Date) (s : OcrSlot) : OcrSlot :=
  let s := touchOCRUsage now { s with isOCRModelLoaded := true, currentOCRModelId := some item.id }
  { s with activeOCRModelId := some item.id, isOCRModelLoading := false }

def failLoad (item : ModelCatalogItem) (error : LlamaError) (s : OcrSlot) : OcrSlot :=
  { s with
    modelError := some (.model (.load error item.name item.filename))
    isOCRModelLoaded := false
    isOCRModelLoading := false }

/-- `unloadOCRModelAsync` up to its `await`; `next` is the model that the caller
loads behind it. -/
def unloadOCRModelAsync (clearSelection : Bool) (next : Option ModelCatalogItem) (s : OcrSlot) :
    OcrSlot × Suspension :=
  ({ s.cancelAutoUnload with ocrAutoUnloadTask := none, ocrLastUsedAt := none }, .unloading clearSelection next)

def unloaded (clearSelection : Bool) (s : OcrSlot) : OcrSlot :=
  let s := { s with isOCRModelLoaded := false, isOCRModelLoading := false }
  if clearSelection then { s with currentOCRModelId := none, activeOCRModelId := none } else s

/-- The task of `scheduleOCRAutoUnload` behind its sleep. -/
def wake (isCancelled : Bool) (seconds : ℚ) (now : Date) (s : OcrSlot) : OcrSlot × Suspension :=
  if isCancelled || !s.isOCRModelLoaded then (s, .finished)
  else if s.isImportingKnowledge then (s.scheduleOCRAutoUnload seconds, .finished)
  else
    match s.ocrLastUsedAt with
    | none => s.unloadOCRModelAsync false none
    | some last =>
      if seconds ≤ now - last then s.unloadOCRModelAsync false none
      else (s.scheduleOCRAutoUnload seconds, .finished)

/-- What a task goes on with. -/
inductive Event
  | begin (isInstalled : Bool)
  | loadReturned
  | loadThrew (error : LlamaError)
  | hasVision (hasVisionContext : Bool) (now : Date)
  | unloadReturned (isInstalled : Bool)
  | woke (now : Date)

def resume (t : Task) (s : OcrSlot) : Event → Option (OcrSlot × Suspension)
  | .begin isInstalled =>
    match t.suspension with
    | .load item => some (s.loadOCRModelAsync item isInstalled)
    | .reload item => some (s.unloadOCRModelAsync false (some item))
    | .unload clearSelection => some (s.unloadOCRModelAsync clearSelection none)
    | .offload => some (s.unloadOCRModelAsync false none)
    | _ => none
  | .loadReturned =>
    match t.suspension with
    | .loading item _ _ => some (s, .asking item)
    | _ => none
  | .loadThrew error =>
    match t.suspension with
    | .loading item _ isRetry =>
      -- once more in low memory, which the mode at this moment decides
      if isRetry || s.isLowPowerMode then some (s.failLoad item error, .finished)
      else some (s, .loading item true true)
    | _ => none
  | .hasVision hasVisionContext now =>
    match t.suspension with
    | .asking item =>
      some (if hasVisionContext then s.loaded item now else s.failLoad item .ocrVisionUnavailable, .finished)
    | _ => none
  | .unloadReturned isInstalled =>
    match t.suspension with
    | .unloading clearSelection next =>
      match next with
      | none => some (s.unloaded clearSelection, .finished)
      | some item => some ((s.unloaded clearSelection).loadOCRModelAsync item isInstalled)
    | _ => none
  | .woke now =>
    match t.suspension with
    | .sleeping seconds => some (s.wake t.isCancelled seconds now)
    | _ => none

inductive Action
  | loadOCRModel (item : ModelCatalogItem)
  | reloadOCRModel (item : ModelCatalogItem)
  | unloadOCRModel
  | offloadAllModels
  | deleteDownloaded (item : ModelCatalogItem)
  | handleSceneDidEnterBackground
  | importing (isImportingKnowledge : Bool)
  | lowPowerMode (isLowPowerMode : Bool)
  | resume (i : Nat) (e : Event)

/-- Where a task is suspended from now on. -/
def setAt (i : Nat) (suspension : Suspension) (s : OcrSlot) : OcrSlot :=
  { s with tasks := s.tasks.modify i fun t => { t with suspension } }

def step (s : OcrSlot) : Action → Option OcrSlot
  | .loadOCRModel item => some (s.push (.load item))
  | .reloadOCRModel item => some (s.push (.reload item))
  | .unloadOCRModel => some (s.push (.unload true))
  | .offloadAllModels => some (s.push .offload)
  | .deleteDownloaded item => some (if s.currentOCRModelId = some item.id then s.push (.unload true) else s)
  | .handleSceneDidEnterBackground => some { s with isOCRModelLoaded := false, isOCRModelLoading := false }
  | .importing isImportingKnowledge => some { s with isImportingKnowledge }
  | .lowPowerMode isLowPowerMode => some { s with isLowPowerMode }
  | .resume i e => do
    let t ← s.tasks[i]?
    let (s', at') ← s.resume t e
    some (s'.setAt i at')

end OcrSlot

def machine : Machine OcrSlot OcrSlot.Action where
  step := OcrSlot.step

/-! ## The task that sleeps -/

def Suspension.IsSleeping : Suspension → Prop
  | .sleeping _ => True
  | _ => False

def Suspension.IsUnloading : Suspension → Prop
  | .unloading .. => True
  | _ => False

/-- The task sleeps and was not cancelled. -/
def Task.Live (t : Task) (seconds : ℚ) : Prop := t.isCancelled = false ∧ t.suspension = .sleeping seconds

theorem Task.Live.isSleeping {t : Task} {seconds : ℚ} (h : t.Live seconds) : t.suspension.IsSleeping := by
  rw [h.2]
  exact trivial

namespace OcrSlot

/-- A task that sleeps is the one that `ocrAutoUnloadTask` knows, and there is a
last use to compare with. -/
structure Timed (s : OcrSlot) : Prop where
  known : ∀ i, s.ocrAutoUnloadTask = some i → i < s.tasks.length
  live : ∀ i t seconds, s.tasks[i]? = some t → t.Live seconds →
    s.ocrAutoUnloadTask = some i ∧ seconds = 45 ∧ ∃ last, s.ocrLastUsedAt = some last

/-- A model that is loaded is watched. -/
def Watched (s : OcrSlot) : Prop :=
  s.isOCRModelLoaded = true →
    ∃ i t, s.tasks[i]? = some t ∧ (t.suspension.IsUnloading ∨ s.ocrAutoUnloadTask = some i ∧ t.Live 45)

section Timed

variable {s s' : OcrSlot} {t : Task} {i j : Nat} {suspension : Suspension} {clearSelection : Bool}
  {next : Option ModelCatalogItem}

/-- What the invariant reads. -/
structure SameTimer (s s' : OcrSlot) : Prop where
  tasks : s'.tasks = s.tasks
  task : s'.ocrAutoUnloadTask = s.ocrAutoUnloadTask
  lastUsed : s'.ocrLastUsedAt = s.ocrLastUsedAt

theorem SameTimer.refl (s : OcrSlot) : SameTimer s s := ⟨rfl, rfl, rfl⟩

theorem SameTimer.trans {s'' : OcrSlot} (h : SameTimer s s') (h' : SameTimer s' s'') : SameTimer s s'' :=
  ⟨h'.tasks.trans h.tasks, h'.task.trans h.task, h'.lastUsed.trans h.lastUsed⟩

/-- The known task is cancelled and another one sleeps. -/
structure Renewed (s s' : OcrSlot) : Prop where
  tasks : s'.tasks = s.cancelAutoUnload.tasks ++ [⟨false, .sleeping 45⟩]
  task : s'.ocrAutoUnloadTask = some s.tasks.length
  lastUsed : ∃ last, s'.ocrLastUsedAt = some last

/-! ### The tasks -/

theorem getElem?_setAt_self (ht : s.tasks[i]? = some t) (suspension : Suspension) :
    (s.setAt i suspension).tasks[i]? = some { t with suspension } := by
  rw [setAt, List.getElem?_modify, ht, Option.map_eq_map, Option.map_some, if_pos rfl]

theorem getElem?_setAt_of_ne (hij : i ≠ j) (suspension : Suspension) :
    (s.setAt i suspension).tasks[j]? = s.tasks[j]? := by
  simp only [setAt, List.getElem?_modify, if_neg hij, id_map']

theorem getElem?_push :
    (s.push suspension).tasks[j]? = some t ↔
      s.tasks[j]? = some t ∨ j = s.tasks.length ∧ t = ⟨false, suspension⟩ := by
  rw [push, List.getElem?_append]
  split
  · next hj => exact ⟨.inl, fun h => h.resolve_right fun heq => hj.ne heq.1⟩
  · next hj =>
    rw [List.getElem?_eq_none (Nat.not_lt.mp hj), List.getElem?_singleton]
    split
    · next hlast =>
      constructor
      · exact fun h => .inr ⟨by omega, (Option.some.inj h).symm⟩
      · rintro (h | ⟨-, rfl⟩)
        · cases h
        · rfl
    · next hlast =>
      constructor
      · rintro ⟨⟩
      · rintro (h | ⟨rfl, -⟩)
        · cases h
        · exact absurd (Nat.sub_self _) hlast

theorem length_cancelAutoUnload (s : OcrSlot) : s.cancelAutoUnload.tasks.length = s.tasks.length := by
  unfold cancelAutoUnload
  cases s.ocrAutoUnloadTask with
  | none => rfl
  | some i => exact List.length_modify ..

/-- No task sleeps on once the known one is cancelled. -/
theorem Timed.not_live_cancelAutoUnload (h : s.Timed) {seconds : ℚ}
    (ht : s.cancelAutoUnload.tasks[j]? = some t) : ¬ t.Live seconds := by
  intro hlive
  cases hknown : s.ocrAutoUnloadTask with
  | none =>
    simp only [cancelAutoUnload, hknown] at ht
    exact absurd (hknown.symm.trans (h.live j t seconds ht hlive).1) (Option.some_ne_none j).symm
  | some i =>
    simp only [cancelAutoUnload, hknown, List.getElem?_modify] at ht
    obtain ⟨t', ht', heq⟩ := Option.map_eq_some_iff.mp ht
    by_cases hij : i = j
    · rw [if_pos hij] at heq
      rw [← heq] at hlive
      exact Bool.noConfusion hlive.1
    · rw [if_neg hij] at heq
      rw [← heq] at hlive
      exact hij (Option.some.inj (hknown.symm.trans (h.live j t' seconds ht' hlive).1))

/-! ### The invariant -/

theorem Timed.congr (h : s.Timed) (hs : SameTimer s s') : s'.Timed where
  known := by rw [hs.task, hs.tasks]; exact h.known
  live := by rw [hs.task, hs.tasks, hs.lastUsed]; exact h.live

theorem Timed.setAt (h : s.Timed) (hat : ¬ suspension.IsSleeping) (ht : s.tasks[i]? = some t) :
    (s.setAt i suspension).Timed where
  known j hj := by
    rw [OcrSlot.setAt, List.length_modify]
    exact h.known j hj
  live j t' seconds ht' hlive := by
    by_cases hij : i = j
    · subst hij
      rw [getElem?_setAt_self ht] at ht'
      cases ht'
      exact absurd hlive.isSleeping hat
    · rw [getElem?_setAt_of_ne hij] at ht'
      exact h.live j t' seconds ht' hlive

theorem Timed.push (h : s.Timed) (hat : ¬ suspension.IsSleeping) : (s.push suspension).Timed where
  known j hj := by
    rw [OcrSlot.push, List.length_append]
    exact Nat.lt_add_right _ (h.known j hj)
  live j t seconds ht hlive := by
    rcases getElem?_push.mp ht with ht | ⟨-, rfl⟩
    · exact h.live j t seconds ht hlive
    · exact absurd hlive.isSleeping hat

theorem Timed.unloadOCRModelAsync (h : s.Timed) : (s.unloadOCRModelAsync clearSelection next).1.Timed where
  known _ hi := absurd hi (Option.some_ne_none _).symm
  live _ _ _ ht hlive := absurd hlive (h.not_live_cancelAutoUnload ht)

theorem Timed.renewed (h : s.Timed) (hs : Renewed s s') : s'.Timed where
  known i hi := by
    rw [hs.task] at hi
    rw [hs.tasks, List.length_append, length_cancelAutoUnload, ← Option.some.inj hi]
    exact Nat.lt_succ_self _
  live j t seconds ht hlive := by
    rw [hs.tasks] at ht
    rcases (getElem?_push (s := s.cancelAutoUnload)).mp ht with ht | ⟨rfl, rfl⟩
    · exact absurd hlive (h.not_live_cancelAutoUnload ht)
    · rw [length_cancelAutoUnload]
      exact ⟨hs.task, (Suspension.sleeping.inj hlive.2).symm, hs.lastUsed⟩

/-! ### A task that goes on -/

/-- What a task leaves when it goes on: it unloads from now on, it renewed the
timer, or the timer is as it was and no one that watched stopped watching. -/
inductive Outcome (s : OcrSlot) (t : Task) : OcrSlot → Suspension → Prop
  | unloads (clearSelection : Bool) (next : Option ModelCatalogItem) :
    Outcome s t (s.unloadOCRModelAsync clearSelection next).1 (.unloading clearSelection next)
  | renews {s' : OcrSlot} (hs : Renewed s s') : Outcome s t s' .finished
  | keeps {s' : OcrSlot} {suspension : Suspension} (hs : SameTimer s s') (hat : ¬ suspension.IsSleeping)
    (hwatch : s'.isOCRModelLoaded = true →
      s.isOCRModelLoaded = true ∧ ¬ t.suspension.IsUnloading ∧ ¬ t.Live 45) :
    Outcome s t s' suspension

/-- A function that leaves the timer alone, in a task that did not watch. -/
theorem Outcome.of_unwatched (hs : SameTimer s s') (hat : ¬ suspension.IsSleeping)
    (hloaded : s'.isOCRModelLoaded = true → s.isOCRModelLoaded = true)
    (hnot : ¬ t.suspension.IsUnloading) (hsleep : ¬ t.suspension.IsSleeping) : Outcome s t s' suspension :=
  .keeps hs hat fun h => ⟨hloaded h, hnot, fun hlive => hsleep hlive.isSleeping⟩

/-- A function that leaves the timer alone and no model. -/
theorem Outcome.of_unloaded (hs : SameTimer s s') (hat : ¬ suspension.IsSleeping)
    (hloaded : s'.isOCRModelLoaded = false) : Outcome s t s' suspension :=
  .keeps hs hat fun h => Bool.noConfusion (hloaded.symm.trans h)

theorem Outcome.not_isSleeping (h : Outcome s t s' suspension) : ¬ suspension.IsSleeping := by
  cases h with
  | unloads => exact id
  | renews => exact id
  | keeps _ hat => exact hat

theorem Outcome.exists_task (h : Outcome s t s' suspension) (ht : s.tasks[i]? = some t) :
    ∃ t', s'.tasks[i]? = some t' := by
  have hi := (List.getElem?_eq_some_iff.mp ht).1
  suffices i < s'.tasks.length from ⟨_, List.getElem?_eq_getElem this⟩
  cases h with
  | unloads => exact (length_cancelAutoUnload s).symm ▸ hi
  | renews hs =>
    rw [hs.tasks, List.length_append, length_cancelAutoUnload]
    exact Nat.lt_add_right _ hi
  | keeps hs => exact hs.tasks.symm ▸ hi

theorem Timed.outcome (h : s.Timed) (ho : Outcome s t s' suspension) : s'.Timed := by
  cases ho with
  | unloads => exact h.unloadOCRModelAsync
  | renews hs => exact h.renewed hs
  | keeps hs => exact h.congr hs

theorem Watched.outcome (h : s.Watched) (ho : Outcome s t s' suspension) (ht : s.tasks[i]? = some t) :
    (s'.setAt i suspension).Watched := by
  obtain ⟨t', ht'⟩ := ho.exists_task ht
  intro hloaded
  cases ho with
  | unloads clearSelection next =>
    exact ⟨i, _, getElem?_setAt_self ht' _, .inl trivial⟩
  | renews hs =>
    -- the task that sleeps now stands behind the others
    have hi : i ≠ s.tasks.length := (List.getElem?_eq_some_iff.mp ht).1.ne
    refine ⟨s.tasks.length, ⟨false, .sleeping 45⟩, ?_, .inr ⟨hs.task, rfl, rfl⟩⟩
    rw [getElem?_setAt_of_ne hi, hs.tasks]
    exact (getElem?_push (s := s.cancelAutoUnload)).mpr (.inr ⟨(length_cancelAutoUnload s).symm, rfl⟩)
  | keeps hs _ hwatch =>
    obtain ⟨hwas, hnot, hlive⟩ := hwatch hloaded
    obtain ⟨j, t₀, ht₀, hby⟩ := h hwas
    have hij : i ≠ j := by
      rintro rfl
      obtain rfl := Option.some.inj (ht.symm.trans ht₀)
      exact hby.elim hnot fun hknown => hlive hknown.2
    refine ⟨j, t₀, ?_, hby.imp_right fun hknown => ⟨hs.task.trans hknown.1, hknown.2⟩⟩
    rw [getElem?_setAt_of_ne hij, hs.tasks]
    exact ht₀

/-! ### What the functions leave -/

theorem sameTimer_unloaded (clearSelection : Bool) (s : OcrSlot) : SameTimer s (s.unloaded clearSelection) := by
  cases clearSelection <;> exact ⟨rfl, rfl, rfl⟩

theorem isOCRModelLoaded_unloaded (clearSelection : Bool) (s : OcrSlot) :
    (s.unloaded clearSelection).isOCRModelLoaded = false := by
  cases clearSelection <;> rfl

/-- `loadOCRModelAsync` starts with the timer as it is. -/
theorem loadOCRModelAsync_spec (item : ModelCatalogItem) (isInstalled : Bool) (s : OcrSlot) :
    SameTimer s (s.loadOCRModelAsync item isInstalled).1 ∧
      (s.loadOCRModelAsync item isInstalled).1.isOCRModelLoaded = s.isOCRModelLoaded ∧
      ¬ (s.loadOCRModelAsync item isInstalled).2.IsSleeping := by
  unfold loadOCRModelAsync
  split
  · exact ⟨.refl s, rfl, id⟩
  · split
    · exact ⟨⟨rfl, rfl, rfl⟩, rfl, id⟩
    · split
      · exact ⟨.refl s, rfl, id⟩
      · exact ⟨⟨rfl, rfl, rfl⟩, rfl, id⟩

theorem renewed_loaded (item : ModelCatalogItem) (now : Date) (s : OcrSlot) : Renewed s (s.loaded item now) where
  tasks := rfl
  task := congrArg some (length_cancelAutoUnload s)
  lastUsed := ⟨now, rfl⟩

theorem renewed_scheduleOCRAutoUnload (hloaded : s.isOCRModelLoaded = true) {last : Date}
    (hlast : s.ocrLastUsedAt = some last) : Renewed s (s.scheduleOCRAutoUnload 45) := by
  have hc : s.cancelAutoUnload.isOCRModelLoaded = true := hloaded
  rw [scheduleOCRAutoUnload, if_pos hc]
  exact ⟨rfl, congrArg some (length_cancelAutoUnload s), last, hlast⟩

/-- What the timer finds when it wakes: it was cancelled or the model is gone, or
it is the known task and there is a last use to compare with. -/
theorem Timed.wake_cases (h : s.Timed) (ht : s.tasks[i]? = some t) {seconds : ℚ}
    (hat : t.suspension = .sleeping seconds) (now : Date) :
    (t.isCancelled || !s.isOCRModelLoaded) = true ∧ s.wake t.isCancelled seconds now = (s, .finished) ∨
      t.isCancelled = false ∧ s.isOCRModelLoaded = true ∧ s.ocrAutoUnloadTask = some i ∧
        ∃ last, s.ocrLastUsedAt = some last ∧ s.wake t.isCancelled seconds now =
            if s.isImportingKnowledge = false ∧ 45 ≤ now - last then s.unloadOCRModelAsync false none
            else (s.scheduleOCRAutoUnload 45, .finished) := by
  by_cases hidle : (t.isCancelled || !s.isOCRModelLoaded) = true
  · exact .inl ⟨hidle, if_pos hidle⟩
  · obtain ⟨hlive, hloaded⟩ := Bool.or_eq_false_iff.mp ((Bool.not_eq_true _).mp hidle)
    rw [Bool.not_eq_false_eq_eq_true] at hloaded
    obtain ⟨hknown, rfl, last, hlast⟩ := h.live i t seconds ht ⟨hlive, hat⟩
    refine .inr ⟨hlive, hloaded, hknown, last, hlast, ?_⟩
    rw [wake, hlive, hloaded, hlast]
    cases s.isImportingKnowledge <;> simp

theorem Timed.outcome_wake (h : s.Timed) (ht : s.tasks[i]? = some t) {seconds : ℚ}
    (hat : t.suspension = .sleeping seconds) (now : Date) :
    Outcome s t (s.wake t.isCancelled seconds now).1 (s.wake t.isCancelled seconds now).2 := by
  rcases h.wake_cases ht hat now with ⟨hidle, hwake⟩ | ⟨-, hloaded, -, last, hlast, hwake⟩
  · rw [hwake]
    refine .keeps (.refl s) id fun hloaded => ⟨hloaded, hat ▸ id, fun hlive => ?_⟩
    rw [hloaded, Bool.not_true, Bool.or_false] at hidle
    exact Bool.noConfusion (hidle.symm.trans hlive.1)
  · rw [hwake]
    split
    · exact .unloads false none
    · exact .renews (renewed_scheduleOCRAutoUnload hloaded hlast)

/-- Each way for a task to go on is one of the three. -/
theorem Timed.outcome_resume (h : s.Timed) (ht : s.tasks[i]? = some t) {e : Event} {p : OcrSlot × Suspension}
    (hr : s.resume t e = some p) : Outcome s t p.1 p.2 := by
  cases e with
  | begin isInstalled =>
    simp only [resume] at hr
    split at hr
    · next item hat =>
      obtain rfl := Option.some.inj hr
      obtain ⟨hs, hloaded, hsleep⟩ := loadOCRModelAsync_spec item isInstalled s
      exact .of_unwatched hs hsleep hloaded.le (hat ▸ id) (hat ▸ id)
    · obtain rfl := Option.some.inj hr
      exact .unloads ..
    · obtain rfl := Option.some.inj hr
      exact .unloads ..
    · obtain rfl := Option.some.inj hr
      exact .unloads ..
    · cases hr
  | loadReturned =>
    simp only [resume] at hr
    split at hr
    · next item lowMemory isRetry hat =>
      obtain rfl := Option.some.inj hr
      exact .of_unwatched (.refl s) id id (hat ▸ id) (hat ▸ id)
    · cases hr
  | loadThrew error =>
    simp only [resume] at hr
    split at hr
    · next item lowMemory isRetry hat =>
      split at hr
      · obtain rfl := Option.some.inj hr
        exact .of_unloaded ⟨rfl, rfl, rfl⟩ id rfl
      · obtain rfl := Option.some.inj hr
        exact .of_unwatched (.refl s) id id (hat ▸ id) (hat ▸ id)
    · cases hr
  | hasVision hasVisionContext now =>
    simp only [resume] at hr
    split at hr
    · next item hat =>
      obtain rfl := Option.some.inj hr
      cases hasVisionContext with
      | true => exact .renews (renewed_loaded item now s)
      | false => exact .of_unloaded ⟨rfl, rfl, rfl⟩ id rfl
    · cases hr
  | unloadReturned isInstalled =>
    simp only [resume] at hr
    split at hr
    · next clearSelection next hat =>
      have hfalse := isOCRModelLoaded_unloaded clearSelection s
      have hsame := sameTimer_unloaded clearSelection s
      cases next with
      | none =>
        obtain rfl := Option.some.inj hr
        exact .of_unloaded hsame id hfalse
      | some item =>
        obtain rfl := Option.some.inj hr
        obtain ⟨hs, hloaded, hsleep⟩ := loadOCRModelAsync_spec item isInstalled (s.unloaded clearSelection)
        exact .of_unloaded (hsame.trans hs) hsleep (hloaded.trans hfalse)
    · cases hr
  | woke now =>
    simp only [resume] at hr
    split at hr
    · next seconds hat =>
      obtain rfl := Option.some.inj hr
      exact h.outcome_wake ht hat now
    · cases hr

/-! ### The runs -/

theorem Watched.push (h : s.Watched) (suspension : Suspension) : (s.push suspension).Watched := by
  intro hloaded
  obtain ⟨j, t, ht, hby⟩ := h hloaded
  exact ⟨j, t, getElem?_push.mpr (.inl ht), hby⟩

/-- The invariant. -/
structure Guarded (s : OcrSlot) : Prop where
  timed : s.Timed
  watched : s.Watched

theorem guarded_launch (isLowPowerMode : Bool) (activeOCRModelId : Option ModelId) :
    (launch isLowPowerMode activeOCRModelId).Guarded where
  timed :=
    ⟨fun _ h => absurd h (Option.some_ne_none _).symm, fun _ _ _ h => absurd h (Option.some_ne_none _).symm⟩
  watched h := Bool.noConfusion h

theorem Guarded.push (h : s.Guarded) (hat : ¬ suspension.IsSleeping) : (s.push suspension).Guarded :=
  ⟨h.timed.push hat, h.watched.push suspension⟩

theorem Guarded.resume (h : s.Guarded) (ht : s.tasks[i]? = some t) {e : Event} {p : OcrSlot × Suspension}
    (hr : s.resume t e = some p) : (p.1.setAt i p.2).Guarded := by
  have ho := h.timed.outcome_resume ht hr
  obtain ⟨t', ht'⟩ := ho.exists_task ht
  exact ⟨(h.timed.outcome ho).setAt ho.not_isSleeping ht', h.watched.outcome ho ht⟩

theorem step_resume {e : Event} (hs : s.step (.resume i e) = some s') :
    ∃ t p, s.tasks[i]? = some t ∧ s.resume t e = some p ∧ s' = p.1.setAt i p.2 := by
  obtain ⟨t, ht, hs⟩ := Option.bind_eq_some_iff.mp hs
  obtain ⟨p, hp, hs⟩ := Option.bind_eq_some_iff.mp hs
  exact ⟨t, p, ht, hp, (Option.some.inj hs).symm⟩

theorem Guarded.step (h : s.Guarded) {a : Action} (hs : s.step a = some s') : s'.Guarded := by
  cases a with
  | loadOCRModel | reloadOCRModel | unloadOCRModel | offloadAllModels =>
    obtain rfl := Option.some.inj hs
    exact h.push id
  | deleteDownloaded item =>
    obtain rfl := Option.some.inj hs
    split
    · exact h.push id
    · exact h
  | handleSceneDidEnterBackground =>
    obtain rfl := Option.some.inj hs
    exact ⟨h.timed.congr ⟨rfl, rfl, rfl⟩, fun hloaded => Bool.noConfusion hloaded⟩
  | importing | lowPowerMode =>
    obtain rfl := Option.some.inj hs
    exact ⟨h.timed.congr ⟨rfl, rfl, rfl⟩, h.watched⟩
  | resume i e =>
    obtain ⟨t, p, ht, hr, rfl⟩ := step_resume hs
    exact h.resume ht hr

end Timed

end OcrSlot

/-- However the tasks interleave, a model that is loaded is not left without its
timer: the task that `ocrAutoUnloadTask` knows sleeps for it, or one unloads it
already. -/
theorem watched_always (isLowPowerMode : Bool) (activeOCRModelId : Option ModelId) (as : List OcrSlot.Action) :
    machine.Always OcrSlot.Watched (OcrSlot.launch isLowPowerMode activeOCRModelId) as :=
  have hlaunch := OcrSlot.guarded_launch isLowPowerMode activeOCRModelId
  (Machine.always_of_invariant (fun _ _ _ h hs => h.step hs) hlaunch as).mono fun _ h => h.watched

/-- A task that wakes and unloads was not cancelled and is the one that
`ocrAutoUnloadTask` knows, and no import runs and the last use is 45 seconds
old. -/
def UnloadsIdle (s : OcrSlot) (a : OcrSlot.Action) (s' : OcrSlot) : Prop :=
  ∀ i now, a = .resume i (.woke now) → ∀ t', s'.tasks[i]? = some t' → t'.suspension.IsUnloading →
    (∃ t, s.tasks[i]? = some t ∧ t.isCancelled = false) ∧ s.isOCRModelLoaded = true ∧
      s.isImportingKnowledge = false ∧ s.ocrAutoUnloadTask = some i ∧
      ∃ last, s.ocrLastUsedAt = some last ∧ 45 ≤ now - last

theorem unloadsIdle_step {s s' : OcrSlot} (h : s.Guarded) {a : OcrSlot.Action} (hs : s.step a = some s') :
    UnloadsIdle s a s' := by
  rintro i now rfl t' ht' hunloading
  obtain ⟨t, p, ht, hr, rfl⟩ := OcrSlot.step_resume hs
  simp only [OcrSlot.resume] at hr
  split at hr
  · next seconds hat =>
    obtain rfl := Option.some.inj hr
    -- where the task stands now is what its wake left it with
    have hwoken : (s.wake t.isCancelled seconds now).2.IsUnloading := by
      obtain ⟨t'', ht''⟩ := (h.timed.outcome_wake ht hat now).exists_task ht
      rw [OcrSlot.getElem?_setAt_self ht''] at ht'
      obtain rfl := Option.some.inj ht'
      exact hunloading
    rcases h.timed.wake_cases ht hat now with ⟨-, hwake⟩ | ⟨hlive, hloaded, hknown, last, hlast, hwake⟩
    · rw [hwake] at hwoken
      exact hwoken.elim
    · rw [hwake] at hwoken
      split at hwoken
      · next hidle => exact ⟨⟨t, ht, hlive⟩, hloaded, hidle.1, hknown, last, hlast, hidle.2⟩
      · exact hwoken.elim
  · cases hr

/-- The timer never takes the model from an import or from a user who used it
within 45 seconds, whatever ran while it slept; that the last use is gone when
it wakes does not happen. -/
theorem unloadsIdle_always (isLowPowerMode : Bool) (activeOCRModelId : Option ModelId) (as : List OcrSlot.Action) :
    machine.Steps UnloadsIdle (OcrSlot.launch isLowPowerMode activeOCRModelId) as :=
  Machine.steps_of_invariant (I := OcrSlot.Guarded) (fun _ _ _ h hs => h.step hs)
    (fun _ _ _ h hs => unloadsIdle_step h hs)
    (OcrSlot.guarded_launch isLowPowerMode activeOCRModelId) as

-- a model that nobody uses is gone after its 45 seconds
example :
    ((machine.run (.launch false none) [.loadOCRModel (modelItem "vision" .vl), .resume 0 (.begin true),
      .resume 0 .loadReturned, .resume 0 (.hasVision true 100), .resume 1 (.woke 145),
      .resume 1 (.unloadReturned true)]).map fun s => (s.isOCRModelLoaded, s.currentOCRModelId)) =
      some (false, some "vision") := by
  decide +kernel

end SynapsNotes.Runtime.Ocr
