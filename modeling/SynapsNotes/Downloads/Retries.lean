import SynapsNotes.Downloads.Completed

/-!
# Retries from resume data

A download that has been paused is started again from the resume data that
was saved then. The data is deleted where the server refuses it, where the
file has been taken over, and where the item is deleted, unless its removal
fails; it is kept where the file is refused, where a file operation fails, and
where the transport does (`step_resumeData`). A retry then starts from the
same data.

A `History` records, beside the manager, which attempts from saved data have
failed since their file was last started. `retries_afresh_iff` is the exact
condition, over every run of the manager, for the saved data never to be data
from which the file has failed.
-/

namespace SynapsNotes.Downloads

open Framework ModelStorage Manager

variable (P : Platform)

/-! ## Attempts that fail -/

/-- The descriptors are of one file of one model, so that they have one resume
key. -/
def SameFile (desc desc' : Descriptor) : Prop := desc.id = desc'.id ∧ desc.filename = desc'.filename

instance (desc desc' : Descriptor) : Decidable (SameFile desc desc') := inferInstanceAs (Decidable (_ ∧ _))

/-- An attempt from saved data: what it downloads, and the data. -/
abbrev Attempt := Descriptor × Bytes

def SessionTask.attempt (t : SessionTask) : Option Attempt := t.resumeData.map fun data => (t.descriptor, data)

def Finishing.attempt (f : Finishing) : Option Attempt := f.resumeData.map fun data => (f.descriptor, data)

/-- The callback for a finished file ends in an error here: a file operation
has failed, or the bad file has been discarded. -/
def Finishing.fails (P : Platform) (files : Files) (outcome : Outcome) (f : Finishing) : Bool :=
  match f.at_ with
  | .clearing => outcome.fails
  | .moving => outcome.fails || (files (f.descriptor.destURL P)).isSome
  | .discarding _ => true
  | .checking | .hashing | .verified | .following => false

/-- The attempt from saved data that fails in a step. -/
def Manager.failure (P : Platform) (m : Manager) : Action → Option Attempt
  | .didFinish i statusCode _ _ => if isAccepted statusCode then none else m.tasks[i]?.bind SessionTask.attempt
  | .stepFinish outcome => m.callback.bind fun f => if f.fails P m.files outcome then f.attempt else none
  | .didComplete i isCancelled _ => if isCancelled then none else m.tasks[i]?.bind SessionTask.attempt
  | _ => none

/-! ## Histories -/

/-- The manager, and the attempts from saved data that have failed since their
file was last started. -/
structure History where
  manager : Manager
  failed : List Attempt

namespace History

/-- What is on record after a step: a download that is started takes its file
off the record, and an attempt that fails puts it on. -/
def record (P : Platform) (h : History) (m' : Manager) : Action → List Attempt
  | .startDownload _ => h.failed.filter fun e =>
      !(m'.tasks.drop h.manager.tasks.length).any fun t => decide (SameFile e.1 t.descriptor)
  | a => (h.manager.failure P a).toList ++ h.failed

/-- The next `startDownload` of the item starts none of its files from data
from which it has failed. -/
def StartsAfresh (item : ModelCatalogItem) (h : History) : Prop :=
  ∀ t ∈ (h.manager.startDownload P item).tasks.drop h.manager.tasks.length, ∀ e ∈ h.failed,
    SameFile e.1 t.descriptor → t.resumeData ≠ some e.2

instance (item : ModelCatalogItem) : DecidablePred (StartsAfresh P item) := fun h =>
  inferInstanceAs (Decidable (∀ t ∈ (h.manager.startDownload P item).tasks.drop h.manager.tasks.length,
    ∀ e ∈ h.failed, SameFile e.1 t.descriptor → t.resumeData ≠ some e.2))

/-- The data saved for a file is none from which it has failed, and so no
item is started from such data. -/
structure Afresh (h : History) : Prop where
  saved : ∀ e ∈ h.failed, h.manager.resumeData e.1.resumeKey ≠ some e.2
  starts : ∀ item, h.StartsAfresh P item

/-- The condition on a step. An attempt that fails after the server has
accepted it, or in the transport, is not from the data that is still saved for
its file, and neither is one that the server has refused, if that data cannot
be removed; and a download that is paused is not given data from which its
file has failed, if that can be saved. -/
def LeavesFresh (P : Platform) (h : History) : Action → Prop
  | .cancelled i (some data) false => ∀ t ∈ h.manager.tasks[i]?, ∀ e ∈ h.failed,
      e.1.resumeKey = t.descriptor.resumeKey → e.2 ≠ data
  | .didFinish i statusCode location true =>
      ∀ e ∈ h.manager.failure P (.didFinish i statusCode location true),
        h.manager.resumeData e.1.resumeKey ≠ some e.2
  | .stepFinish outcome => ∀ e ∈ h.manager.failure P (.stepFinish outcome),
      h.manager.resumeData e.1.resumeKey ≠ some e.2
  | .didComplete i isCancelled localizedDescription =>
      ∀ e ∈ h.manager.failure P (.didComplete i isCancelled localizedDescription),
        h.manager.resumeData e.1.resumeKey ≠ some e.2
  | _ => True

end History

/-- The manager, its session and the main actor, with the record. -/
def histories : Machine History Action where
  step h a := ((machine P).step h.manager a).map fun m' => { manager := m', failed := h.record P m' a }

section Steps

variable {P} {m m' : Manager}

theorem SameFile.resumeKey {desc desc' : Descriptor} (h : SameFile desc desc') : desc.resumeKey = desc'.resumeKey := by
  unfold Descriptor.resumeKey
  rw [h.1, h.2]

theorem deleteResumeData_apply (fails : Bool) (key key' : String) :
    (m.deleteResumeData fails key).resumeData key' = m.resumeData key' ∨
      (m.deleteResumeData fails key).resumeData key' = none := by
  unfold deleteResumeData
  dsimp only
  split
  · exact Or.inl rfl
  · by_cases h : key' = key
    · subst h
      exact Or.inr (Function.update_self ..)
    · exact Or.inl (Function.update_of_ne h _ _)

theorem enqueueDownload_resumeData (desc : Descriptor) : (m.enqueueDownload P desc).resumeData = m.resumeData := by
  unfold enqueueDownload
  split <;> rfl

theorem enqueueDownload_started (desc : Descriptor) : ∀ t ∈ (m.enqueueDownload P desc).tasks.drop m.tasks.length,
    t.resumeData = m.resumeData t.descriptor.resumeKey := by
  unfold enqueueDownload
  split
  · intro t ht
    rw [setState, List.drop_length] at ht
    cases ht
  · intro t ht
    rw [List.drop_left] at ht
    rw [List.mem_singleton.mp ht]

theorem startDownload_resumeData (item : ModelCatalogItem) : (m.startDownload P item).resumeData = m.resumeData := by
  obtain ⟨updates, he⟩ | ⟨desc, -, he⟩ := startDownload_cases (P := P) (m := m) item
  · rw [he]
  · rw [he, enqueueDownload_resumeData]
    rfl

/-- What is started is started from what is saved. -/
theorem startDownload_started (item : ModelCatalogItem) : ∀ t ∈ (m.startDownload P item).tasks.drop m.tasks.length,
    t.resumeData = m.resumeData t.descriptor.resumeKey := by
  obtain ⟨updates, he⟩ | ⟨desc, -, he⟩ := startDownload_cases (P := P) (m := m) item
  · intro t ht
    rw [he, List.drop_length] at ht
    cases ht
  · rw [he]
    exact enqueueDownload_started (m := m.setState .queued item.id) desc

/-! ## What a step leaves of the saved data -/

/-- A callback that fails may have removed the file, and has left what is
saved. -/
theorem stepFinish_of_fails {outcome : Outcome} {f : Finishing} (h : f.fails P m.files outcome = true) :
    ∃ files message, m.stepFinish P outcome f = { m with files }.fail f message := by
  unfold Finishing.fails at h
  unfold stepFinish
  split at h <;> rename_i hat <;> simp only [hat]
  · exact ⟨m.files, _, if_pos h⟩
  · exact ⟨m.files, _, if_pos h⟩
  · exact ⟨_, _, rfl⟩
  all_goals cases h

theorem enqueueDownload_updates (desc : Descriptor) : (m.enqueueDownload P desc).updates = m.updates ∨
    (m.enqueueDownload P desc).updates = m.updates ++ [(desc.id, .failed "Invalid download URL")] := by
  unfold enqueueDownload
  split
  · exact Or.inr rfl
  · exact Or.inl rfl

/-- The callback fails where it sets the state of its model to failed. -/
theorem fails_iff (m : Manager) (outcome : Outcome) (f : Finishing) : f.fails P m.files outcome = true ↔
    ∃ message, (m.stepFinish P outcome f).updates = m.updates ++ [(f.descriptor.id, .failed message)] := by
  refine ⟨fun h => ?_, fun ⟨message, h⟩ => ?_⟩
  · obtain ⟨files, message, he⟩ := stepFinish_of_fails (P := P) h
    exact ⟨message, by rw [he]; rfl⟩
  have hgoes (m₁ : Manager) (at_ : FinishPoint) (hu : m₁.updates = m.updates) :
      (m₁.continue_ f at_).updates ≠ m.updates ++ [(f.descriptor.id, .failed message)] := by
    show m₁.updates ≠ _
    simp [hu]
  unfold Finishing.fails
  unfold stepFinish at h
  split at h <;> rename_i hat <;> simp only [hat] at h ⊢
  · by_contra hfails
    rw [if_neg hfails] at h
    exact absurd h (hgoes _ _ rfl)
  · by_contra hfails
    rw [if_neg hfails] at h
    exact absurd h (hgoes _ _ rfl)
  · split at h <;> exact absurd h (hgoes _ _ rfl)
  · split at h <;> exact absurd h (hgoes _ _ rfl)
  · exact absurd h (hgoes _ _ rfl)
  · split at h
    · rename_i auxDesc haux
      split at h
      · simp [setState] at h
      · rcases enqueueDownload_updates (P := P) (m := { m with callback := none }.setState .queued f.descriptor.id)
          auxDesc with he | he <;> rw [he] at h <;> simp [setState] at h
    · simp [setState] at h

theorem stepFinish_resumeData (outcome : Outcome) (f : Finishing) (key : String) :
    (m.stepFinish P outcome f).resumeData key = m.resumeData key ∨
      (m.stepFinish P outcome f).resumeData key = none := by
  unfold stepFinish
  split <;> dsimp only
  · split <;> exact Or.inl rfl
  · split <;> exact Or.inl rfl
  · split <;> exact Or.inl rfl
  · split <;> exact Or.inl rfl
  · exact Or.inl rfl
  · exact deleteResumeData_apply _ _ _
  · split
    · split
      · exact Or.inl rfl
      · rw [enqueueDownload_resumeData]
        exact Or.inl rfl
    · exact Or.inl rfl

/-- A step keeps what is saved under a key or deletes it, or has a download
paused and saves its data. -/
theorem step_resumeData {a : Action} (hs : (machine P).step m a = some m') (key : String) :
    m'.resumeData key = m.resumeData key ∨ m'.resumeData key = none ∨
      ∃ i data t, a = .cancelled i (some data) false ∧ m.tasks[i]? = some t ∧ t.descriptor.resumeKey = key ∧
        m'.resumeData key = some data := by
  cases a with
  | startDownload item =>
    cases hs
    exact Or.inl (congrFun (startDownload_resumeData item) key)
  | cancelDownload modelId =>
    cases hs
    exact Or.inl rfl
  | deleteDownloaded item failsPrimary failsAuxiliary keeps =>
    cases hs
    unfold deleteDownloaded
    dsimp only
    split
    · exact Or.inl rfl
    · unfold deleteAllResumeData
      dsimp only [setState]
      split
      · exact Or.inr (Or.inl rfl)
      · exact Or.inl rfl
  | restorePendingTasks =>
    cases hs
    exact Or.inl rfl
  | runUpdate i =>
    obtain ⟨u, -, rfl⟩ := step_runUpdate hs
    exact Or.inl rfl
  | cancelled i resumeData fails =>
    obtain ⟨t, ht, -, rfl⟩ := step_cancelled hs
    cases resumeData with
    | none => exact (deleteResumeData_apply fails t.descriptor.resumeKey key).imp_right Or.inl
    | some data =>
      cases fails with
      | true => exact Or.inl rfl
      | false =>
        by_cases hkey : key = t.descriptor.resumeKey
        · exact Or.inr (Or.inr ⟨i, data, t, rfl, ht, hkey.symm, hkey ▸ Function.update_self ..⟩)
        · exact Or.inl (Function.update_of_ne hkey _ _)
  | didWriteData i written expected =>
    obtain ⟨-, t, -, rfl⟩ := step_didWriteData hs
    exact Or.inl rfl
  | didFinish i statusCode location fails =>
    obtain ⟨-, t, -, rfl⟩ := step_didFinish hs
    cases haccepted : isAccepted statusCode with
    | true =>
      rw [didFinish_of_accepted haccepted]
      exact Or.inl rfl
    | false =>
      obtain ⟨message, he⟩ := didFinish_of_not_accepted haccepted (m.dropTask i) t location fails
      rw [he]
      exact (deleteResumeData_apply fails t.descriptor.resumeKey key).imp_right Or.inl
  | stepFinish outcome =>
    obtain ⟨f, -, rfl⟩ := step_stepFinish hs
    exact (stepFinish_resumeData outcome f key).imp_right Or.inl
  | didComplete i isCancelled localizedDescription =>
    obtain ⟨-, t, -, rfl⟩ := step_didComplete hs
    unfold didComplete
    split <;> exact Or.inl rfl
  | crash redelivers =>
    cases hs
    exact Or.inl rfl

/-- Where the server refuses a file, its data is deleted, if that can be. -/
theorem resumeData_of_refused {i : Nat} {statusCode : Option Int} {location : Bytes} {fails : Bool} {e : Attempt}
    (hs : (machine P).step m (.didFinish i statusCode location fails) = some m')
    (he : m.failure P (.didFinish i statusCode location fails) = some e) :
    m'.resumeData e.1.resumeKey = if fails then m.resumeData e.1.resumeKey else none := by
  obtain ⟨-, t, ht, rfl⟩ := step_didFinish hs
  obtain ⟨haccepted, he⟩ := Option.ite_none_left_eq_some.mp he
  rw [ht] at he
  obtain ⟨data, -, rfl⟩ := Option.map_eq_some_iff.mp he
  obtain ⟨message, hfinish⟩ :=
    didFinish_of_not_accepted (Bool.not_eq_true _ ▸ haccepted) (m.dropTask i) t location fails
  rw [hfinish]
  cases fails with
  | true => rfl
  | false => exact Function.update_self ..

/-- Where the file, a file operation or the transport fails, it is kept. -/
theorem resumeData_of_failure {a : Action} {e : Attempt} (hs : (machine P).step m a = some m')
    (he : m.failure P a = some e)
    (ha : ∀ i statusCode location fails, a ≠ .didFinish i statusCode location fails) :
    m'.resumeData = m.resumeData := by
  cases a with
  | didFinish i statusCode location fails => exact absurd rfl (ha i statusCode location fails)
  | stepFinish outcome =>
    obtain ⟨f, hf, rfl⟩ := step_stepFinish hs
    obtain ⟨f', hf', he⟩ := Option.bind_eq_some_iff.mp he
    cases hf.symm.trans hf'
    obtain ⟨files, message, hfails⟩ := stepFinish_of_fails (P := P) (Option.ite_none_right_eq_some.mp he).1
    rw [hfails]
    rfl
  | didComplete i isCancelled localizedDescription =>
    obtain ⟨-, t, -, rfl⟩ := step_didComplete hs
    unfold didComplete
    split <;> rfl
  | _ => cases he

end Steps

/-! ## Runs -/

namespace History

variable {P} {h h' : History} {a : Action}

/-- An item is started from what is saved. -/
theorem afresh_iff : h.Afresh P ↔ ∀ e ∈ h.failed, h.manager.resumeData e.1.resumeKey ≠ some e.2 := by
  refine ⟨fun hafresh => hafresh.saved, fun hsaved => ⟨hsaved, fun item t ht e he hfile hdata => ?_⟩⟩
  refine hsaved e he ?_
  rw [hfile.resumeKey, ← startDownload_started item t ht]
  exact hdata

theorem step_history_iff : (histories P).step h a = some h' ↔
    (machine P).step h.manager a = some h'.manager ∧ h'.failed = h.record P h'.manager a := by
  show Option.map _ _ = _ ↔ _
  rw [Option.map_eq_some_iff]
  constructor
  · rintro ⟨m', hs, rfl⟩
    exact ⟨hs, rfl⟩
  · rintro ⟨hs, hfailed⟩
    exact ⟨h'.manager, hs, by rw [← hfailed]⟩

/-- The record does not change what the manager does. -/
theorem run_histories (h : History) (as : List Action) :
    ((histories P).run h as).map History.manager = (machine P).run h.manager as := by
  induction as generalizing h with
  | nil => rfl
  | cons a as ih =>
    simp only [Machine.run, histories, Option.map_bind, Option.bind_map]
    exact congrArg _ (funext fun m' => ih _)

/-- A file that is on record is not saved with its data by any step but one
that saves data. -/
theorem Afresh.keeps (hafresh : h.Afresh P) (hs : (histories P).step h a = some h')
    (ha : ∀ i data, a ≠ .cancelled i (some data) false) :
    ∀ e ∈ h.failed, h'.manager.resumeData e.1.resumeKey ≠ some e.2 := by
  intro e he
  rcases step_resumeData (step_history_iff.mp hs).1 e.1.resumeKey with hsame | hnone | ⟨i, data, t, rfl, -⟩
  · rw [hsame]
    exact hafresh.saved e he
  · rw [hnone]
    simp
  · exact absurd rfl (ha i data)

/-- What fails from data that is kept. -/
theorem Afresh.failure_iff (hafresh : h.Afresh P) (hs : (histories P).step h a = some h')
    (hcancelled : ∀ i data, a ≠ .cancelled i (some data) false) (hstart : ∀ item, a ≠ .startDownload item)
    (hrefused : ∀ i statusCode location fails, a ≠ .didFinish i statusCode location fails) :
    h'.Afresh P ↔ ∀ e ∈ h.manager.failure P a, h.manager.resumeData e.1.resumeKey ≠ some e.2 := by
  obtain ⟨hm, hfailed⟩ := step_history_iff.mp hs
  have hrecord : h'.failed = (h.manager.failure P a).toList ++ h.failed := by
    rw [hfailed]
    cases a with
    | startDownload item => exact absurd rfl (hstart item)
    | _ => rfl
  rw [afresh_iff, hrecord]
  constructor
  · intro hsaved e he
    rw [← resumeData_of_failure hm he hrefused]
    exact hsaved e (List.mem_append_left _ (Option.mem_toList.mpr he))
  · intro hok e he
    rcases List.mem_append.mp he with he | he
    · have he := Option.mem_toList.mp he
      rw [resumeData_of_failure hm he hrefused]
      exact hok e he
    · exact hafresh.keeps hs hcancelled e he

/-- A step meets the condition exactly where what is saved after it is none of
the data on record. -/
theorem Afresh.step_iff (hafresh : h.Afresh P) (hs : (histories P).step h a = some h') :
    h'.Afresh P ↔ h.LeavesFresh P a := by
  obtain ⟨hm, hfailed⟩ := step_history_iff.mp hs
  cases a with
  | startDownload item =>
    refine iff_of_true (afresh_iff.mpr fun e he => ?_) trivial
    rw [hfailed] at he
    exact hafresh.keeps hs (by simp) e (List.mem_of_mem_filter he)
  | cancelled i resumeData fails =>
    -- nothing fails, and only data that can be saved is
    rcases resumeData with _ | data
    · refine iff_of_true (afresh_iff.mpr fun e he => ?_) trivial
      rw [hfailed] at he
      exact hafresh.keeps hs (by simp) e he
    cases fails with
    | true =>
      refine iff_of_true (afresh_iff.mpr fun e he => ?_) trivial
      rw [hfailed] at he
      exact hafresh.keeps hs (by simp) e he
    | false =>
      rw [afresh_iff, hfailed]
      constructor
      · rintro hsaved t ht e he hkey rfl
        refine hsaved e he ?_
        obtain ⟨t', ht', -, hm⟩ := step_cancelled hm
        cases ht.symm.trans ht'
        rw [← hm, hkey]
        exact Function.update_self ..
      · intro hok e he
        rcases step_resumeData hm e.1.resumeKey with hsame | hnone | ⟨i', data', t, heq, ht, hkey, hdata⟩
        · rw [hsame]
          exact hafresh.saved e he
        · rw [hnone]
          simp
        · cases heq
          rw [hdata]
          exact fun hd => hok t ht e he hkey.symm (Option.some.inj hd).symm
  | didFinish i statusCode location fails =>
    have hkeeps := hafresh.keeps hs (by simp)
    cases fails with
    | true =>
      rw [afresh_iff, hfailed]
      constructor
      · intro hsaved e he
        have hkept := resumeData_of_refused hm he
        exact fun hd => hsaved e (List.mem_append_left _ (Option.mem_toList.mpr he)) (hkept.trans hd)
      · intro hok e he
        rcases List.mem_append.mp he with he | he
        · have he := Option.mem_toList.mp he
          exact fun hd => hok e he ((resumeData_of_refused hm he).symm.trans hd)
        · exact hkeeps e he
    | false =>
      refine iff_of_true (afresh_iff.mpr fun e he => ?_) trivial
      rw [hfailed] at he
      rcases List.mem_append.mp he with he | he
      · rw [resumeData_of_refused hm (Option.mem_toList.mp he)]
        simp
      · exact hkeeps e he
  | stepFinish outcome => exact hafresh.failure_iff hs (by simp) (by simp) (by simp)
  | didComplete i isCancelled localizedDescription => exact hafresh.failure_iff hs (by simp) (by simp) (by simp)
  | _ =>
    -- nothing fails in the other steps
    rw [hafresh.failure_iff hs (by simp) (by simp) (by simp)]
    exact iff_of_true (fun e he => by cases he) trivial

end History

/-- For every run of the manager, from any state of it: the data saved for a
file is never data from which the file has failed since its last start, so
that no retry starts from such data, if and only if every step of the run
leaves it so. -/
theorem retries_afresh_iff (m : Manager) (as : List Action) :
    (histories P).Always (History.Afresh P) ⟨m, []⟩ as ↔ (histories P).Meets (History.LeavesFresh P) ⟨m, []⟩ as :=
  Machine.always_iff_meets (fun _ => id) (fun _ _ _ h hok hs => (h.step_iff hs).mpr hok)
    (fun _ _ _ h hs h' => (h.step_iff hs).mp h') (History.afresh_iff.mpr fun e he => by cases he) as

/-- The download is paused and resumed, the file turns out to be another one,
and is removed. -/
def wrongFileResumed : List Action :=
  let ok : Action := .stepFinish ⟨false, ""⟩
  [.startDownload smallItem, .cancelDownload "small", .cancelled 0 (some [1, 2, 3]) false, .startDownload smallItem,
    .didFinish 0 (some 206) (smallModel 2) false, ok, ok, ok, ok, ok]

/-- The retry starts from the data that the wrong file came from. -/
theorem not_startsAfresh_wrongFileResumed : ¬ (histories digests).Always (History.StartsAfresh digests smallItem)
    ⟨Manager.launch (fun _ => none) fun _ => none, []⟩ wrongFileResumed :=
  Machine.not_always_of_run (by decide +kernel)

end SynapsNotes.Downloads
