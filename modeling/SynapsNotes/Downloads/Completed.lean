import SynapsNotes.Downloads.Sourced

/-!
# Completed models

A model is recorded as completed in two places: where a download is started
and the files are found to be there, and where a finished file has been taken
over. Neither looks at all that `exists` looks at: the first asks for an
auxiliary file only if there is a URL for it; the second asks neither for the
primary file when it has taken over the auxiliary one, nor whether the file it
has moved is still there.

The main actor records a state some time after it was set, and the callback
for a finished file runs beside it, one file operation after the other. So
what is recorded of a model is read as it will be once the updates under way
have run (`recordedState`), and while no callback for a file of it is under
way. `recorded_iff` is the exact condition, for every order of the steps.
-/

namespace SynapsNotes.Downloads

open Framework ModelStorage Manager

namespace Manager

/-- The recorded states once the updates under way have run, in their order. -/
def recordedState (m : Manager) : ModelId → DownloadState :=
  m.updates.foldl (fun states u => Function.update states u.1 u.2) m.states

/-- The callback under way is for a file of the model. -/
def IsFinishing (m : Manager) (id : ModelId) : Prop := ∃ f ∈ m.callback, f.descriptor.id = id

instance (m : Manager) (id : ModelId) : Decidable (m.IsFinishing id) :=
  inferInstanceAs (Decidable (∃ f ∈ m.callback, f.descriptor.id = id))

end Manager

/-- The last of the updates that is for the model. -/
def lastUpdate (updates : List (ModelId × DownloadState)) (id : ModelId) : Option DownloadState :=
  (updates.reverse.find? fun u => u.1 = id).map Prod.snd

variable (P : Platform) (C : Catalog P)

/-- Whenever the recorded state of a model is completed, it exists. -/
def Recorded (m : Manager) : Prop :=
  ∀ item ∈ C.items, ¬ m.IsFinishing item.id → m.recordedState item.id = .completed → exists_ P m.files item = true

/-- The same of the states as they are shown, whenever nothing is under way. -/
def Shown (m : Manager) : Prop :=
  m.callback = none → m.updates = [] →
    ∀ item ∈ C.items, m.states item.id = .completed → exists_ P m.files item = true

instance : DecidablePred (Shown P C) := fun m =>
  decidable_of_iff (m.callback.isNone → m.updates.isEmpty →
    ∀ item ∈ C.items, m.states item.id = .completed → exists_ P m.files item = true)
    (by simp only [Shown, Option.isNone_iff_eq_none, List.isEmpty_iff])

/-! ## The condition -/

/-- What the callback does not ask of the other file of the item: the primary
file is there when the auxiliary one has been taken over; and the auxiliary
file, if the item names one without a usable URL, when the primary one
has. -/
def OtherIsThere (item : ModelCatalogItem) (desc : Descriptor) (files : Files) : Prop :=
  match desc.stage with
  | .primary => followingDescriptor P desc = none → auxiliaryExists P files item = true
  | .auxiliary => isValidModelFile P files (fileURL P item) item.filename = true

/-- No auxiliary file of the descriptor is to be downloaded behind it. -/
def Ends (desc : Descriptor) (m : Manager) : Prop :=
  ∀ auxDesc, (if desc.stage = .primary then followingDescriptor P desc else none) = some auxDesc →
    m.fileExists P auxDesc.kind auxDesc.filename = true

/-- The condition on a step.

- An item that names an auxiliary file but no URL for it is started where that
  file is there or the primary one is not.
- A deletion of a completed model that fails does so at the primary file.
- Where the callback for a finished file completes its model, the file that it
  has moved is still there, and so is the other one.
- An update of a model that runs last of its updates, before an earlier one to
  completed, does so where the model exists.

The first, second and last are asked while no callback for the model is under
way. -/
def Sound (m : Manager) : Action → Prop
  | .startDownload item => ¬ m.IsFinishing item.id → P.isURL item.url = true → isGiven item.auxiliaryURL = false →
      m.fileExists P item.kind item.filename = true → auxiliaryExists P m.files item = true
  | .deleteDownloaded item failsPrimary failsAuxiliary _ => ¬ m.IsFinishing item.id →
      m.recordedState item.id = .completed →
        (delete P item failsPrimary failsAuxiliary m.files).2 = true → failsPrimary = true
  | .stepFinish _ => ∀ f ∈ m.callback, f.at_ = .following → Ends P f.descriptor m →
      (m.files (f.descriptor.destURL P)).isSome = true ∧
        ∀ item ∈ C.items, item.id = f.descriptor.id → OtherIsThere P item f.descriptor m.files
  | .runUpdate i => ∀ u ∈ m.updates[i]?, ∀ item ∈ C.items, item.id = u.1 → ¬ m.IsFinishing item.id →
      lastUpdate (m.updates.eraseIdx i) item.id = some .completed →
        lastUpdate m.updates item.id ≠ some .completed → exists_ P m.files item = true
  | _ => True

variable {P C} {m m' : Manager}

theorem not_isFinishing_of_none (h : m.callback = none) (id : ModelId) : ¬ m.IsFinishing id := by
  rintro ⟨f, hf, -⟩
  rw [h] at hf
  cases hf

/-- The callback is for another model. -/
theorem not_isFinishing_of_ne {f : Finishing} {id : ModelId} (hf : m.callback = some f) (hne : id ≠ f.descriptor.id) :
    ¬ m.IsFinishing id := by
  rintro ⟨f', hf', rfl⟩
  cases hf.symm.trans hf'
  exact hne rfl

theorem Recorded.shown (h : Recorded P C m) : Shown P C m := by
  intro hcallback hupdates item hitem hcompleted
  refine h item hitem (not_isFinishing_of_none hcallback item.id) ?_
  rw [recordedState, hupdates]
  exact hcompleted

/-! ## Updates, one after the other -/

theorem recordedState_setState (state : DownloadState) (id : ModelId) :
    (m.setState state id).recordedState = Function.update m.recordedState id state := by
  simp only [recordedState, setState, List.foldl_append, List.foldl_cons, List.foldl_nil]

theorem lastUpdate_append (us us' : List (ModelId × DownloadState)) (id : ModelId) :
    lastUpdate (us ++ us') id = (lastUpdate us' id).or (lastUpdate us id) := by
  simp only [lastUpdate, List.reverse_append, List.find?_append, Option.map_or]

theorem lastUpdate_singleton (u : ModelId × DownloadState) (id : ModelId) :
    lastUpdate [u] id = if u.1 = id then some u.2 else none := by
  by_cases h : u.1 = id <;> simp [lastUpdate, h]

/-- The recorded state is that of the last update, if there is one. -/
theorem recordedState_apply (m : Manager) (id : ModelId) :
    m.recordedState id = (lastUpdate m.updates id).getD (m.states id) := by
  rw [recordedState]
  generalize m.updates = updates
  induction updates using List.reverseRecOn with
  | nil => rfl
  | append_singleton us u ih =>
    rw [List.foldl_append, lastUpdate_append, lastUpdate_singleton, List.foldl_cons, List.foldl_nil]
    by_cases h : u.1 = id
    · subst h
      rw [if_pos rfl]
      exact Function.update_self ..
    · rw [if_neg h, Option.none_or, ← ih]
      exact Function.update_of_ne (Ne.symm h) _ _

/-- An update that runs is no more under way. -/
theorem recordedState_runUpdate {i : Nat} {u : ModelId × DownloadState} (hu : m.updates[i]? = some u) (id : ModelId) :
    { m with updates := m.updates.eraseIdx i, states := Function.update m.states u.1 u.2 }.recordedState id =
      if u.1 = id then (lastUpdate (m.updates.eraseIdx i) id).getD (m.recordedState id) else m.recordedState id := by
  obtain ⟨hi, hget⟩ := List.getElem?_eq_some_iff.mp hu
  have hsplit : m.updates = m.updates.take i ++ ([u] ++ m.updates.drop (i + 1)) := by
    rw [← hget, List.singleton_append, ← List.drop_eq_getElem_cons hi, List.take_append_drop]
  have herase : m.updates.eraseIdx i = m.updates.take i ++ m.updates.drop (i + 1) := List.eraseIdx_eq_take_drop_succ ..
  rw [recordedState_apply, recordedState_apply]
  have hlast : lastUpdate m.updates id = ((lastUpdate (m.updates.drop (i + 1)) id).or
      (if u.1 = id then some u.2 else none)).or (lastUpdate (m.updates.take i) id) := by
    rw [← lastUpdate_singleton, ← lastUpdate_append, ← lastUpdate_append, ← hsplit]
  rw [hlast, herase, lastUpdate_append]
  by_cases h : u.1 = id
  · subst h
    simp only [if_true, Function.update_self]
    cases lastUpdate (m.updates.drop (i + 1)) u.1 <;> cases lastUpdate (m.updates.take i) u.1 <;> rfl
  · simp only [if_neg h, Function.update_of_ne (Ne.symm h), Option.or_none]

theorem enqueueDownload_callback (desc : Descriptor) : (m.enqueueDownload P desc).callback = m.callback := by
  unfold enqueueDownload
  split <;> rfl

/-- A download that is enqueued behind the state queued leaves it, or fails. -/
theorem enqueueDownload_spec (desc : Descriptor) :
    ∃ state, ((m.setState .queued desc.id).enqueueDownload P desc).recordedState =
      Function.update m.recordedState desc.id state ∧ state ≠ .completed := by
  unfold enqueueDownload
  split
  · refine ⟨.failed "Invalid download URL", ?_, by simp⟩
    rw [recordedState_setState, recordedState_setState, Function.update_idem]
  · exact ⟨.queued, recordedState_setState (m := m) .queued desc.id, by simp⟩

/-! ## Starting a download -/

/-- What starting a download leaves: the files and the callback, and a state of
the item, which is completed exactly where the files that it asks for are
there. -/
theorem startDownload_spec (item : ModelCatalogItem) :
    (m.startDownload P item).files = m.files ∧ (m.startDownload P item).callback = m.callback ∧
    ∃ state, (m.startDownload P item).recordedState = Function.update m.recordedState item.id state ∧
      (state = .completed ↔ P.isURL item.url = true ∧ m.fileExists P item.kind item.filename = true ∧
        (isGiven item.auxiliaryFilename = true ∧ isGiven item.auxiliaryURL = true →
          m.fileExists P item.kind (item.auxiliaryFilename.getD "") = true)) := by
  refine ⟨startDownload_files item, ?_⟩
  have hexists (kind : ModelKind) (filename : String) :
      (m.setState .queued item.id).fileExists P kind filename = m.fileExists P kind filename := rfl
  have twice (state : DownloadState) : ((m.setState .queued item.id).setState state item.id).recordedState =
      Function.update m.recordedState item.id state := by
    rw [recordedState_setState, recordedState_setState, Function.update_idem]
  have henqueue (desc : Descriptor) (hdesc : desc.id = item.id) :
      ∃ state, ((m.setState .queued item.id).enqueueDownload P desc).recordedState =
        Function.update m.recordedState item.id state ∧ state ≠ .completed := hdesc ▸ enqueueDownload_spec desc
  unfold startDownload
  split
  · rename_i hurl
    refine ⟨rfl, .failed "Invalid URL", recordedState_setState _ _, iff_of_false (by simp) fun h => ?_⟩
    simp [h.1] at hurl
  rename_i hurl
  have hurl : P.isURL item.url = true := by simpa using hurl
  have haux : (if isGiven item.auxiliaryFilename && isGiven item.auxiliaryURL then
      m.fileExists P item.kind (item.auxiliaryFilename.getD "") else true) = true ↔
      (isGiven item.auxiliaryFilename = true ∧ isGiven item.auxiliaryURL = true →
        m.fileExists P item.kind (item.auxiliaryFilename.getD "") = true) := by
    rw [← Bool.and_eq_true]
    split
    · rename_i hgiven
      simp only [hgiven, true_imp_iff]
    · rename_i hgiven
      exact iff_of_true rfl fun h => absurd h hgiven
  simp only [hexists]
  generalize (if isGiven item.auxiliaryFilename && isGiven item.auxiliaryURL then
      m.fileExists P item.kind (item.auxiliaryFilename.getD "") else true) = auxiliaryExists at haux ⊢
  rw [← haux, ← Bool.and_eq_true (m.fileExists P item.kind item.filename)]
  split
  · rename_i hboth
    exact ⟨rfl, .completed, twice _, iff_of_true rfl ⟨hurl, hboth⟩⟩
  rename_i hboth
  have hnot : ¬ (P.isURL item.url = true ∧ (m.fileExists P item.kind item.filename && auxiliaryExists) = true) :=
    fun h => hboth h.2
  split
  · split
    · exact ⟨rfl, .failed "Invalid auxiliary model URL", twice _, iff_of_false (by simp) hnot⟩
    · rename_i auxDesc haux
      obtain ⟨state, hstates, hne⟩ := henqueue auxDesc (eq_of_makeAuxiliaryDescriptor haux).1
      exact ⟨enqueueDownload_callback auxDesc, state, hstates, iff_of_false hne hnot⟩
  · split
    · exact ⟨rfl, .failed "Invalid model URL", twice _, iff_of_false (by simp) hnot⟩
    · rename_i primaryDesc hprimary
      obtain ⟨state, hstates, hne⟩ := henqueue primaryDesc (eq_of_makePrimaryDescriptor hprimary).1
      exact ⟨enqueueDownload_callback primaryDesc, state, hstates, iff_of_false hne hnot⟩

/-! ## The callback for a finished file -/

/-- What follows a file that has been taken over: the model is completed
unless its auxiliary file is to be downloaded now. -/
theorem following_spec {f : Finishing} (hat : f.at_ = .following) (outcome : Outcome) :
    (m.stepFinish P outcome f).files = m.files ∧ (m.stepFinish P outcome f).callback = none ∧
    ∃ state, (m.stepFinish P outcome f).recordedState = Function.update m.recordedState f.descriptor.id state ∧
      (state = .completed ↔ Ends P f.descriptor m) := by
  simp only [stepFinish, hat]
  split
  · rename_i auxDesc haux
    have hid : auxDesc.id = f.descriptor.id := by
      obtain ⟨-, h⟩ := Option.ite_none_right_eq_some.mp haux
      unfold followingDescriptor auxiliaryDescriptor at h
      split at h
      · split at h
        · cases h
        · cases h
          rfl
      · cases h
    split
    · rename_i hexists
      refine ⟨rfl, rfl, .completed, recordedState_setState (m := { m with callback := none }) _ _, iff_of_true rfl ?_⟩
      rintro auxDesc' haux'
      cases haux.symm.trans haux'
      exact hexists
    · rename_i hexists
      obtain ⟨state, hstates, hne⟩ := enqueueDownload_spec (P := P) (m := { m with callback := none }) auxDesc
      rw [hid] at hstates
      exact ⟨by rw [enqueueDownload_files]; rfl, enqueueDownload_callback auxDesc, state, hstates,
        iff_of_false hne fun hends => hexists (hends auxDesc haux)⟩
  · rename_i hnone
    refine ⟨rfl, rfl, .completed, recordedState_setState (m := { m with callback := none }) _ _, iff_of_true rfl ?_⟩
    intro auxDesc haux
    cases hnone.symm.trans haux

/-- Before, the callback goes on or ends with an error, and reaches at most the
place of its file. -/
theorem stepFinish_cases {f : Finishing} (hat : f.at_ ≠ .following) (outcome : Outcome) :
    (∀ url, url ≠ f.descriptor.destURL P → (m.stepFinish P outcome f).files url = m.files url) ∧
    ((∃ at_, (m.stepFinish P outcome f).callback = some { f with at_ } ∧
        (m.stepFinish P outcome f).recordedState = m.recordedState) ∨
      ∃ message, (m.stepFinish P outcome f).callback = none ∧
        (m.stepFinish P outcome f).recordedState =
          Function.update m.recordedState f.descriptor.id (.failed message)) := by
  have hfails (files : Files) (message : String) : ({ m with files }.fail f message).recordedState =
      Function.update m.recordedState f.descriptor.id (.failed message) :=
    recordedState_setState (m := { m with files, callback := none }) _ _
  have hremove (url : ModelPath) (hne : url ≠ f.descriptor.destURL P) :
      remove m.files (f.descriptor.destURL P) url = m.files url := Function.update_of_ne hne _ _
  unfold stepFinish
  split <;> dsimp only
  · -- clearing
    split
    · exact ⟨fun _ _ => rfl, .inr ⟨_, rfl, hfails m.files _⟩⟩
    · exact ⟨hremove, .inl ⟨_, rfl, rfl⟩⟩
  · -- moving
    split
    · exact ⟨fun _ _ => rfl, .inr ⟨_, rfl, hfails m.files _⟩⟩
    · exact ⟨fun _ hne => Function.update_of_ne hne _ _, .inl ⟨_, rfl, rfl⟩⟩
  · -- checking
    split <;> exact ⟨fun _ _ => rfl, .inl ⟨_, rfl, rfl⟩⟩
  · -- hashing
    split <;> exact ⟨fun _ _ => rfl, .inl ⟨_, rfl, rfl⟩⟩
  · -- discarding
    refine ⟨fun url hne => ?_, .inr ⟨_, rfl, hfails _ _⟩⟩
    rw [fail_files]
    split
    · rfl
    · exact hremove url hne
  · -- verified
    exact ⟨fun _ _ => rfl, .inl ⟨_, rfl, rfl⟩⟩
  · -- following
    rename_i hfollowing
    exact absurd hfollowing hat

/-! ## Files that have been checked -/

def FinishPoint.isChecked : FinishPoint → Bool
  | .hashing | .verified | .following => true
  | .clearing | .moving | .checking | .discarding _ => false

variable (P) in
/-- Once the callback has looked at the first bytes of its file, what is left
at its place passes for a model file. -/
def Checked (m : Manager) : Prop :=
  ∀ f ∈ m.callback, f.at_.isChecked = true →
    ∀ content ∈ m.files (f.descriptor.destURL P), P.isValidContent f.descriptor.filename content = true

theorem Checked.of_someOf (h : Checked P m) (hfiles : SomeOf m'.files m.files) (hcallback : m'.callback = m.callback) :
    Checked P m' := by
  intro f hf hchecked content hcontent
  rw [hcallback] at hf
  exact h f hf hchecked content (hfiles.eq_some hcontent)

theorem checked_of_none (h : m.callback = none) : Checked P m := by
  intro f hf
  rw [h] at hf
  cases hf

theorem Checked.stepFinish {f : Finishing} (h : Checked P m) (hf : m.callback = some f) (outcome : Outcome) :
    Checked P (m.stepFinish P outcome f) := by
  have hgoes (files : Files) (data : String → Option Bytes) (at_ : FinishPoint)
      (hchecked : at_.isChecked = true → ∀ content ∈ files (f.descriptor.destURL P),
        P.isValidContent f.descriptor.filename content = true) :
      Checked P ({ m with files, resumeData := data }.continue_ f at_) := by
    intro f' hf' hat
    cases hf'
    exact hchecked hat
  by_cases hfollowing : f.at_ = .following
  · exact checked_of_none (following_spec hfollowing outcome).2.1
  unfold Manager.stepFinish
  split <;> dsimp only
  · split
    · exact checked_of_none rfl
    · exact hgoes _ m.resumeData _ fun hat => Bool.noConfusion hat
  · split
    · exact checked_of_none rfl
    · exact hgoes _ m.resumeData _ fun hat => Bool.noConfusion hat
  · split
    · exact hgoes m.files m.resumeData _ fun hat => Bool.noConfusion hat
    · -- the first bytes are those of a model file, if the name asks for it
      rename_i hpasses
      refine hgoes m.files m.resumeData _ fun _ content hcontent => ?_
      unfold Platform.isValidContent
      split
      · rename_i hname
        rw [Option.mem_def.mp hcontent, hname, Option.any_some] at hpasses
        simp only [Bool.true_and, Bool.not_eq_true', Bool.not_eq_false, Bool.and_eq_true] at hpasses
        exact hpasses.2
      · rfl
  · rename_i hat
    split
    · exact hgoes m.files m.resumeData _ fun _ => h f hf (by rw [hat]; rfl)
    · exact hgoes m.files m.resumeData _ fun hat => Bool.noConfusion hat
  · exact checked_of_none rfl
  · rename_i hat
    exact hgoes m.files _ _ fun _ => h f hf (by rw [hat]; rfl)
  · rename_i hat
    exact absurd hat hfollowing

theorem didFinish_callback (t : SessionTask) (statusCode : Option Int) (location : Bytes) (fails : Bool) :
    (m.didFinish t statusCode location fails).callback = m.callback ∨
      (m.didFinish t statusCode location fails).callback = some ⟨t.descriptor, t.resumeData, location, .clearing⟩ := by
  unfold didFinish
  split
  · split
    · exact .inr rfl
    · exact .inl rfl
  · exact .inr rfl

/-- A step that neither is one of the callback nor starts one leaves it. -/
theorem step_callback {a : Action} (h : (machine P).step m a = some m') (hstep : ∀ outcome, a ≠ .stepFinish outcome)
    (hfinish : ∀ i statusCode location fails, a ≠ .didFinish i statusCode location fails) :
    m'.callback = m.callback ∨ m'.callback = none := by
  cases a with
  | startDownload item =>
    cases h
    exact .inl (startDownload_spec item).2.1
  | cancelDownload | restorePendingTasks =>
    cases h
    exact .inl rfl
  | deleteDownloaded item failsPrimary failsAuxiliary keeps =>
    cases h
    unfold deleteDownloaded
    dsimp only
    split <;> exact .inl rfl
  | runUpdate i =>
    obtain ⟨u, -, rfl⟩ := step_runUpdate h
    exact .inl rfl
  | cancelled i resumeData fails =>
    obtain ⟨t, -, -, rfl⟩ := step_cancelled h
    cases resumeData <;> exact .inl rfl
  | didWriteData i written expected =>
    obtain ⟨-, t, -, rfl⟩ := step_didWriteData h
    exact .inl rfl
  | didFinish i statusCode location fails => exact absurd rfl (hfinish i statusCode location fails)
  | stepFinish outcome => exact absurd rfl (hstep outcome)
  | didComplete i isCancelled localizedDescription =>
    obtain ⟨-, t, -, rfl⟩ := step_didComplete h
    unfold didComplete
    split <;> exact .inl rfl
  | crash redelivers =>
    cases h
    exact .inr rfl

theorem Checked.step {a : Action} (h : Checked P m) (hs : (machine P).step m a = some m') : Checked P m' := by
  cases a with
  | stepFinish outcome =>
    obtain ⟨f, hf, rfl⟩ := step_stepFinish hs
    exact h.stepFinish hf outcome
  | didFinish i statusCode location fails =>
    obtain ⟨hnone, t, -, rfl⟩ := step_didFinish hs
    rcases didFinish_callback (m := m.dropTask i) t statusCode location fails with hcallback | hcallback
    · exact checked_of_none (hcallback.trans hnone)
    · intro f hf hat
      rw [hcallback] at hf
      cases hf
      exact Bool.noConfusion hat
  | _ =>
    rcases step_callback hs (by simp) (by simp) with hcallback | hcallback
    · refine h.of_someOf ?_ hcallback
      obtain ⟨-, hfiles⟩ | ⟨item, failsPrimary, failsAuxiliary, keeps, -, hfiles⟩ | ⟨outcome, f, heq, -⟩ :=
        step_files_cases hs
      · exact SomeOf.of_eq hfiles
      · rw [hfiles]
        exact SomeOf.delete P item failsPrimary failsAuxiliary m.files
      · cases heq
    · exact checked_of_none hcallback

/-- What is left of a file that has been checked passes for a model file. -/
theorem Checked.isValidModelFile_iff (h : Checked P m) {f : Finishing} (hf : m.callback = some f)
    (hat : f.at_.isChecked = true) :
    isValidModelFile P m.files (f.descriptor.destURL P) f.descriptor.filename = true ↔
      (m.files (f.descriptor.destURL P)).isSome = true := by
  rw [Downloads.isValidModelFile_iff, Option.isSome_iff_exists]
  exact ⟨fun ⟨content, hcontent, _⟩ => ⟨content, hcontent⟩,
    fun ⟨content, hcontent⟩ => ⟨content, hcontent, h f hf hat content hcontent⟩⟩

/-! ## One step -/

variable {item : ModelCatalogItem}

/-- A step that concerns one item. -/
theorem recorded_iff_of_item (m' : Manager) (hm : Recorded P C m) (hitem : item ∈ C.items)
    (hfiles : ∀ url, ¬ Owns P item url → m'.files url = m.files url)
    (hstates : ∀ id, id ≠ item.id → m'.recordedState id = m.recordedState id)
    (hcallback : ∀ id, id ≠ item.id → m.IsFinishing id → m'.IsFinishing id) :
    Recorded P C m' ↔
      (¬ m'.IsFinishing item.id → m'.recordedState item.id = .completed → exists_ P m'.files item = true) := by
  refine ⟨fun h => h item hitem, fun h item' hitem' hfree hcompleted => ?_⟩
  by_cases he : item' = item
  · rw [he] at hfree hcompleted ⊢
    exact h hfree hcompleted
  · have hid : item'.id ≠ item.id := fun hid => he (C.id_unique item' hitem' item hitem hid)
    rw [hstates item'.id hid] at hcompleted
    rw [exists_congr fun url howns => hfiles url (C.disjoint item' hitem' item hitem he url howns)]
    exact hm item' hitem' (fun hfinishing => hfree (hcallback item'.id hid hfinishing)) hcompleted

/-- A step that leaves the files and completes nothing. -/
theorem recorded_of_quiet (hm : Recorded P C m) (hfiles : m'.files = m.files)
    (hcallback : m'.callback = m.callback)
    (hstates : ∀ id, m'.recordedState id = .completed → m.recordedState id = .completed) : Recorded P C m' := by
  intro item hitem hfree hcompleted
  rw [hfiles]
  refine hm item hitem (fun hfinishing => hfree ?_) (hstates _ hcompleted)
  rw [IsFinishing, hcallback]
  exact hfinishing

/-- `fileExists` of the auxiliary file, where the item has one. -/
theorem fileExists_auxiliary_iff (hgiven : isGiven item.auxiliaryFilename = true) :
    m.fileExists P item.kind (item.auxiliaryFilename.getD "") = auxiliaryExists P m.files item := by
  cases haux : item.auxiliaryFilename with
  | none =>
    rw [haux] at hgiven
    cases hgiven
  | some filename =>
    have hne : filename ≠ "" := by
      rw [haux] at hgiven
      simpa [isGiven] using hgiven
    simp [fileExists, auxiliaryExists, auxiliaryFileURL, haux, hne]

theorem auxiliaryExists_of_not_given (hgiven : isGiven item.auxiliaryFilename = false) (files : Files) :
    auxiliaryExists P files item = true := by
  cases haux : item.auxiliaryFilename with
  | none => simp [auxiliaryExists, auxiliaryFileURL, haux]
  | some filename =>
    have hempty : filename = "" := by
      rw [haux] at hgiven
      simpa [isGiven] using hgiven
    simp [auxiliaryExists, auxiliaryFileURL, haux, hempty]

theorem fileExists_primary (h : m.fileExists P item.kind item.filename = true) :
    isValidModelFile P m.files (fileURL P item) item.filename = true := by
  unfold fileExists at h
  split at h
  · cases h
  · exact h

theorem recorded_startDownload (hm : Recorded P C m) (hitem : item ∈ C.items) :
    Recorded P C (m.startDownload P item) ↔ (¬ m.IsFinishing item.id → P.isURL item.url = true →
      isGiven item.auxiliaryURL = false → m.fileExists P item.kind item.filename = true →
        auxiliaryExists P m.files item = true) := by
  obtain ⟨hfiles, hcallback, state, hstates, hcompleted⟩ := startDownload_spec (P := P) (m := m) item
  have hfinishing (id : ModelId) : (m.startDownload P item).IsFinishing id ↔ m.IsFinishing id := by
    rw [IsFinishing, hcallback]
    rfl
  refine (recorded_iff_of_item (m.startDownload P item) hm hitem (fun url _ => congrFun hfiles url)
    (fun id hid => by rw [hstates, Function.update_of_ne hid]) fun id _ => (hfinishing id).mpr).trans ?_
  rw [hfinishing, hstates, Function.update_self, hcompleted, hfiles, exists_iff]
  refine imp_congr_right fun _ => ?_
  constructor
  · intro h hurl hnone hprimary
    exact (h ⟨hurl, hprimary, fun hgiven => by rw [hnone] at hgiven; cases hgiven.2⟩).2
  · rintro h ⟨hurl, hprimary, haux⟩
    refine ⟨fileExists_primary hprimary, ?_⟩
    cases hgiven : isGiven item.auxiliaryFilename with
    | false => exact auxiliaryExists_of_not_given hgiven _
    | true =>
      cases hgivenURL : isGiven item.auxiliaryURL with
      | false => exact h hurl hgivenURL hprimary
      | true =>
        rw [← fileExists_auxiliary_iff hgiven]
        exact haux ⟨hgiven, hgivenURL⟩

/-- A deletion that fails at the primary file, if at all, or removes it. -/
theorem delete_primary (files : Files) (failsAuxiliary : Bool) :
    (delete P item false failsAuxiliary files).1 (fileURL P item) = none := by
  have hremove : remove files (fileURL P item) (fileURL P item) = none := Function.update_self ..
  unfold delete
  rw [Bool.and_false, if_neg Bool.false_ne_true]
  dsimp only
  split
  · exact hremove
  · rename_i auxURL _
    split
    · exact hremove
    · by_cases he : fileURL P item = auxURL
      · rw [he]
        exact Function.update_self ..
      · exact (Function.update_of_ne he _ _).trans hremove

theorem recorded_deleteDownloaded (hm : Recorded P C m) (hitem : item ∈ C.items)
    (failsPrimary failsAuxiliary : Bool) (keeps : String → Bool) :
    Recorded P C (m.deleteDownloaded P item failsPrimary failsAuxiliary keeps) ↔
      (¬ m.IsFinishing item.id → m.recordedState item.id = .completed →
        (delete P item failsPrimary failsAuxiliary m.files).2 = true → failsPrimary = true) := by
  have hfiles (url : ModelPath) (hurl : ¬ Owns P item url) :=
    delete_of_not_owns hurl failsPrimary failsAuxiliary m.files
  unfold deleteDownloaded
  dsimp only
  split
  · rename_i hthrows
    refine (recorded_iff_of_item { m with files := (delete P item failsPrimary failsAuxiliary m.files).1 } hm hitem
      hfiles (fun id _ => rfl) fun id _ h => h).trans ?_
    refine imp_congr_right fun hfree => imp_congr_right fun hcompleted => ?_
    have hexists := hm item hitem hfree hcompleted
    obtain ⟨content, hcontent, -⟩ := isValidModelFile_iff.mp (exists_iff.mp hexists).1
    cases failsPrimary with
    | true =>
      have hnothing : delete P item true failsAuxiliary m.files = (m.files, true) := by
        rw [delete, show m.files (fileURL P item) = some content from hcontent]
        rfl
      rw [hnothing]
      exact iff_of_true hexists fun _ => rfl
    | false =>
      refine iff_of_false (fun h => ?_) fun h => Bool.false_ne_true (h hthrows)
      obtain ⟨content', hcontent', -⟩ := isValidModelFile_iff.mp (exists_iff.mp h).1
      cases (delete_primary m.files failsAuxiliary).symm.trans hcontent'
  · rename_i hdone
    refine iff_of_true ?_ fun _ _ h => absurd h hdone
    have hstates : (({ m with files := (delete P item failsPrimary failsAuxiliary m.files).1 }.deleteAllResumeData
        keeps item.id).setState .notStarted item.id).recordedState =
          Function.update m.recordedState item.id .notStarted := recordedState_setState _ _
    refine (recorded_iff_of_item (({ m with files := (delete P item failsPrimary failsAuxiliary m.files).1 }
      |>.deleteAllResumeData keeps item.id).setState .notStarted item.id) hm hitem hfiles (fun id hid => ?_)
      fun id _ h => h).mpr fun _ h => ?_
    · rw [hstates, Function.update_of_ne hid]
    · rw [hstates, Function.update_self] at h
      cases h

/-- An update that runs out of its turn. -/
theorem recorded_runUpdate (hm : Recorded P C m) {i : Nat} {u : ModelId × DownloadState} (hu : m.updates[i]? = some u) :
    Recorded P C { m with updates := m.updates.eraseIdx i, states := Function.update m.states u.1 u.2 } ↔
      Sound P C m (.runUpdate i) := by
  have hrun := recordedState_runUpdate hu
  constructor
  · rintro h u' hu' item hitem hid hfree hlast -
    cases hu.symm.trans hu'
    refine h item hitem hfree ?_
    rw [hrun, if_pos hid.symm, hlast]
    rfl
  · intro h item hitem hfree hcompleted
    rw [hrun] at hcompleted
    split at hcompleted
    · rename_i hid
      cases hlast : lastUpdate (m.updates.eraseIdx i) item.id with
      | none =>
        rw [hlast] at hcompleted
        exact hm item hitem hfree hcompleted
      | some state =>
        rw [hlast] at hcompleted
        obtain rfl : state = .completed := hcompleted
        by_cases hwas : lastUpdate m.updates item.id = some .completed
        · refine hm item hitem hfree ?_
          rw [recordedState_apply, hwas]
          rfl
        · exact h u hu item hitem hid.symm hfree hlast hwas
    · exact hm item hitem hfree hcompleted

/-- The status of a response that is not an error. -/
def isAccepted (statusCode : Option Int) : Bool := statusCode.all fun code => decide (200 ≤ code ∧ code ≤ 299)

theorem didFinish_of_accepted {t : SessionTask} {statusCode : Option Int} {location : Bytes}
    {fails : Bool} (h : isAccepted statusCode = true) : m.didFinish t statusCode location fails =
      { m.setState .queued t.descriptor.id with
        callback := some ⟨t.descriptor, t.resumeData, location, .clearing⟩ } := by
  cases statusCode with
  | none => rfl
  | some code => exact if_pos (of_decide_eq_true h)

theorem didFinish_of_not_accepted {statusCode : Option Int} (h : isAccepted statusCode = false) (m : Manager)
    (t : SessionTask) (location : Bytes) (fails : Bool) : ∃ message, m.didFinish t statusCode location fails =
      ((m.setState .queued t.descriptor.id).deleteResumeData fails t.descriptor.resumeKey).setState (.failed message)
        t.descriptor.id := by
  cases statusCode with
  | none => cases h
  | some code => exact ⟨_, if_neg (of_decide_eq_false h)⟩

/-- A state that is not completed, set last. -/
theorem completed_of_setState {state : DownloadState} {id id' : ModelId} (hne : state ≠ .completed)
    (h : (m.setState state id').recordedState id = .completed) : m.recordedState id = .completed := by
  rw [recordedState_setState, Function.update_apply] at h
  split at h
  · exact absurd h hne
  · exact h

/-- The recorded states after the updates of `restorePendingTasks`. -/
theorem recordedState_restorePendingTasks (id : ModelId) (h : m.restorePendingTasks.recordedState id = .completed) :
    m.recordedState id = .completed := by
  have aux (tasks : List SessionTask) (states : ModelId → DownloadState)
      (h : (tasks.map fun t => (t.descriptor.id, DownloadState.queued)).foldl
        (fun states u => Function.update states u.1 u.2) states id = .completed) : states id = .completed := by
    induction tasks generalizing states with
    | nil => exact h
    | cons t tasks ih =>
      have := ih _ h
      dsimp only at this
      rw [Function.update_apply] at this
      split at this
      · cases this
      · exact this
  simp only [recordedState, restorePendingTasks, List.foldl_append] at h
  exact aux _ _ h

/-- A callback that starts, or is not accepted, completes nothing. -/
theorem recorded_didFinish (hm : Recorded P C m) (hnone : m.callback = none) (i : Nat) (t : SessionTask)
    (statusCode : Option Int) (location : Bytes) (fails : Bool) :
    Recorded P C ((m.dropTask i).didFinish t statusCode location fails) := by
  have hqueued (id : ModelId) (h : ((m.dropTask i).setState .queued t.descriptor.id).recordedState id = .completed) :
      m.recordedState id = .completed := completed_of_setState (m := m.dropTask i) (by simp) h
  intro item hitem _ hcompleted
  rw [didFinish_files]
  refine hm item hitem (not_isFinishing_of_none hnone item.id) ?_
  cases haccepted : isAccepted statusCode with
  | true =>
    rw [didFinish_of_accepted haccepted] at hcompleted
    exact hqueued item.id hcompleted
  | false =>
    obtain ⟨message, hfail⟩ := didFinish_of_not_accepted haccepted (m.dropTask i) t location fails
    rw [hfail] at hcompleted
    exact hqueued item.id (completed_of_setState (by simp) hcompleted)

/-- Where nothing is to be downloaded behind a file that passes for a model
file, its item is there if the file and the other one are. -/
theorem both_iff_of_ends {desc : Descriptor} (hends : Ends P desc m)
    (hdesc : makePrimaryDescriptor P item = some desc ∨ makeAuxiliaryDescriptor P item = some desc)
    (hvalid : isValidModelFile P m.files (desc.destURL P) desc.filename = true ↔
      (m.files (desc.destURL P)).isSome = true) :
    isValidModelFile P m.files (fileURL P item) item.filename = true ∧ auxiliaryExists P m.files item = true ↔
      (m.files (desc.destURL P)).isSome = true ∧ OtherIsThere P item desc m.files := by
  unfold OtherIsThere
  rcases hdesc with hprimary | hauxiliary
  · obtain ⟨-, hstage, hname, hdest, hfollowing⟩ := eq_of_makePrimaryDescriptor hprimary
    rw [hstage, ← hdest, ← hname, hvalid]
    refine and_congr_right fun _ => ⟨fun h _ => h, fun h => ?_⟩
    cases haux : followingDescriptor P desc with
    | none => exact h haux
    | some auxDesc =>
      have hexists := hends auxDesc (by rw [hstage, if_pos rfl, haux])
      rw [hfollowing] at haux
      obtain ⟨-, hkind, -, hauxname, -⟩ := eq_of_makeAuxiliaryDescriptor haux
      rw [hkind, hauxname] at hexists
      cases hgiven : isGiven item.auxiliaryFilename with
      | false => exact auxiliaryExists_of_not_given hgiven _
      | true =>
        rw [← fileExists_auxiliary_iff hgiven]
        exact hexists
  · obtain ⟨-, -, hstage, hname, hdest⟩ := eq_of_makeAuxiliaryDescriptor hauxiliary
    have haux : auxiliaryExists P m.files item = true ↔ (m.files (desc.destURL P)).isSome = true := by
      unfold auxiliaryExists
      rw [← hdest, ← hvalid, hname]
    rw [hstage, haux]
    exact and_comm

/-- The callback completes its model where all of it is there, and nowhere
else. -/
theorem recorded_following (hm : Recorded P C m) (hchecked : Checked P m) {f : Finishing} (hf : m.callback = some f)
    (hfrom : FromCatalog P C f.descriptor) (hat : f.at_ = .following) (outcome : Outcome) :
    Recorded P C (m.stepFinish P outcome f) ↔ (Ends P f.descriptor m →
      (m.files (f.descriptor.destURL P)).isSome = true ∧
        ∀ item ∈ C.items, item.id = f.descriptor.id → OtherIsThere P item f.descriptor m.files) := by
  obtain ⟨hfiles, hcallback, state, hstates, hcompleted⟩ := following_spec (P := P) hat outcome
  obtain ⟨item, hitem, hdesc⟩ := hfrom
  obtain ⟨hid, -⟩ := owns_destURL hdesc
  refine (recorded_iff_of_item (m.stepFinish P outcome f) hm hitem (fun url _ => congrFun hfiles url)
    (fun id hne => by rw [hstates, Function.update_of_ne (hid ▸ hne)])
    fun id hne h => absurd h (not_isFinishing_of_ne hf (hid ▸ hne))).trans ?_
  rw [hstates, ← hid, Function.update_self, hcompleted, hfiles, exists_iff]
  simp only [not_isFinishing_of_none hcallback, not_false_eq_true, true_imp_iff]
  refine imp_congr_right fun hends => ?_
  -- the catalog has one item of the id
  have hone : (∀ item' ∈ C.items, item'.id = f.descriptor.id → OtherIsThere P item' f.descriptor m.files) ↔
      OtherIsThere P item f.descriptor m.files := by
    refine ⟨fun h => h item hitem hid.symm, fun h item' hitem' hid' => ?_⟩
    rw [C.id_unique item' hitem' item hitem (hid'.trans hid)]
    exact h
  rw [hone]
  exact both_iff_of_ends hends hdesc (hchecked.isValidModelFile_iff hf (by rw [hat]; rfl))

/-- The other steps of the callback complete nothing. -/
theorem recorded_stepFinish (hm : Recorded P C m) {f : Finishing} (hf : m.callback = some f)
    (hfrom : FromCatalog P C f.descriptor) (hat : f.at_ ≠ .following) (outcome : Outcome) :
    Recorded P C (m.stepFinish P outcome f) := by
  obtain ⟨hfiles, hgoes⟩ := stepFinish_cases (P := P) (m := m) hat outcome
  obtain ⟨item, hitem, hdesc⟩ := hfrom
  obtain ⟨hid, howns⟩ := owns_destURL hdesc
  have hother (id : ModelId) (hne : id ≠ item.id) : ¬ m.IsFinishing id := not_isFinishing_of_ne hf (hid ▸ hne)
  have hplace (url : ModelPath) (hurl : ¬ Owns P item url) : (m.stepFinish P outcome f).files url = m.files url := by
    refine hfiles url fun he => hurl ?_
    rw [he]
    exact howns
  rcases hgoes with ⟨at_, hcallback, hstates⟩ | ⟨message, -, hstates⟩
  · refine (recorded_iff_of_item _ hm hitem hplace (fun id _ => congrFun hstates id)
      fun id hne h => absurd h (hother id hne)).mpr fun hfree => absurd ?_ hfree
    exact ⟨_, hcallback, hid⟩
  · refine (recorded_iff_of_item _ hm hitem hplace (fun id hne => ?_)
      fun id hne h => absurd h (hother id hne)).mpr fun _ hcompleted => ?_
    · rw [hstates, Function.update_of_ne (hid ▸ hne)]
    · rw [hstates, ← hid, Function.update_self] at hcompleted
      cases hcompleted

/-! ## Runs -/

variable (P C) in
/-- What every step keeps: the callback and the tasks are of the catalog, a file
that has been checked passes for a model file, and the recorded states are
right. -/
structure Right (m : Manager) : Prop where
  sourced : Sourced P C m
  checked : Checked P m
  recorded : Recorded P C m

/-- The exact condition on a step. -/
theorem Right.recorded_step_iff {a : Action} (h : Right P C m) (ha : a.isOf C = true)
    (hs : (machine P).step m a = some m') : Recorded P C m' ↔ Sound P C m a := by
  cases a with
  | startDownload item =>
    cases hs
    exact recorded_startDownload h.recorded (by simpa [Action.isOf] using ha)
  | cancelDownload modelId =>
    cases hs
    exact iff_of_true (recorded_of_quiet h.recorded rfl rfl fun _ hid => hid) trivial
  | deleteDownloaded item failsPrimary failsAuxiliary keeps =>
    cases hs
    exact recorded_deleteDownloaded h.recorded (by simpa [Action.isOf] using ha) failsPrimary failsAuxiliary keeps
  | restorePendingTasks =>
    cases hs
    exact iff_of_true (recorded_of_quiet h.recorded rfl rfl recordedState_restorePendingTasks) trivial
  | runUpdate i =>
    obtain ⟨u, hu, rfl⟩ := step_runUpdate hs
    exact recorded_runUpdate h.recorded hu
  | cancelled i resumeData fails =>
    obtain ⟨t, -, -, rfl⟩ := step_cancelled hs
    refine iff_of_true (recorded_of_quiet h.recorded (cancelled_files t resumeData fails) ?_ fun id hid => ?_) trivial
    · cases resumeData <;> rfl
    · cases resumeData <;> exact completed_of_setState (by simp) hid
  | didWriteData i written expected =>
    obtain ⟨-, t, -, rfl⟩ := step_didWriteData hs
    exact iff_of_true (recorded_of_quiet h.recorded rfl rfl fun _ => completed_of_setState (by simp)) trivial
  | didFinish i statusCode location fails =>
    obtain ⟨hnone, t, -, rfl⟩ := step_didFinish hs
    exact iff_of_true (recorded_didFinish h.recorded hnone i t statusCode location fails) trivial
  | stepFinish outcome =>
    obtain ⟨f, hf, rfl⟩ := step_stepFinish hs
    have hfrom := h.sourced.callback f hf
    have hsound : Sound P C m (.stepFinish outcome) ↔ (f.at_ = .following → Ends P f.descriptor m →
        (m.files (f.descriptor.destURL P)).isSome = true ∧
          ∀ item ∈ C.items, item.id = f.descriptor.id → OtherIsThere P item f.descriptor m.files) := by
      refine ⟨fun hsound => hsound f hf, fun hsound f' hf' => ?_⟩
      cases hf.symm.trans hf'
      exact hsound
    rw [hsound]
    by_cases hat : f.at_ = .following
    · rw [recorded_following h.recorded h.checked hf hfrom hat]
      exact ⟨fun hends _ => hends, fun hends => hends hat⟩
    · exact iff_of_true (recorded_stepFinish h.recorded hf hfrom hat outcome) fun h => absurd h hat
  | didComplete i isCancelled localizedDescription =>
    obtain ⟨-, t, -, rfl⟩ := step_didComplete hs
    refine iff_of_true (recorded_of_quiet h.recorded (didComplete_files t isCancelled localizedDescription) ?_
      fun id hid => ?_) trivial
    · cases isCancelled <;> rfl
    · cases isCancelled with
      | false => exact completed_of_setState (by simp) hid
      | true => exact hid
  | crash redelivers =>
    cases hs
    exact iff_of_true (fun item _ _ hcompleted => by cases hcompleted) trivial

/-- A sound step keeps all of it. -/
theorem Right.step {a : Action} (h : Right P C m) (hsound : Sound P C m a) (hs : (machineOf P C).step m a = some m') :
    Right P C m' := by
  obtain ⟨ha, hs⟩ := step_machineOf hs
  exact ⟨h.sourced.step ha hs, h.checked.step hs, (h.recorded_step_iff ha hs).mpr hsound⟩

/-- The manager when the app is launched for the first time, on files and
resume data that may already be there. -/
def Manager.launch (files : Files) (resumeData : String → Option Bytes) : Manager :=
  { files, resumeData, tasks := [], callback := none, states := fun _ => .notStarted, updates := [] }

theorem right_launch (files : Files) (resumeData : String → Option Bytes) :
    Right P C (Manager.launch files resumeData) where
  sourced := { tasks := fun t ht => (by cases ht), callback := fun f hf => (by cases hf) }
  checked := checked_of_none rfl
  recorded item _ _ h := by cases h

/-- For every order of the calls, the callbacks' operations, the updates and
crashes: a model that is recorded as completed exists at all times, if and only
if every step is sound; and then so does every model that is shown as completed
when nothing is under way. -/
theorem recorded_iff (files : Files) (resumeData : String → Option Bytes) (as : List Action) :
    ((machineOf P C).Always (Recorded P C) (Manager.launch files resumeData) as ↔
      (machineOf P C).Meets (Sound P C) (Manager.launch files resumeData) as) ∧
    ((machineOf P C).Meets (Sound P C) (Manager.launch files resumeData) as →
      (machineOf P C).Always (Shown P C) (Manager.launch files resumeData) as) := by
  have hiff : (machineOf P C).Always (Recorded P C) (Manager.launch files resumeData) as ↔
      (machineOf P C).Meets (Sound P C) (Manager.launch files resumeData) as :=
    Machine.always_iff_meets (fun _ h => h.recorded) (fun _ _ _ h hsound hs => h.step hsound hs)
      (fun _ _ _ h hs hrecorded => (h.recorded_step_iff (step_machineOf hs).1 (step_machineOf hs).2).mp hrecorded)
      (right_launch files resumeData) as
  exact ⟨hiff, fun hsound => (hiff.mpr hsound).mono fun _ => Recorded.shown⟩

/-- A model of the catalog, with a projector. -/
def visionItem : ModelCatalogItem :=
  { id := "qwen3-vl-2b-instruct-q4-k-m", kind := .vl, name := "Qwen3-VL 2B Instruct",
    filename := "Qwen3VL-2B-Instruct-Q4_K_M.gguf",
    auxiliaryFilename := some "mmproj-Qwen3VL-2B-Instruct-Q8_0.gguf",
    auxiliaryURL := some
      "https://huggingface.co/Qwen/Qwen3-VL-2B-Instruct-GGUF/resolve/main/mmproj-Qwen3VL-2B-Instruct-Q8_0.gguf?download=true",
    auxiliarySha256 := none,
    url :=
      "https://huggingface.co/Qwen/Qwen3-VL-2B-Instruct-GGUF/resolve/main/Qwen3VL-2B-Instruct-Q4_K_M.gguf?download=true",
    sha256 := none }

def visionCatalog : Catalog digests where
  items := [visionItem]
  id_unique _ h _ h' _ := (List.mem_singleton.mp h).trans (List.mem_singleton.mp h').symm
  disjoint _ h _ h' hne := absurd ((List.mem_singleton.mp h).trans (List.mem_singleton.mp h').symm) hne

/-- The callback for the first file of the session, operation by operation;
nothing fails. -/
def takesOver (operations : Nat) : List Action :=
  .didFinish 0 (some 200) (smallModel 3) false :: List.replicate operations (.stepFinish ⟨false, ""⟩)

/-- The model is downloaded, and deleted while its projector is on its way; all
updates run in their turn. -/
def deletedWhileFollowing : List Action :=
  .startDownload visionItem :: takesOver 6 ++ .deleteDownloaded visionItem false false (fun _ => false) ::
    takesOver 6 ++ List.replicate 6 (.runUpdate 0)

/-- The model is shown as completed when its projector has arrived, and does not
exist. -/
theorem not_shown_deletedWhileFollowing :
    ¬ (machineOf digests visionCatalog).Always (Shown digests visionCatalog)
      (Manager.launch (fun _ => none) fun _ => none) deletedWhileFollowing :=
  Machine.not_always_of_run (by decide +kernel)

-- nor where it is deleted while the callback for its projector is under way
example : ¬ (machineOf digests visionCatalog).Always (Shown digests visionCatalog)
    (Manager.launch (fun _ => none) fun _ => none)
    (.startDownload visionItem :: takesOver 6 ++ takesOver 5 ++
      .deleteDownloaded visionItem false false (fun _ => false) :: .stepFinish ⟨false, ""⟩ ::
        List.replicate 6 (.runUpdate 0)) :=
  Machine.not_always_of_run (by decide +kernel)

end SynapsNotes.Downloads
