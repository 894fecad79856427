import SynapsNotes.Downloads.Genuine

/-!
# Where downloads come from

The files of a catalog item, and the tasks of the session: each downloads a
file of an item of the catalog, in which no two items share a file, as long as
the calls of the manager are made with items of it (`Sourced.step`).
-/

namespace SynapsNotes.Downloads

open Framework ModelStorage Manager

/-! ## The files of an item -/

/-- The files `ModelStorage` looks for and deletes for an item. -/
def Owns (P : Platform) (item : ModelCatalogItem) (url : ModelPath) : Prop :=
  url = fileURL P item ∨ some url = auxiliaryFileURL P item

instance (P : Platform) (item : ModelCatalogItem) (url : ModelPath) : Decidable (Owns P item url) :=
  inferInstanceAs (Decidable (_ ∨ _))

theorem auxiliaryExists_congr {P : Platform} {item : ModelCatalogItem} {files files' : Files}
    (h : ∀ url, some url = auxiliaryFileURL P item → files' url = files url) :
    auxiliaryExists P files' item = auxiliaryExists P files item := by
  unfold auxiliaryExists
  split
  · rfl
  · rename_i auxURL haux
    unfold isValidModelFile
    rw [h auxURL haux.symm]

/-- Whether an item exists is a matter of its own files. -/
theorem exists_congr {P : Platform} {item : ModelCatalogItem} {files files' : Files}
    (h : ∀ url, Owns P item url → files' url = files url) : exists_ P files' item = exists_ P files item := by
  unfold exists_ isValidModelFile
  rw [h _ (Or.inl rfl), auxiliaryExists_congr fun url hurl => h url (Or.inr hurl)]

/-- Deleting an item leaves the files that are not its own. -/
theorem delete_of_not_owns {P : Platform} {item : ModelCatalogItem} {url : ModelPath} (h : ¬ Owns P item url)
    (failsPrimary failsAuxiliary : Bool) (files : Files) :
    (delete P item failsPrimary failsAuxiliary files).1 url = files url := by
  obtain ⟨hprimary, hauxiliary⟩ := not_or.mp h
  unfold delete
  split
  · rfl
  dsimp only
  split
  · exact Function.update_of_ne hprimary _ _
  · rename_i auxURL haux
    have hne : url ≠ auxURL := fun he => hauxiliary (by rw [he, haux])
    split
    · exact Function.update_of_ne hprimary _ _
    · exact (Function.update_of_ne hne _ _).trans (Function.update_of_ne hprimary _ _)

/-- The items that downloads are made of: an id names one item, and no two
items share a file. -/
structure Catalog (P : Platform) where
  items : List ModelCatalogItem
  id_unique : ∀ item ∈ items, ∀ item' ∈ items, item.id = item'.id → item = item'
  disjoint : ∀ item ∈ items, ∀ item' ∈ items, item ≠ item' → ∀ url, Owns P item url → ¬ Owns P item' url

/-! ## Descriptors -/

section Descriptors

variable {P : Platform} {item : ModelCatalogItem} {desc : Descriptor}

theorem eq_of_makePrimaryDescriptor (h : makePrimaryDescriptor P item = some desc) :
    desc.id = item.id ∧ desc.stage = .primary ∧ desc.filename = item.filename ∧ (desc.destURL P) = fileURL P item ∧
      followingDescriptor P desc = makeAuxiliaryDescriptor P item := by
  unfold makePrimaryDescriptor at h
  split at h
  · cases h
  · cases h
    exact ⟨rfl, rfl, rfl, rfl, rfl⟩

theorem eq_of_makeAuxiliaryDescriptor (h : makeAuxiliaryDescriptor P item = some desc) :
    desc.id = item.id ∧ desc.kind = item.kind ∧ desc.stage = .auxiliary ∧
      desc.filename = item.auxiliaryFilename.getD "" ∧ some (desc.destURL P) = auxiliaryFileURL P item := by
  unfold makeAuxiliaryDescriptor auxiliaryDescriptor at h
  split at h
  · rename_i filename url hfilename hurl
    split at h
    · cases h
    · rename_i hgiven
      cases h
      have hne : filename ≠ "" := fun he => hgiven (by simp [he])
      refine ⟨rfl, rfl, rfl, by rw [hfilename]; rfl, ?_⟩
      unfold auxiliaryFileURL
      rw [hfilename]
      exact (if_neg hne).symm
  · cases h

/-- Both descriptors of an item go by its id, and lead to a file of it. -/
theorem owns_destURL (h : makePrimaryDescriptor P item = some desc ∨ makeAuxiliaryDescriptor P item = some desc) :
    desc.id = item.id ∧ Owns P item (desc.destURL P) := by
  rcases h with hprimary | hauxiliary
  · obtain ⟨hid, -, -, hdest, -⟩ := eq_of_makePrimaryDescriptor hprimary
    exact ⟨hid, Or.inl hdest⟩
  · obtain ⟨hid, -, -, -, hdest⟩ := eq_of_makeAuxiliaryDescriptor hauxiliary
    exact ⟨hid, Or.inr hdest⟩

/-- The descriptor is one of the two of an item of the catalog. -/
def FromCatalog (P : Platform) (C : Catalog P) (desc : Descriptor) : Prop :=
  ∃ item ∈ C.items, makePrimaryDescriptor P item = some desc ∨ makeAuxiliaryDescriptor P item = some desc

variable {C : Catalog P}

theorem FromCatalog.following {auxDesc : Descriptor} (h : FromCatalog P C desc)
    (haux : (if desc.stage = .primary then followingDescriptor P desc else none) = some auxDesc) :
    FromCatalog P C auxDesc := by
  obtain ⟨hstage, haux⟩ := Option.ite_none_right_eq_some.mp haux
  obtain ⟨item, hitem, hprimary | hauxiliary⟩ := h
  · obtain ⟨-, -, -, -, hfollowing⟩ := eq_of_makePrimaryDescriptor hprimary
    rw [hfollowing] at haux
    exact ⟨item, hitem, Or.inr haux⟩
  · obtain ⟨-, -, hstage', -⟩ := eq_of_makeAuxiliaryDescriptor hauxiliary
    rw [hstage'] at hstage
    cases hstage

end Descriptors

/-! ## Calls with items of the catalog -/

def Action.isOf {P : Platform} (C : Catalog P) : Action → Bool
  | .startDownload item | .deleteDownloaded item _ _ _ => decide (item ∈ C.items)
  | _ => true

/-- The manager, with calls for items of the catalog only. -/
def machineOf (P : Platform) (C : Catalog P) : Machine Manager Action where
  step m a := if a.isOf C then (machine P).step m a else none

theorem step_machineOf {P : Platform} {C : Catalog P} {m m' : Manager} {a : Action}
    (h : (machineOf P C).step m a = some m') : a.isOf C = true ∧ (machine P).step m a = some m' :=
  Option.ite_none_right_eq_some.mp h

/-! ## Where the tasks come from -/

section Sourced

variable {P : Platform} {C : Catalog P} {m m' : Manager} {item : ModelCatalogItem}

variable (P) (C) in
/-- The session downloads files of the catalog's items. -/
structure Sourced (m : Manager) : Prop where
  tasks : ∀ t ∈ m.tasks, FromCatalog P C t.descriptor
  callback : ∀ f ∈ m.callback, FromCatalog P C f.descriptor

theorem Sourced.congr (h : Sourced P C m) (htasks : ∀ t ∈ m'.tasks, ∃ t' ∈ m.tasks, t'.descriptor = t.descriptor)
    (hcallback : ∀ f ∈ m'.callback, ∃ f' ∈ m.callback, f'.descriptor = f.descriptor) : Sourced P C m' where
  tasks t ht := by
    obtain ⟨t', ht', he⟩ := htasks t ht
    exact he ▸ h.tasks t' ht'
  callback f hf := by
    obtain ⟨f', hf', he⟩ := hcallback f hf
    exact he ▸ h.callback f' hf'

/-- What neither starts a task nor a callback. -/
theorem Sourced.of_subset (h : Sourced P C m) (htasks : m'.tasks ⊆ m.tasks)
    (hcallback : m'.callback = m.callback ∨ m'.callback = none) : Sourced P C m' := by
  refine h.congr (fun t ht => ⟨t, htasks ht, rfl⟩) fun f hf => ?_
  rcases hcallback with he | he
  · exact ⟨f, he ▸ hf, rfl⟩
  · rw [he] at hf
    cases hf

theorem Sourced.enqueueDownload {desc : Descriptor} (h : Sourced P C m) (hdesc : FromCatalog P C desc) :
    Sourced P C (m.enqueueDownload P desc) := by
  unfold Manager.enqueueDownload
  split
  · exact h.of_subset (List.Subset.refl _) (Or.inl rfl)
  · refine ⟨fun t ht => ?_, h.callback⟩
    rcases List.mem_append.mp ht with ht | ht
    · exact h.tasks t ht
    · rw [List.mem_singleton.mp ht]
      exact hdesc

theorem Sourced.startDownload (h : Sourced P C m) (hitem : item ∈ C.items) : Sourced P C (m.startDownload P item) := by
  obtain ⟨updates, he⟩ | ⟨desc, hdesc, he⟩ := startDownload_cases (P := P) (m := m) item
  · rw [he]
    exact h.of_subset (List.Subset.refl _) (Or.inl rfl)
  · rw [he]
    exact Sourced.enqueueDownload (h.of_subset (List.Subset.refl _) (Or.inl rfl)) ⟨item, hitem, hdesc⟩

theorem Sourced.stepFinish {outcome : Outcome} {f : Finishing} (h : Sourced P C m) (hf : m.callback = some f) :
    Sourced P C (m.stepFinish P outcome f) := by
  have hdesc := h.callback f hf
  have hends (m₁ : Manager) (htasks : m₁.tasks = m.tasks) (hcallback : m₁.callback = none) : Sourced P C m₁ :=
    h.of_subset (htasks ▸ List.Subset.refl _) (Or.inr hcallback)
  have hgoes (m₁ : Manager) (at_ : FinishPoint) (htasks : m₁.tasks = m.tasks) : Sourced P C (m₁.continue_ f at_) := by
    refine ⟨fun t ht => h.tasks t (htasks ▸ ht), fun f' hf' => ?_⟩
    cases hf'
    exact hdesc
  unfold Manager.stepFinish
  split <;> dsimp only
  · split
    · exact hends _ rfl rfl
    · exact hgoes _ _ rfl
  · split
    · exact hends _ rfl rfl
    · exact hgoes _ _ rfl
  · split <;> exact hgoes _ _ rfl
  · split <;> exact hgoes _ _ rfl
  · exact hends _ rfl rfl
  · exact hgoes _ _ rfl
  · split
    · rename_i auxDesc haux
      split
      · exact hends _ rfl rfl
      · exact Sourced.enqueueDownload (hends _ rfl rfl) (hdesc.following haux)
    · exact hends _ rfl rfl

theorem Sourced.didFinish {t : SessionTask} {statusCode : Option Int} {location : Bytes} {fails : Bool}
    (h : Sourced P C m) (hdesc : FromCatalog P C t.descriptor) :
    Sourced P C (m.didFinish t statusCode location fails) := by
  have hbegins : Sourced P C { m with callback := some ⟨t.descriptor, t.resumeData, location, .clearing⟩ } := by
    refine ⟨h.tasks, fun f hf => ?_⟩
    cases hf
    exact hdesc
  unfold Manager.didFinish
  dsimp only
  split
  · split
    · exact hbegins.of_subset (List.Subset.refl _) (Or.inl rfl)
    · exact h.of_subset (List.Subset.refl _) (Or.inl rfl)
  · exact hbegins.of_subset (List.Subset.refl _) (Or.inl rfl)

theorem Sourced.dropTask (h : Sourced P C m) (i : Nat) : Sourced P C (m.dropTask i) :=
  h.of_subset List.eraseIdx_subset (Or.inl rfl)

/-- A step of the manager keeps its tasks to the catalog. -/
theorem Sourced.step {a : Action} (h : Sourced P C m) (ha : a.isOf C = true) (hs : (machine P).step m a = some m') :
    Sourced P C m' := by
  cases a with
  | startDownload item =>
    cases hs
    exact h.startDownload (by simpa [Action.isOf] using ha)
  | cancelDownload modelId =>
    cases hs
    refine h.congr (fun t ht => ?_) fun f hf => ⟨f, hf, rfl⟩
    obtain ⟨t', ht', rfl⟩ := List.mem_map.mp ht
    refine ⟨t', ht', ?_⟩
    split <;> rfl
  | deleteDownloaded item failsPrimary failsAuxiliary keeps =>
    cases hs
    unfold deleteDownloaded
    dsimp only
    split <;> exact h.of_subset (List.Subset.refl _) (Or.inl rfl)
  | restorePendingTasks =>
    cases hs
    exact h.of_subset (List.Subset.refl _) (Or.inl rfl)
  | runUpdate i =>
    obtain ⟨u, -, rfl⟩ := step_runUpdate hs
    exact h.of_subset (List.Subset.refl _) (Or.inl rfl)
  | cancelled i resumeData fails =>
    obtain ⟨t, -, -, rfl⟩ := step_cancelled hs
    cases resumeData <;> exact (h.dropTask i).of_subset (List.Subset.refl _) (Or.inl rfl)
  | didWriteData i written expected =>
    obtain ⟨-, t, -, rfl⟩ := step_didWriteData hs
    exact h.of_subset (List.Subset.refl _) (Or.inl rfl)
  | didFinish i statusCode location fails =>
    obtain ⟨-, t, ht, rfl⟩ := step_didFinish hs
    exact (h.dropTask i).didFinish (h.tasks t (List.mem_of_getElem? ht))
  | stepFinish outcome =>
    obtain ⟨f, hf, rfl⟩ := step_stepFinish hs
    exact h.stepFinish hf
  | didComplete i isCancelled localizedDescription =>
    obtain ⟨-, t, -, rfl⟩ := step_didComplete hs
    unfold didComplete
    split <;> exact (h.dropTask i).of_subset (List.Subset.refl _) (Or.inl rfl)
  | crash redelivers =>
    cases hs
    refine ⟨fun t ht => ?_, fun f hf => by cases hf⟩
    have htasks : t ∈ m.tasks ∨ ∃ f ∈ m.callback, t.descriptor = f.descriptor := by
      unfold Manager.crash at ht
      dsimp only at ht
      split at ht
      · rename_i f hf
        split at ht
        · rcases List.mem_append.mp ht with ht | ht
          · exact Or.inl ht
          · rw [List.mem_singleton.mp ht]
            exact Or.inr ⟨f, hf, rfl⟩
        · exact Or.inl ht
      · exact Or.inl ht
    rcases htasks with ht | ⟨f, hf, he⟩
    · exact h.tasks t ht
    · rw [he]
      exact h.callback f hf

end Sourced

end SynapsNotes.Downloads
