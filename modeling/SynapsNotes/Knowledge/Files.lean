import SynapsNotes.Framework.Deposits
import SynapsNotes.Knowledge.Library

/-!
# Files and documents

The directory and the store are `Deposits`: a file is stored before its
document is inserted, and both go when the document is deleted. Each step is
an operation on them or leaves them as they are (`step_deposits`), so that in
a library at rest every file belongs to one document exactly if no import has
failed behind the storing of its file and no file has stayed that was to be
removed (`filesRecorded_iff`).
-/

namespace SynapsNotes.Knowledge

open Framework

/-- The name of the stored file whose document is still to be inserted. -/
def Stage.pendingName : Stage → Option String
  | .extracting stored _ _ => some stored.relativePath
  | .persisting ingested _ => some ingested.relativePath
  | _ => none

namespace Library

variable {E : Type} {S : Services} {s s' t : Library E} {a : Action E}

def deposits (s : Library E) : Deposits String where
  files := s.files
  records := s.store.documents.map KnowledgeDocument.localRelativePath
  pending := s.task.bind Stage.pendingName

/-- Each file is that of exactly one document. -/
def FilesRecorded (s : Library E) : Prop :=
  ∀ name ∈ s.files, ∃! document, document ∈ s.store.documents ∧ document.localRelativePath = name

/-- A stored file gives its text, and the file of a deleted document is
removed if it is there. -/
def keeps (S : Services) (s : Library E) : Action E → Bool
  | .resume answer =>
    match s.task, answer with
    | some (.extracting stored source queue), .extracted file =>
      (ingestSource S ⟨true, queue.preferOCRModel⟩ stored file source).isOk
    | _, _ => true
  | .deleteKnowledgeDocument document removed => removed || document.localRelativePath ∉ s.files
  | _ => true

/-- The import of the file at hand fails. -/
def fails (S : Services) (s : Library E) : Action E → Bool
  | .resume answer =>
    match s.task, answer with
    | some (.downloading _ _ _), .downloaded (.error _) => true
    | some (.storing _ _), .copied (.error _) => true
    | some (.extracting stored source queue), .extracted file =>
      !(ingestSource S ⟨true, queue.preferOCRModel⟩ stored file source).isOk
    | _, _ => false
  | _ => false

/-- An import that fails has inserted no document. -/
def NoRecordOfFailure (S : Services) (s : Library E) (a : Action E) (s' : Library E) : Prop :=
  fails S s a = true → s'.store.documents = s.store.documents ∧
    ∀ name ∈ s.deposits.pending, ∀ document ∈ s'.store.documents, document.localRelativePath ≠ name

/-! ## Steps as operations -/

/-- What a step does to the files and documents, if anything. -/
def operation (S : Services) (s : Library E) : Action E → Option (Deposits.Op String)
  | .resume answer =>
    match s.task, answer with
    | some (.storing source _), .copied (.ok _) => some (.put (storeSource S s.nextId source).relativePath)
    | some (.extracting stored source queue), .extracted file =>
      match ingestSource S ⟨true, queue.preferOCRModel⟩ stored file source with
      | .ok _ => none
      | .error _ => some .abandon
    | some (.persisting _ _), .returned _ => some .record
    | _, _ => none
  | .deleteKnowledgeDocument document removed => some (.drop document.localRelativePath removed)
  | _ => none

theorem nextSource_deposits (queue : ImportQueue) : (s.nextSource queue).deposits = s.deposits.apply .abandon := by
  rw [nextSource]
  split
  · rfl
  · split <;> rfl

theorem begin_deposits (request : KnowledgeImport) (preferOCRModel : Bool) :
    (s.begin S request preferOCRModel).deposits = s.deposits.apply .abandon := by
  cases request with
  | files urls sourceType driveFileId => exact nextSource_deposits _
  | imageData data suggestedName => exact nextSource_deposits _
  | driveFile file => rfl

/-- No chunk is a file or a document. -/
theorem insertChunks_deposits (now : Date) (document : KnowledgeDocument) (queue : ImportQueue) (s : Library E)
    (index : ℕ) (chunks : List ChunkedTextUnit) :
    (insertChunks S now document queue s index chunks).deposits = s.deposits.apply .abandon := by
  induction chunks generalizing s index with
  | nil => exact nextSource_deposits queue
  | cons chunkData chunks ih =>
    simp only [insertChunks]
    split
    · rfl
    · exact ih _ (index + 1)

/-- An answer that the task waits for. -/
theorem resume_deposits {stage : Stage} {answer : Answer E} (htask : s.task = some stage)
    (h : s.resume S stage answer = some s') :
    s'.deposits = (operation S s (.resume answer)).elim s.deposits s.deposits.apply := by
  have hpending : s.deposits.pending = stage.pendingName := by rw [deposits, htask, Option.bind_some]
  -- Where no file waits for its document, to give it up changes nothing.
  have hrest (hstage : stage.pendingName = none) (hs' : s'.deposits = s.deposits.apply .abandon) :
      s'.deposits = s.deposits := hs'.trans (Deposits.apply_abandon (hpending.trans hstage))
  cases resume_cases h with
  | prepare => simpa only [operation, htask, Option.elim_none] using hrest rfl rfl
  | start => simpa only [operation, htask, Option.elim_none] using hrest rfl (begin_deposits _ false)
  | refused => simpa only [operation, htask, Option.elim_none] using hrest rfl rfl
  | prepared => simpa only [operation, htask, Option.elim_none] using hrest rfl (begin_deposits _ _)
  | downloaded => simpa only [operation, htask, Option.elim_none] using hrest rfl (nextSource_deposits _)
  | notDownloaded => simpa only [operation, htask, Option.elim_none] using hrest rfl (nextSource_deposits _)
  | stored =>
    simp only [operation, htask, Option.elim_some]
    rfl
  | notStored => simpa only [operation, htask, Option.elim_none] using hrest rfl (nextSource_deposits _)
  | extracted hi =>
    simp only [operation, htask, hi, Option.elim_none]
    have hname := relativePath_of_ingestSource hi
    simp only [deposits, htask, Option.bind_some, Stage.pendingName, hname]
  | notExtracted hi =>
    simp only [operation, htask, hi, Option.elim_some]
    exact nextSource_deposits _
  | persisted =>
    simp only [operation, htask, Option.elim_some]
    rw [insertChunks_deposits, Deposits.apply, Deposits.apply, hpending]
    simp [deposits, insertDocument, newDocument, Stage.pendingName]
  | indexed => simpa only [operation, htask, Option.elim_none] using hrest rfl (insertChunks_deposits _ _ _ _ _ _)
  | notIndexed => simpa only [operation, htask, Option.elim_none] using hrest rfl (insertChunks_deposits _ _ _ s _ _)
  | finished => simpa only [operation, htask, Option.elim_none] using hrest rfl rfl

/-- A deletion drops the record of a document. -/
theorem deleteKnowledgeDocument_deposits {document : KnowledgeDocument} {removed : Bool}
    (hnodup : s.deposits.records.Nodup) (hmem : document ∈ s.store.documents) :
    (s.deleteKnowledgeDocument document removed).deposits =
      s.deposits.apply (.drop document.localRelativePath removed) := by
  simp only [deposits, deleteKnowledgeDocument, Deposits.apply, List.filter_map]
  congr 2
  refine List.filter_congr fun other hother => ?_
  have hinj := List.inj_on_of_nodup_map hnodup hother hmem
  simpa using ⟨fun heq => heq ▸ rfl, fun hpath => hinj hpath⟩

/-- The names of files have been given out. -/
def Issued (S : Services) (s : Library E) (name : String) : Prop := ∃ id < s.nextId, ∃ ext, name = fileName S id ext

/-- What every step keeps. -/
structure Accounted (S : Services) (s : Library E) : Prop where
  wellKept : s.deposits.WellKept
  file_issued : ∀ name ∈ s.files, Issued S s name
  record_issued : ∀ name ∈ s.deposits.records, Issued S s name
  busy : s.isImportingKnowledge = s.task.isSome

theorem Issued.mono (hle : s.nextId ≤ s'.nextId) {name : String} (h : Issued S s name) : Issued S s' name := by
  obtain ⟨id, hid, ext, rfl⟩ := h
  exact ⟨id, hid.trans_le hle, ext, rfl⟩

/-- The name a source is stored under. -/
theorem storeSource_relativePath (id : UUID) (source : ImportSource) :
    ∃ ext, (storeSource S id source).relativePath = fileName S id ext := by
  cases source with
  | file sourceURL sourceType driveFileId preferredTitle => exact ⟨_, rfl⟩
  | image suggestedName => exact ⟨_, rfl⟩

/-- It is a new one. -/
theorem not_issued_storeSource (source : ImportSource) :
    ¬ Issued S s (storeSource S s.nextId source).relativePath := by
  rintro ⟨id, hid, ext, heq⟩
  obtain ⟨ext', hname⟩ := storeSource_relativePath (S := S) s.nextId source
  exact absurd (id_of_fileName (hname.symm.trans heq)) hid.ne'

theorem step_deposits (hs : Accounted S s) (h : s.step S a = some s') :
    s'.deposits = (operation S s a).elim s.deposits s.deposits.apply := by
  cases a with
  | importKnowledge request =>
    obtain rfl := Option.some.inj h
    rw [importKnowledge]
    split
    · rename_i hgiven
      rw [Bool.and_eq_true, Bool.not_eq_true', hs.busy] at hgiven
      have htask : s.task = none := Option.isSome_eq_false_iff.mp hgiven.2 |> Option.isNone_iff_eq_none.mp
      simp [operation, deposits, htask, Stage.pendingName]
    · rfl
  | resume answer =>
    obtain ⟨stage, htask, h⟩ := Option.bind_eq_some_iff.mp h
    exact resume_deposits htask h
  | deleteKnowledgeDocument document removed =>
    obtain ⟨hmem, h⟩ := Option.ite_none_right_eq_some.mp h
    obtain rfl := Option.some.inj h
    exact deleteKnowledgeDocument_deposits hs.wellKept.nodup hmem
  | setUseModelOCRForImports value =>
    obtain rfl := Option.some.inj h
    rfl
  | setEmbeddingModel isLoaded currentId =>
    obtain rfl := Option.some.inj h
    rfl

theorem operation_allowed (hs : Accounted S s) (h : s.step S a = some s') :
    ∀ op ∈ operation S s a, s.deposits.Allowed op := by
  intro op hop
  cases a with
  | resume answer =>
    simp only [operation] at hop
    split at hop
    · rename_i source queue done htask
      obtain rfl := Option.some.inj hop
      have hnew := not_issued_storeSource (S := S) (s := s) source
      exact ⟨by rw [deposits, htask]; rfl, mt (hs.file_issued _) hnew, mt (hs.record_issued _) hnew⟩
    · split at hop
      · exact nomatch hop
      · obtain rfl := Option.some.inj hop
        trivial
    · obtain rfl := Option.some.inj hop
      trivial
    · exact nomatch hop
  | deleteKnowledgeDocument document removed =>
    obtain ⟨hmem, -⟩ := Option.ite_none_right_eq_some.mp h
    obtain rfl := Option.some.inj hop
    exact List.mem_map_of_mem hmem
  | importKnowledge request => exact nomatch hop
  | setUseModelOCRForImports value => exact nomatch hop
  | setEmbeddingModel isLoaded currentId => exact nomatch hop

/-- A file that is stored has been given its name. -/
theorem issued_of_put {name : String} (h : s.step S a = some s') (hop : operation S s a = some (.put name)) :
    Issued S s' name := by
  cases a with
  | resume answer =>
    obtain ⟨stage, hstage, h⟩ := Option.bind_eq_some_iff.mp h
    simp only [operation] at hop
    split at hop
    · rename_i source queue done htask _
      obtain rfl := Option.some.inj (htask.symm.trans hstage)
      obtain rfl := Option.some.inj h
      obtain ⟨ext, hname⟩ := storeSource_relativePath (S := S) s.nextId source
      exact ⟨s.nextId, Nat.lt_succ_self _, ext, by rw [← hname]; simpa using hop.symm⟩
    · split at hop <;> exact nomatch hop
    · exact nomatch hop
    · exact nomatch hop
  | deleteKnowledgeDocument document removed => exact nomatch hop
  | importKnowledge request => exact nomatch hop
  | setUseModelOCRForImports value => exact nomatch hop
  | setEmbeddingModel isLoaded currentId => exact nomatch hop

theorem accounted_step (hs : Accounted S s) (h : s.step S a = some s') : Accounted S s' := by
  have hdeposits := step_deposits hs h
  have hallowed := operation_allowed hs h
  have hid := step_nextId_le h
  cases hop : operation S s a with
  | none =>
    rw [hop] at hdeposits
    have hfiles : s'.files = s.files := congrArg Deposits.files hdeposits
    refine ⟨hdeposits ▸ hs.wellKept, fun name hname => ?_, fun name hname => ?_, step_busy hs.busy h⟩
    · exact (hs.file_issued name (hfiles ▸ hname)).mono hid
    · rw [hdeposits] at hname
      exact (hs.record_issued name hname).mono hid
  | some op =>
    rw [hop, Option.elim_some] at hdeposits
    refine ⟨hdeposits ▸ hs.wellKept.apply (hallowed op hop), fun name hname => ?_, fun name hname => ?_,
      step_busy hs.busy h⟩
    · have hname' : name ∈ (s.deposits.apply op).files := hdeposits ▸ hname
      rcases Deposits.mem_files_apply hname' with hold | rfl
      · exact (hs.file_issued name hold).mono hid
      · exact issued_of_put h hop
    · rw [hdeposits] at hname
      rcases Deposits.mem_records_apply hname with hold | hpending
      · exact (hs.record_issued name hold).mono hid
      · exact (hs.file_issued name (hs.wellKept.pending_mem name hpending)).mono hid

/-- The condition on a step says that it loses no file. -/
theorem keeps_iff : keeps S s a = true ↔ ∀ op ∈ operation S s a, s.deposits.Lossless op := by
  cases a with
  | resume answer =>
    simp only [keeps, operation]
    split
    · rename_i stored source queue file htask
      have hpending : s.deposits.pending ≠ none := by simp [deposits, htask, Stage.pendingName]
      rw [htask]
      cases hi : ingestSource S ⟨true, queue.preferOCRModel⟩ stored file source with
      | ok ingested => simp [hi, Except.isOk, Except.toBool]
      | error e => simpa [hi, Except.isOk, Except.toBool, Deposits.Lossless] using hpending
    · rename_i hother
      refine iff_of_true rfl fun op hop => ?_
      split at hop
      · obtain rfl := Option.some.inj hop
        trivial
      · rename_i htask
        exact (hother _ _ _ _ htask rfl).elim
      · obtain rfl := Option.some.inj hop
        trivial
      · cases hop
  | deleteKnowledgeDocument document removed =>
    simp [keeps, operation, Deposits.Lossless, deposits]
  | importKnowledge request => simp [keeps, operation]
  | setUseModelOCRForImports value => simp [keeps, operation]
  | setEmbeddingModel isLoaded currentId => simp [keeps, operation]

/-- A step leaves a file without a document to come exactly if it fails to
keep one. -/
theorem claimed_step_iff (hs : Accounted S s) (h : s.step S a = some s') :
    s'.deposits.Claimed ↔ s.deposits.Claimed ∧ keeps S s a = true := by
  have hallowed := operation_allowed hs h
  rw [step_deposits hs h, keeps_iff]
  cases hop : operation S s a with
  | none => simp
  | some op =>
    rw [Option.elim_some, Deposits.claimed_apply_iff hs.wellKept (hallowed op hop)]
    simp

theorem noRecordOfFailure_step (hs : Accounted S s) (h : s.step S a = some s') : NoRecordOfFailure S s a s' := by
  intro hfails
  have hsame : s'.store = s.store := by
    cases a with
    | resume answer =>
      obtain ⟨stage, hstage, h⟩ := Option.bind_eq_some_iff.mp h
      simp only [fails] at hfails
      split at hfails
      · rename_i htask _
        obtain rfl := Option.some.inj (htask.symm.trans hstage)
        obtain rfl := Option.some.inj h
        exact nextSource_store _
      · rename_i htask _
        obtain rfl := Option.some.inj (htask.symm.trans hstage)
        obtain rfl := Option.some.inj h
        exact nextSource_store _
      · rename_i stored source queue file htask _
        obtain rfl := Option.some.inj (htask.symm.trans hstage)
        obtain rfl := Option.some.inj h
        cases hi : ingestSource S ⟨true, queue.preferOCRModel⟩ stored file source with
        | ok ingested => simp [hi, Except.isOk, Except.toBool] at hfails
        | error e => exact nextSource_store queue
      · exact nomatch hfails
    | deleteKnowledgeDocument document removed => exact nomatch hfails
    | importKnowledge request => exact nomatch hfails
    | setUseModelOCRForImports value => exact nomatch hfails
    | setEmbeddingModel isLoaded currentId => exact nomatch hfails
  refine ⟨congrArg Store.documents hsame, fun name hname document hdocument heq => ?_⟩
  rw [hsame] at hdocument
  exact hs.wellKept.pending_notMem name hname (List.mem_map.mpr ⟨document, hdocument, heq⟩)

/-! ## Runs -/

/-- A library at rest whose files are all recorded. -/
structure Clean (S : Services) (s : Library E) : Prop where
  isImportingKnowledge : s.isImportingKnowledge = false
  task : s.task = none
  recorded : FilesRecorded s
  nodup : s.deposits.records.Nodup
  file_issued : ∀ name ∈ s.files, Issued S s name
  record_issued : ∀ name ∈ s.deposits.records, Issued S s name

/-- Where no import is in progress, no file waits for its document. -/
theorem filesRecorded_iff_claimed (hs : Accounted S s) (hidle : s.isImportingKnowledge = false) :
    FilesRecorded s ↔ s.deposits.Claimed := by
  have htask : s.task = none := by
    rw [hs.busy] at hidle
    exact Option.isNone_iff_eq_none.mp (Option.isSome_eq_false_iff.mp hidle)
  have hnone : s.deposits.pending = none := by rw [deposits, htask, Option.bind_none]
  refine forall₂_congr fun name _ => ?_
  rw [hnone, or_iff_left (Option.not_mem_none name), deposits, List.mem_map]
  refine ⟨fun ⟨document, hdocument, _⟩ => ⟨document, hdocument⟩, fun ⟨document, hmem, hname⟩ => ?_⟩
  refine ⟨document, ⟨hmem, hname⟩, fun other ⟨hother, hname'⟩ => ?_⟩
  exact List.inj_on_of_nodup_map hs.wellKept.nodup hother hmem (hname'.trans hname.symm)

theorem Clean.accounted (h : Clean S s) : Accounted S s where
  wellKept := by
    have hnone : s.deposits.pending = none := by rw [deposits, h.task, Option.bind_none]
    exact ⟨h.nodup, by simp [hnone], by simp [hnone]⟩
  file_issued := h.file_issued
  record_issued := h.record_issued
  busy := by rw [h.isImportingKnowledge, h.task, Option.isSome_none]

/-- At rest, every file is that of one document exactly if no stored file has
failed to give its text and no file has stayed that was to be removed; and no
document is left by an import that fails. -/
theorem filesRecorded_iff {as : List (Action E)} (hclean : Clean S s) (hr : (machine E S).run s as = some t)
    (hidle : t.isImportingKnowledge = false) :
    (FilesRecorded t ↔ (machine E S).Meets (fun s a => keeps S s a = true) s as) ∧
      (machine E S).Steps (NoRecordOfFailure S) s as := by
  have hs := hclean.accounted
  have hinv (s : Library E) (a : Action E) (s' : Library E) (hs : Accounted S s)
      (h : (machine E S).step s a = some s') : Accounted S s' := accounted_step hs h
  have ht : Accounted S t := (Machine.always_of_invariant hinv hs as).last hr
  refine ⟨?_, Machine.steps_of_invariant hinv (fun _ _ _ hs h => noRecordOfFailure_step hs h) hs as⟩
  rw [filesRecorded_iff_claimed ht hidle, Machine.run_iff_meets hinv (fun _ _ _ hs h => claimed_step_iff hs h) hs hr]
  exact and_iff_right ((filesRecorded_iff_claimed hs hclean.isImportingKnowledge).mp hclean.recorded)

theorem clean_fresh : Clean Services.ascii (fresh E none) where
  isImportingKnowledge := rfl
  task := rfl
  recorded _ h := absurd h (Finset.notMem_empty _)
  nodup := List.nodup_nil
  file_issued _ h := absurd h (Finset.notMem_empty _)
  record_issued _ h := nomatch h

/-- The import of a PDF, up to its text. -/
def importPDF (file : FileAnswers) : List (Action ℚ) :=
  [.importKnowledge (.files [⟨"a.pdf", "pdf".toList, "a"⟩] .localFile none), .resume .begun, .resume (.copied (.ok ())),
    .resume (.extracted file)]

/-- A PDF of one page, imported. -/
theorem filesRecorded_importPDF : ∃ t,
    (machine ℚ Services.ascii).run (fresh ℚ none)
      (importPDF ⟨.ok [], some [some ⟨some ['a'], none⟩], none⟩ ++ [.resume (.returned 0)]) = some t ∧
    t.files ≠ ∅ ∧ FilesRecorded t := by
  have hrun : ((machine ℚ Services.ascii).run (fresh ℚ none)
      (importPDF ⟨.ok [], some [some ⟨some ['a'], none⟩], none⟩ ++ [.resume (.returned 0)])).any
      (fun t => t.files ≠ ∅ && !t.isImportingKnowledge) = true := by decide +kernel
  obtain ⟨t, hr, ht⟩ := (Option.any_eq_true _ _).mp hrun
  rw [Bool.and_eq_true, decide_eq_true_eq, Bool.not_eq_true'] at ht
  exact ⟨t, hr, ht.1, (filesRecorded_iff clean_fresh hr ht.2).1.mpr (by decide +kernel)⟩

/-- The PDF cannot be opened, and its file stays. -/
theorem failed_import_leaves_file : ∃ t,
    (machine ℚ Services.ascii).run (fresh ℚ none) (importPDF ⟨.ok [], none, none⟩) = some t ∧
    t.isImportingKnowledge = false ∧ ¬ FilesRecorded t := by
  refine ⟨_, rfl, rfl, fun h => ?_⟩
  obtain ⟨document, ⟨hmem, -⟩, -⟩ := h _ (Finset.mem_insert_self _ _)
  exact nomatch hmem

end Library

end SynapsNotes.Knowledge
