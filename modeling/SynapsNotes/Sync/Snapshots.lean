import SynapsNotes.Framework.History
import SynapsNotes.Sync.Account

/-!
# What the account holds, and where it is from

Whatever the devices do at once, a backup in the account is the export of what
one of them stored at one time (`Traced`), unless the export broke off. So what
a restore puts into a store is such a snapshot (`restored_passed`). What an
upload that was accepted has left there is for the module on completed syncs.
-/

namespace SynapsNotes.Sync

open Framework Backup

variable {ι E J : Type} {g : GoogleDrive J}

namespace Account

variable {codec : PayloadCodec E J} {context : ImportContext} {text : Descriptions} {w w' : Account ι E g}
  {past past' : Set (Account ι E g)} {k : ι} {d : Device E J} {caller : Caller} {request : Option (Request J)}

/-! ## Snapshots -/

theorem syncNow_temporaryFiles (d : Device E J) (isConnected : Bool) :
    (d.syncNow isConnected).temporaryFiles = d.temporaryFiles := by
  cases isConnected <;> rfl

theorem listFilesInSynapsFolder_temporaryFiles (d : Device E J) (isConnected : Bool) :
    (d.listFilesInSynapsFolder isConnected).temporaryFiles = d.temporaryFiles := by
  cases isConnected <;> rfl

/-- One that a device could export in a state of the past. -/
def Taken (codec : PayloadCodec E J) (past : Set (Account ι E g)) (archive : Archive J) : Prop :=
  ∃ v ∈ past, ∃ k, IsExport codec (v.devices k).drive.localData.store archive

/-- One that broke off before its records, or a snapshot. -/
def Genuine (codec : PayloadCodec E J) (past : Set (Account ι E g)) (archive : Archive J) : Prop :=
  archive.exportJSON = none ∨ Taken codec past archive

theorem Genuine.mono (h : past ⊆ past') {archive : Archive J} (ha : Genuine codec past archive) :
    Genuine codec past' archive := ha.imp_right fun ⟨v, hv, k, hk⟩ => ⟨v, h hv, k, hk⟩

/-- All archives, on the devices, under way and in the account, are genuine. -/
structure Traced (codec : PayloadCodec E J) (past : Set (Account ι E g)) (w : Account ι E g) : Prop where
  temporaryFiles : ∀ k name archive, (w.devices k).temporaryFiles name = some archive → Genuine codec past archive
  sent : ∀ p ∈ w.requests, ∀ folderId name archive, p.1 = .uploadResumable folderId name archive →
    Genuine codec past archive
  received : ∀ p ∈ w.requests, ∀ archive, p.2 = some (.downloaded archive) → Genuine codec past archive
  files : ∀ f ∈ w.contents.files, Genuine codec past f.archive

theorem Traced.mono (h : past ⊆ past') (hw : Traced codec past w) : Traced codec past' w where
  temporaryFiles k name archive ha := (hw.temporaryFiles k name archive ha).mono h
  sent p hp folderId name archive ha := (hw.sent p hp folderId name archive ha).mono h
  received p hp archive ha := (hw.received p hp archive ha).mono h
  files f hf := (hw.files f hf).mono h

theorem Traced.serve (hg : g.Documented) {r : Nat} {choice : g.Choice} {request : Request J} {server : g.State}
    {reply : Reply J} (hw : Traced codec past w) (hr : w.requests[r]? = some (request, none))
    (hserve : g.serve w.server choice request = some (server, reply)) :
    Traced codec past { w with server, requests := w.requests.set r (request, some reply) } := by
  have hrequest : (request, none) ∈ w.requests := List.mem_of_getElem? hr
  have hserves := hg.serves hserve
  refine ⟨hw.temporaryFiles, fun p hp folderId name archive ha => ?_, fun p hp archive ha => ?_, fun f hf => ?_⟩
  · rcases List.mem_or_eq_of_mem_set hp with hp | rfl
    · exact hw.sent p hp folderId name archive ha
    · exact hw.sent (request, none) hrequest folderId name archive ha
  · rcases List.mem_or_eq_of_mem_set hp with hp | rfl
    · exact hw.received p hp archive ha
    · cases ha
      obtain ⟨f, hf, rfl⟩ := hserves.exists_downloaded
      exact hw.files f hf
  · rcases hserves.mem_files hf with hf | hupload
    · exact hw.files f hf
    · exact hw.sent (request, none) hrequest f.folderId f.name f.archive hupload

/-- What an export leaves in its file, of a store of now. -/
theorem genuine_file {x : Exporting} {archive archive' : Archive J} (hw : w ∈ past)
    (h : exportZip codec x.context x.now true (w.devices k).drive.localData.store = .ok archive)
    (hfile : x.writing.file archive = some archive') : Genuine codec past archive' := by
  have htaken : Genuine codec past archive := .inr ⟨w, hw, k, x.context, x.now, h⟩
  cases hwriting : x.writing with
  | notCreated =>
    rw [hwriting] at hfile
    cases hfile
  | exportFails =>
    rw [hwriting] at hfile
    cases hfile
    exact .inl rfl
  | manifestFails | written =>
    rw [hwriting] at hfile
    cases hfile
    exact htaken

/-- A segment of `syncNow` keeps the files of its device genuine. -/
theorem Traced.segment (hw : Traced codec past w) (hpast : w ∈ past) {x : Exporting} {i : Nat}
    {s s' : SyncSuspension J} {answer : SyncAnswer J} (h : SyncSegment codec x i s answer s' (w.devices k) d)
    (name : Text) (archive : Archive J) (ha : d.temporaryFiles name = some archive) : Genuine codec past archive := by
  rcases h.temporaryFiles with hsame | ⟨exported, hexport, hfiles⟩
  · exact hw.temporaryFiles k name archive (hsame ▸ ha)
  · rw [hfiles, Function.update_apply] at ha
    split at ha
    · exact genuine_file hpast hexport ha
    · exact hw.temporaryFiles k name archive ha

theorem traced_opened (hg : g.Documented) (localData : ι → Local E) (past : Set (Account ι E g)) :
    Traced codec past (opened localData) where
  temporaryFiles _ _ _ h := nomatch h
  sent _ h := absurd h List.not_mem_nil
  received _ h := absurd h List.not_mem_nil
  files f h := by
    have hnone : f ∈ (g.contents g.opened).files := h
    rw [hg.opened] at hnone
    exact absurd hnone List.not_mem_nil

/-- A snapshot of `s`, imported into `old`. -/
def Restored (context : ImportContext) (s old new : Store E) : Prop :=
  ∃ fetched now, fetched.Same s ∧ new = importPayload context (exportPayload now fetched).truncated old

/-- Into a store without records, it is the same records to the second. -/
theorem Restored.same {s new : Store E} (h : Restored context s (.empty E) new) (hs : s.Consistent) :
    new.Same s.truncated := by
  obtain ⟨fetched, now, hsame, rfl⟩ := h
  rw [importPayload_exportPayload context now (hs.of_same hsame)]
  exact hsame.truncated

theorem restored_of_isExport {s old new : Store E} {archive : Archive J} (h : IsExport codec s archive)
    (himport : importZip codec context (some archive) old = .ok new) : Restored context s old new := by
  obtain ⟨c, now, h⟩ := h
  obtain ⟨fetched, hf, h⟩ := bind_eq_ok.mp h
  obtain ⟨data, hencode, h⟩ := bind_eq_ok.mp h
  cases h
  obtain ⟨data', hencode', hdecode⟩ := codec.roundTrip (exportPayload now fetched)
  cases hencode.symm.trans hencode'
  obtain ⟨payload, hpayload, hnew⟩ := bind_eq_ok.mp himport
  cases hdecode.symm.trans hpayload
  exact ⟨fetched, now, fetchStore_same hf, (Except.ok.inj hnew).symm⟩

theorem restored_of_genuine {old new : Store E} {archive : Archive J} (h : Genuine codec past archive)
    (himport : importZip codec context (some archive) old = .ok new) :
    ∃ v ∈ past, ∃ e, Restored context (v.devices e).drive.localData.store old new := by
  rcases h with hnone | ⟨v, hv, e, hexport⟩
  · unfold importZip at himport
    simp only [hnone] at himport
    cases himport
  · exact ⟨v, hv, e, restored_of_isExport hexport himport⟩

/-- The store that a device has. -/
def storeAt (w : Account ι E g) (k : ι) : Store E := (w.devices k).drive.localData.store

variable [DecidableEq ι]

/-- A device that goes on, with genuine files and a genuine request. -/
theorem Traced.send (hw : Traced codec past w) (caller : Caller) (request : Option (Request J))
    (hd : ∀ name archive, d.temporaryFiles name = some archive → Genuine codec past archive)
    (hr : ∀ folderId name archive, request = some (.uploadResumable folderId name archive) →
      Genuine codec past archive) :
    Traced codec past (w.send k caller d request) where
  temporaryFiles k' name archive ha := by
    by_cases hk : k' = k
    · subst hk
      obtain ⟨awaited, hself⟩ := w.send_devices_self k' caller d request
      rw [hself] at ha
      exact hd name archive ha
    · rw [send_devices_of_ne hk] at ha
      exact hw.temporaryFiles k' name archive ha
  sent p hp folderId name archive ha := by
    rw [send_requests, List.mem_append] at hp
    rcases hp with hp | hp
    · exact hw.sent p hp folderId name archive ha
    · obtain ⟨r, hmem, rfl⟩ := List.mem_map.mp hp
      exact hr folderId name archive (ha ▸ Option.mem_toList.mp hmem)
  received p hp archive ha := by
    rw [send_requests, List.mem_append] at hp
    rcases hp with hp | hp
    · exact hw.received p hp archive ha
    · obtain ⟨r, -, rfl⟩ := List.mem_map.mp hp
      exact nomatch ha
  files f hf := by
    rw [send_contents] at hf
    exact hw.files f hf

theorem Traced.update (hw : Traced codec past w)
    (hd : ∀ name archive, d.temporaryFiles name = some archive → Genuine codec past archive) :
    Traced codec past (w.update k d) := hw.send (.restore 0) none hd nofun

/-- Each step keeps all archives genuine. -/
theorem Traced.step (hg : g.Documented) {a : AccountAction ι E g.Choice} (hpast : w ∈ past) (hw : Traced codec past w)
    (h : (machine codec context text).step w a = some w') : Traced codec (insert w' past) w' := by
  refine Traced.mono (Set.subset_insert w' past) ?_
  cases a with
  | user k localData | connectAndMaybeAutoRestore k | disconnect k | relaunch k =>
    obtain rfl := Option.some.inj h
    exact hw.update (hw.temporaryFiles k)
  | syncNow k isConnected =>
    obtain rfl := Option.some.inj h
    refine hw.update fun name archive ha => hw.temporaryFiles k name archive ?_
    rwa [syncNow_temporaryFiles] at ha
  | listFilesInSynapsFolder k isConnected =>
    obtain rfl := Option.some.inj h
    refine hw.update fun name archive ha => hw.temporaryFiles k name archive ?_
    rwa [listFilesInSynapsFolder_temporaryFiles] at ha
  | purge k name =>
    obtain rfl := Option.some.inj h
    refine hw.update fun name' archive ha => ?_
    have hfile : Function.update (w.devices k).temporaryFiles name none name' = some archive := ha
    rw [Function.update_apply] at hfile
    split at hfile
    · exact nomatch hfile
    · exact hw.temporaryFiles k name' archive hfile
  | restore k i event =>
    obtain ⟨s, answer, drive, -, -, -, rfl⟩ := restoreStep_eq_some h
    refine hw.send _ _ (hw.temporaryFiles k) fun folderId name archive hr => ?_
    obtain ⟨s', -, hs'⟩ := Option.bind_eq_some_iff.mp hr
    cases s' <;> cases hs'
  | sync k i x event =>
    obtain ⟨s, answer, d, hs, -, hd, rfl⟩ := syncStep_eq_some h
    obtain ⟨s', hsegment⟩ := syncSegment_of_proceed hd
    refine hw.send _ _ (hw.segment hpast hsegment) fun folderId name archive hr => ?_
    obtain ⟨s₁, hs₁, hr⟩ := Option.bind_eq_some_iff.mp hr
    have hs' : s₁ = s' := by
      rw [hsegment.syncs, List.getElem?_set_self (List.getElem?_eq_some_iff.mp hs).1] at hs₁
      exact (Option.some.inj hs₁).symm
    subst hs'
    cases s₁ with
    | uploading folderId name archive =>
      cases hr
      exact hw.temporaryFiles k _ _ (hsegment.uploading _ _ _ rfl).2
    | _ => cases hr
  | serve r id =>
    obtain ⟨request, server, reply, hr, hserve, rfl⟩ := serveStep_eq_some h
    exact hw.serve hg hr hserve

/-- In every run, all archives are from what the run has passed. -/
theorem traced_run (hg : g.Documented) {localData : ι → Local E} {as : List (AccountAction ι E g.Choice)}
    (h : (machine codec context text).run (opened localData) as = some w) :
    Traced codec ((machine codec context text).Passed (opened localData) as) w :=
  Machine.passed_of_invariant (fun _ _ _ _ hpast hw => hw.step hg hpast) (traced_opened hg localData _) h

/-! ## What a restore brings -/

theorem storeAt_send (w : Account ι E g) (k k' : ι) (caller : Caller) (d : Device E J) (request : Option (Request J)) :
    (w.send k caller d request).storeAt k' = if k' = k then d.drive.localData.store else w.storeAt k' := by
  unfold storeAt
  split
  · subst_vars
    obtain ⟨awaited, hself⟩ := w.send_devices_self k' caller d request
    rw [hself]
  · rename_i hk
    rw [send_devices_of_ne hk]

theorem storeAt_update_of_eq {k k' : ι} (h : d.drive.localData.store = w.storeAt k) :
    (w.update k d).storeAt k' = w.storeAt k' := by
  have hsend := w.storeAt_send k k' (.restore 0) d none
  split at hsend
  · subst_vars
    exact hsend.trans h
  · exact hsend

/-- Whatever has happened on the devices, on the way and in the account: a step
that changes what a device has stored is the user's, or imports a snapshot of
what a device had stored in a state that the run has passed; in a store without
records it leaves the same records, to the second. -/
theorem restored_passed (hg : g.Documented) (codec : PayloadCodec E J) (context : ImportContext) (text : Descriptions)
    (localData : ι → Local E) {as : List (AccountAction ι E g.Choice)} {a : AccountAction ι E g.Choice}
    (hr : (machine codec context text).run (opened localData) as = some w)
    (h : (machine codec context text).step w a = some w') (k : ι) :
    w'.storeAt k = w.storeAt k ∨ (∃ l, a = .user k l) ∨
      ∃ v ∈ (machine codec context text).Passed (opened localData) as, ∃ e,
        Restored context (v.storeAt e) (w.storeAt k) (w'.storeAt k) ∧
          (w.storeAt k = .empty E → (v.storeAt e).Consistent → (w'.storeAt k).Same (v.storeAt e).truncated) := by
  have htraced := traced_run hg hr
  cases a with
  | user k' l =>
    obtain rfl := Option.some.inj h
    by_cases hk : k = k'
    · exact .inr (.inl ⟨l, by rw [hk]⟩)
    · exact .inl (congrArg (·.drive.localData.store) (update_devices_of_ne hk w _))
  | connectAndMaybeAutoRestore k' | disconnect k' | relaunch k' | purge k' name =>
    obtain rfl := Option.some.inj h
    exact .inl (storeAt_update_of_eq rfl)
  | syncNow k' isConnected | listFilesInSynapsFolder k' isConnected =>
    obtain rfl := Option.some.inj h
    exact .inl (storeAt_update_of_eq (by cases isConnected <;> rfl))
  | serve r id =>
    obtain ⟨request, server, reply, -, -, rfl⟩ := serveStep_eq_some h
    exact .inl rfl
  | sync k' i x event =>
    obtain ⟨s, answer, d, -, -, hd, rfl⟩ := syncStep_eq_some h
    obtain ⟨s', hsegment⟩ := syncSegment_of_proceed hd
    left
    rw [storeAt_send]
    split
    · subst_vars
      rw [hsegment.localData]
      rfl
    · rfl
  | restore k' i event =>
    obtain ⟨s, answer, drive, -, hanswer, hdrive, rfl⟩ := restoreStep_eq_some h
    obtain ⟨s', hsegment⟩ := restoreSegment_of_proceed hdrive
    rw [storeAt_send]
    split
    · subst_vars
      rcases hsegment.localData with hsame | ⟨archive, restored, rfl, himport⟩
      · exact .inl (congrArg Local.store hsame)
      · obtain ⟨archive, rfl, hreply⟩ := restoreAnswer_downloaded hanswer
        obtain ⟨p, hp, hreply⟩ := exists_of_reply hreply
        obtain ⟨v, hv, e, hrestored⟩ := restored_of_genuine (htraced.received p hp archive hreply) himport
        refine .inr (.inr ⟨v, hv, e, hrestored, fun hempty hs => ?_⟩)
        have hnew : Restored context (v.storeAt e) (w.storeAt k') drive.localData.store := hrestored
        rw [hempty] at hnew
        exact hnew.same hs
    · exact .inl rfl

/-! ## Two devices -/

/-- An export that is written. -/
def plainExporting : Exporting where
  context := .plain
  now := 10
  stamp := "20240101T000000Z".toList
  writing := .written

/-- One device has the small store, the other is new. -/
def twoDevices (k : Bool) : Local Unit := if k then ⟨.empty Unit, []⟩ else ⟨smallStore, []⟩

/-- The device finds no folder, makes one and uploads its backup. -/
def uploads : List (AccountAction Bool Unit String) :=
  [.sync false 0 plainExporting (.refreshed (some "token")), .serve 0 "", .sync false 0 plainExporting .delivered,
    .serve 1 "folder", .sync false 0 plainExporting .delivered, .sync false 0 plainExporting (.started ""),
    .serve 2 "backup"]

/-- Then the other one connects and downloads it. -/
def downloads : List (AccountAction Bool Unit String) :=
  .syncNow false true :: uploads ++ [.sync false 0 plainExporting .delivered, .connectAndMaybeAutoRestore true,
    .restore true 0 (.connected true none (.ok ())), .restore true 0 (.refreshed (some "token")), .serve 3 "folder",
    .restore true 0 (.delivered []), .serve 4 "", .restore true 0 (.delivered []), .serve 5 ""]

/-- And imports it. -/
def imports : AccountAction Bool Unit String := .restore true 0 (.delivered [])

abbrev plainMachine :
    Machine (Account Bool Unit (plainDrive (ExportPayloadV1 Unit))) (AccountAction Bool Unit String) :=
  machine (.plain Unit) (.plain 5 20) ⟨"", fun _ => ""⟩

abbrev plainAccount : Account Bool Unit (plainDrive (ExportPayloadV1 Unit)) := opened twoDevices

theorem restored_downloads : ∃ w w', plainMachine.run plainAccount downloads = some w ∧
    plainMachine.step w imports = some w' ∧
    (w'.storeAt true = w.storeAt true ∨ (∃ l, imports = .user true l) ∨
      ∃ v ∈ plainMachine.Passed plainAccount downloads, ∃ e,
        Restored (.plain 5 20) (v.storeAt e) (w.storeAt true) (w'.storeAt true) ∧
          (w.storeAt true = .empty Unit → (v.storeAt e).Consistent →
            (w'.storeAt true).Same (v.storeAt e).truncated)) := by
  have hruns : (plainMachine.run plainAccount downloads).isSome = true := by decide
  have hsteps : ((plainMachine.run plainAccount downloads).bind
    (plainMachine.step · imports)).isSome = true := by decide
  obtain ⟨w, hr⟩ := Option.isSome_iff_exists.mp hruns
  rw [hr, Option.bind_some] at hsteps
  obtain ⟨w', h⟩ := Option.isSome_iff_exists.mp hsteps
  exact ⟨w, w', hr, h, restored_passed (documented_plainDrive _) _ _ _ _ hr h true⟩

end Account

end SynapsNotes.Sync
