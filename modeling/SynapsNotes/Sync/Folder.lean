import SynapsNotes.Sync.Snapshots

/-!
# The folder that the devices share

Each device searches for the folder, makes it if there is none, and keeps its
id. Two devices that search at the same time may both make one, and then keep
to different folders. Where no folder is made while there is one, all devices
have the same, and a restore lists the backups of all of them
(`shared_iff`).
-/

namespace SynapsNotes.Sync

open Framework Backup

variable {ι E J : Type} {g : GoogleDrive J}

/-- A device with no other folder than those of the account. -/
structure Device.Uses (folders : List String) (d : Device E J) : Prop where
  cached : ∀ id, d.drive.folderId = some id → id ∈ folders
  listing : ∀ token folderId, .listing token folderId ∈ d.drive.calls → folderId ∈ folders
  starting : ∀ folderId name, .starting folderId name ∈ d.syncs → folderId ∈ folders ∧ backupPrefix <+: name

theorem Device.Uses.mono {folders folders' : List String} {d : Device E J} (h : d.Uses folders)
    (hsub : folders ⊆ folders') : d.Uses folders' where
  cached id hid := hsub (h.cached id hid)
  listing token folderId hs := hsub (h.listing token folderId hs)
  starting folderId name hs := (h.starting folderId name hs).imp_left fun hf => hsub hf

/-- A call begins. -/
theorem Device.Uses.begin {folders : List String} {d d' : Device E J} {purpose : Purpose} (hd : d.Uses folders)
    (hsyncs : d'.syncs = d.syncs ++ [.refreshing purpose]) (hcalls : d'.drive.calls = d.drive.calls)
    (hfolder : d'.drive.folderId = d.drive.folderId) : d'.Uses folders where
  cached id hid := hd.cached id (hfolder ▸ hid)
  listing token folderId hs := hd.listing token folderId (hcalls ▸ hs)
  starting folderId name hs := by
    rw [hsyncs, List.mem_append] at hs
    rcases hs with hs | hs
    · exact hd.starting folderId name hs
    · exact nomatch List.mem_singleton.mp hs

namespace Account

variable {codec : PayloadCodec E J} {context : ImportContext} {text : Descriptions} {w w' : Account ι E g}
  {k : ι} {d : Device E J} {caller : Caller} {request : Option (Request J)}

/-- There is one folder at most, and all the devices, the requests and the
files keep to it. -/
structure Agreed (w : Account ι E g) : Prop where
  one : w.contents.folders.length ≤ 1
  devices : ∀ k, (w.devices k).Uses w.contents.folders
  sent : ∀ p ∈ w.requests, ∀ folderId name archive, p.1 = .uploadResumable folderId name archive →
    folderId ∈ w.contents.folders ∧ backupPrefix <+: name
  found : ∀ p ∈ w.requests, ∀ id, p.2 = some (.folderFound (some id)) ∨ p.2 = some (.folderCreated id) →
    id ∈ w.contents.folders
  files : ∀ f ∈ w.contents.files, f.folderId ∈ w.contents.folders ∧ backupPrefix <+: f.name

/-- All files are backups in the one folder. -/
theorem Agreed.backups (hw : Agreed w) {folderId : String} (h : folderId ∈ w.contents.folders) :
    w.contents.backups folderId = w.contents.files := by
  obtain ⟨only, honly⟩ := List.length_eq_one_iff.mp (le_antisymm hw.one (List.length_pos_of_mem h))
  refine List.filter_eq_self.mpr fun f hf => decide_eq_true ?_
  obtain ⟨hfolder, hname⟩ := hw.files f hf
  rw [honly, List.mem_singleton] at h hfolder
  exact ⟨hfolder.trans h.symm, hname⟩

/-- The folder whose id comes in with an answer to a restore. -/
theorem Agreed.of_restoreAnswer (hw : Agreed w) {i : Nat} {s : Suspension} {event : RestoreEvent}
    {answer : Answer J} (h : w.restoreAnswer k i s event = some answer) {id : String}
    (hid : answer = .folderFound (.ok (some id)) ∨ answer = .folderCreated (.ok id)) : id ∈ w.contents.folders := by
  cases event with
  | delivered restored =>
    obtain ⟨reply, hreply, h⟩ := Option.bind_eq_some_iff.mp h
    obtain ⟨p, hp, hreply⟩ := exists_of_reply hreply
    refine hw.found p hp id ?_
    rw [hreply]
    cases reply with
    | folderFound found =>
      cases h
      rcases hid with hid | hid <;> cases hid
      exact .inl rfl
    | folderCreated created =>
      cases h
      rcases hid with hid | hid <;> cases hid
      exact .inr rfl
    | _ => rcases hid with rfl | rfl <;> cases h
  | failed error => rcases hid with rfl | rfl <;> cases s <;> cases h
  | _ => rcases hid with rfl | rfl <;> cases h

/-- And with one to a call of `syncNow`. -/
theorem Agreed.of_syncAnswer (hw : Agreed w) {i : Nat} {event : SyncEvent} {answer : SyncAnswer J}
    (h : w.syncAnswer k i event = some answer) {id : String}
    (hid : answer = .replied (.folderFound (some id)) ∨ answer = .replied (.folderCreated id)) :
    id ∈ w.contents.folders := by
  cases event with
  | delivered =>
    obtain ⟨reply, hreply, rfl⟩ := Option.map_eq_some_iff.mp h
    obtain ⟨p, hp, hreply⟩ := exists_of_reply hreply
    refine hw.found p hp id ?_
    rw [hreply]
    rcases hid with hid | hid <;> cases hid
    · exact .inl rfl
    · exact .inr rfl
  | _ => rcases hid with rfl | rfl <;> cases h

/-- A segment of a restore keeps the device to the folder. -/
theorem uses_restoreSegment {i : Nat} {answer : Answer J} {s' : Suspension} {drive : Drive E} {folders : List String}
    (hd : d.Uses folders) (h : RestoreSegment codec context i answer s' d.drive drive)
    (hid : ∀ id, answer = .folderFound (.ok (some id)) ∨ answer = .folderCreated (.ok id) → id ∈ folders) :
    Device.Uses folders { d with drive } := by
  have hcached : ∀ id, drive.folderId = some id → id ∈ folders := by
    intro id hfolder
    rcases h.folderId with hsame | ⟨id', hnew, hanswer⟩
    · exact hd.cached id (hsame ▸ hfolder)
    · cases hnew.symm.trans hfolder
      exact hid _ hanswer
  refine ⟨hcached, fun token folderId hs => ?_, hd.starting⟩
  have hs : .listing token folderId ∈ drive.calls := hs
  rw [h.calls] at hs
  rcases List.mem_or_eq_of_mem_set hs with hs | rfl
  · exact hd.listing token folderId hs
  · exact hcached folderId (h.listing token folderId rfl)

/-- So does one of `syncNow`. -/
theorem uses_syncSegment {x : Exporting} {i : Nat} {s s' : SyncSuspension J} {answer : SyncAnswer J}
    {d' : Device E J} {folders : List String} (hd : d.Uses folders) (h : SyncSegment codec x i s answer s' d d')
    (hid : ∀ id, answer = .replied (.folderFound (some id)) ∨ answer = .replied (.folderCreated id) →
      id ∈ folders) : d'.Uses folders := by
  have hcached : ∀ id, d'.drive.folderId = some id → id ∈ folders := by
    intro id hfolder
    rcases h.folderId with hsame | ⟨id', hnew, hanswer⟩
    · exact hd.cached id (hsame ▸ hfolder)
    · cases hnew.symm.trans hfolder
      exact hid _ hanswer
  refine ⟨hcached, fun token folderId hs => hd.listing token folderId (h.calls ▸ hs), fun folderId name hs => ?_⟩
  rw [h.syncs] at hs
  rcases List.mem_or_eq_of_mem_set hs with hs | rfl
  · exact hd.starting folderId name hs
  · obtain ⟨hfolder, hname, -⟩ := h.starting folderId name rfl
    exact ⟨hcached folderId hfolder, hname⟩

/-- A request for a folder is served where there is one. -/
def MakesSecondFolder (w : Account ι E g) : AccountAction ι E g.Choice → Prop
  | .serve r _ => w.contents.folders ≠ [] ∧ (w.requests[r]?).any (fun p => p.1.isCreateFolder) = true
  | _ => False

instance (w : Account ι E g) : DecidablePred (MakesSecondFolder w)
  | .serve _ _ => inferInstanceAs (Decidable (_ ∧ _))
  | .user .. | .connectAndMaybeAutoRestore _ | .restore .. | .syncNow .. | .listFilesInSynapsFolder .. | .sync ..
  | .disconnect _ | .relaunch _ | .purge .. => inferInstanceAs (Decidable False)

/-- A request that is served, where it is none for a second folder. -/
theorem Agreed.serve (hg : g.Documented) {r : Nat} {choice : g.Choice} {request : Request J} {server : g.State}
    {reply : Reply J}
    (hw : Agreed w) (hr : w.requests[r]? = some (request, none))
    (hserve : g.serve w.server choice request = some (server, reply))
    (hok : request = .createFolder → w.contents.folders = []) :
    Agreed { w with server, requests := w.requests.set r (request, some reply) } := by
  have hrequest : (request, none) ∈ w.requests := List.mem_of_getElem? hr
  have hserves := hg.serves hserve
  have hsub : w.contents.folders ⊆ (g.contents server).folders := hserves.folders_subset
  have hone : (g.contents server).folders.length ≤ 1 := by
    by_cases hcreate : request = .createFolder
    · subst hcreate
      have hnone : (g.contents w.server).folders = [] := hok rfl
      rw [hserves.folders_of_createFolder, hnone]
      rfl
    · rw [hserves.folders_of_ne_createFolder hcreate]
      exact hw.one
  refine ⟨hone, fun k => (hw.devices k).mono hsub, fun p hp folderId name archive ha => ?_, fun p hp id hid => ?_,
    fun f hf => ?_⟩
  · rcases List.mem_or_eq_of_mem_set hp with hp | rfl
    · exact (hw.sent p hp folderId name archive ha).imp_left fun h => hsub h
    · exact (hw.sent _ hrequest folderId name archive ha).imp_left fun h => hsub h
  · rcases List.mem_or_eq_of_mem_set hp with hp | rfl
    · exact hsub (hw.found p hp id hid)
    · exact hserves.mem_folders (hid.imp Option.some.inj Option.some.inj)
  · rcases hserves.mem_files hf with hf | hupload
    · exact (hw.files f hf).imp_left fun h => hsub h
    · exact (hw.sent _ hrequest f.folderId f.name f.archive hupload).imp_left fun h => hsub h

variable [DecidableEq ι]

/-- A device that goes on, and a request that keeps to the folder. -/
theorem Agreed.send (hw : Agreed w) (caller : Caller) (request : Option (Request J))
    (hd : d.Uses w.contents.folders)
    (hr : ∀ folderId name archive, request = some (.uploadResumable folderId name archive) →
      folderId ∈ w.contents.folders ∧ backupPrefix <+: name) : Agreed (w.send k caller d request) where
  one := by
    rw [send_contents]
    exact hw.one
  devices k' := by
    rw [send_contents]
    by_cases hk : k' = k
    · subst hk
      obtain ⟨awaited, hself⟩ := w.send_devices_self k' caller d request
      rw [hself]
      exact ⟨hd.cached, hd.listing, hd.starting⟩
    · rw [send_devices_of_ne hk]
      exact hw.devices k'
  sent p hp folderId name archive ha := by
    rw [send_contents]
    rw [send_requests, List.mem_append] at hp
    rcases hp with hp | hp
    · exact hw.sent p hp folderId name archive ha
    · obtain ⟨r, hmem, rfl⟩ := List.mem_map.mp hp
      exact hr folderId name archive (ha ▸ Option.mem_toList.mp hmem)
  found p hp id hid := by
    rw [send_contents]
    rw [send_requests, List.mem_append] at hp
    rcases hp with hp | hp
    · exact hw.found p hp id hid
    · obtain ⟨r, -, rfl⟩ := List.mem_map.mp hp
      exact hid.elim nofun nofun
  files f hf := by
    rw [send_contents] at hf ⊢
    exact hw.files f hf

/-- A device that goes on without a request. -/
theorem Agreed.update (hw : Agreed w) (hd : d.Uses w.contents.folders) : Agreed (w.update k d) :=
  hw.send (.restore 0) none hd nofun

/-- Each step but one that makes a second folder. -/
theorem Agreed.step (hg : g.Documented) {a : AccountAction ι E g.Choice} (hw : Agreed w) (hok : ¬ w.MakesSecondFolder a)
    (h : (machine codec context text).step w a = some w') : Agreed w' := by
  cases a with
  | user k localData | disconnect k | purge k name =>
    obtain rfl := Option.some.inj h
    exact hw.update ⟨(hw.devices k).cached, (hw.devices k).listing, (hw.devices k).starting⟩
  | relaunch k =>
    obtain rfl := Option.some.inj h
    exact hw.update ⟨(hw.devices k).cached, nofun, nofun⟩
  | connectAndMaybeAutoRestore k =>
    obtain rfl := Option.some.inj h
    refine hw.update ⟨(hw.devices k).cached, fun token folderId hs => ?_, (hw.devices k).starting⟩
    rcases List.mem_append.mp hs with hs | hs
    · exact (hw.devices k).listing token folderId hs
    · exact nomatch List.mem_singleton.mp hs
  | syncNow k isConnected =>
    obtain rfl := Option.some.inj h
    cases isConnected with
    | false => exact hw.update ⟨(hw.devices k).cached, (hw.devices k).listing, (hw.devices k).starting⟩
    | true => exact hw.update ((hw.devices k).begin rfl rfl rfl)
  | listFilesInSynapsFolder k isConnected =>
    obtain rfl := Option.some.inj h
    cases isConnected with
    | false => exact hw.update (hw.devices k)
    | true => exact hw.update ((hw.devices k).begin rfl rfl rfl)
  | restore k i event =>
    obtain ⟨s, answer, drive, -, hanswer, hdrive, rfl⟩ := restoreStep_eq_some h
    obtain ⟨s', hsegment⟩ := restoreSegment_of_proceed hdrive
    refine hw.send _ _ (uses_restoreSegment (hw.devices k) hsegment fun id hid => hw.of_restoreAnswer hanswer hid)
      fun folderId name archive hr => ?_
    obtain ⟨s₁, -, hr⟩ := Option.bind_eq_some_iff.mp hr
    cases s₁ <;> cases hr
  | sync k i x event =>
    obtain ⟨s, answer, d, hs, hanswer, hd, rfl⟩ := syncStep_eq_some h
    obtain ⟨s', hsegment⟩ := syncSegment_of_proceed hd
    refine hw.send _ _ (uses_syncSegment (hw.devices k) hsegment fun id hid => hw.of_syncAnswer hanswer hid)
      fun folderId name archive hr => ?_
    obtain ⟨s₁, hs₁, hr⟩ := Option.bind_eq_some_iff.mp hr
    rw [hsegment.syncs, List.getElem?_set_self (List.getElem?_eq_some_iff.mp hs).1] at hs₁
    cases hs₁
    cases s' with
    | uploading folderId name archive =>
      cases hr
      obtain ⟨rfl, -⟩ := hsegment.uploading _ _ _ rfl
      exact (hw.devices k).starting _ _ (List.mem_of_getElem? hs)
    | _ => cases hr
  | serve r id =>
    obtain ⟨request, server, reply, hr, hserve, rfl⟩ := serveStep_eq_some h
    refine hw.serve hg hr hserve fun hrequest => ?_
    by_contra hne
    refine hok ⟨hne, ?_⟩
    rw [hr, hrequest]
    rfl

/-- One folder at most, which all devices know and in which each restore finds
the backups of all of them, the newest first. -/
structure Shared (w : Account ι E g) : Prop where
  one : w.contents.folders.length ≤ 1
  known : ∀ k id, (w.devices k).drive.folderId = some id → w.contents.folders = [id]
  backups : ∀ k token folderId, .listing token folderId ∈ (w.devices k).drive.calls →
    w.contents.backups folderId = w.contents.files

omit [DecidableEq ι] in
theorem Agreed.shared (hw : Agreed w) : Shared w where
  one := hw.one
  known k id hid := by
    have hmem := (hw.devices k).cached id hid
    obtain ⟨only, honly⟩ := List.length_eq_one_iff.mp (le_antisymm hw.one (List.length_pos_of_mem hmem))
    rw [honly, List.mem_singleton] at hmem
    rw [honly, hmem]
  backups k token folderId hs := hw.backups ((hw.devices k).listing token folderId hs)

/-- A step that makes a second folder. -/
theorem not_shared_of_makesSecondFolder (hg : g.Documented) {a : AccountAction ι E g.Choice}
    (ha : w.MakesSecondFolder a) (h : (machine codec context text).step w a = some w') : ¬ Shared w' := by
  intro hw
  cases a with
  | serve r id =>
    obtain ⟨hne, hcreate⟩ := ha
    obtain ⟨request, server, reply, hr, hserve, rfl⟩ := serveStep_eq_some h
    rw [hr] at hcreate
    obtain rfl := Request.eq_createFolder hcreate
    have hone : (g.contents server).folders.length ≤ 1 := hw.one
    rw [(hg.serves hserve).folders_of_createFolder] at hone
    exact hne (List.length_eq_zero_iff.mp (Nat.le_zero.mp (Nat.le_of_succ_le_succ hone)))
  | _ => exact ha

omit [DecidableEq ι] in
theorem agreed_opened (hg : g.Documented) (localData : ι → Local E) : Agreed (opened localData : Account ι E g) := by
  have hcontents : (opened localData : Account ι E g).contents = ⟨[], []⟩ := hg.opened
  refine ⟨?_, fun k => ⟨nofun, nofun, nofun⟩, nofun, nofun, ?_⟩ <;> rw [hcontents]
  · exact Nat.zero_le 1
  · exact List.forall_mem_nil _

/-- The exact condition for the devices to share one folder, whatever they do
at once: that no search which found none is followed by a second folder. -/
theorem shared_iff (hg : g.Documented) (codec : PayloadCodec E J) (context : ImportContext) (text : Descriptions)
    (localData : ι → Local E) (as : List (AccountAction ι E g.Choice)) :
    (machine codec context text).Always Shared (opened localData : Account ι E g) as ↔
      (machine codec context text).Meets (fun w a => ¬ w.MakesSecondFolder a) (opened localData) as :=
  Machine.always_iff_meets (I := Agreed) (fun _ => Agreed.shared) (fun _ _ _ => Agreed.step hg)
    (fun _ _ _ _ h hw ha => not_shared_of_makesSecondFolder hg ha h hw) (agreed_opened hg localData) as

/-- Both devices search before either of them has made the folder. -/
def searches : List (AccountAction Bool Unit String) :=
  [.syncNow false true, .syncNow true true, .sync false 0 plainExporting (.refreshed (some "token")),
    .sync true 0 plainExporting (.refreshed (some "token")), .serve 0 "", .serve 1 "",
    .sync false 0 plainExporting .delivered, .sync true 0 plainExporting .delivered, .serve 2 "first",
    .serve 3 "second"]

theorem shared_downloads : plainMachine.Always Shared plainAccount downloads ∧
    ¬ plainMachine.Always Shared plainAccount searches := by
  have hshared := shared_iff (documented_plainDrive _) (.plain Unit) (.plain 5 20) ⟨"", fun _ => ""⟩ twoDevices
  exact ⟨(hshared downloads).mpr (by decide), fun h => absurd ((hshared searches).mp h) (by decide)⟩

end Account

end SynapsNotes.Sync
