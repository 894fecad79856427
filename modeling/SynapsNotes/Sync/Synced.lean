import SynapsNotes.Sync.Snapshots

/-!
# What a completed sync has stored

A call of `syncNow` exports to a file that other calls of its device may write
again before the upload reads it. From the call's start on, what is in its file
and what it uploads is an export of what the device has stored since then
(`Since`), so where the call completes, the account has one (`synced_passed`).
-/

namespace SynapsNotes.Sync

open Framework Backup

variable {ι E J : Type} {g : GoogleDrive J}

namespace Account

variable {codec : PayloadCodec E J} {context : ImportContext} {text : Descriptions} {w w' : Account ι E g}
  {past past' : Set (Account ι E g)} {k : ι} {i : Nat} {d : Device E J} {caller : Caller}
  {request : Option (Request J)}

/-- The account has the file of every upload that was served. -/
def Served (w : Account ι E g) : Prop :=
  ∀ p ∈ w.requests, ∀ folderId name archive, p.1 = .uploadResumable folderId name archive → p.2.isSome = true →
    ∃ f ∈ w.contents.files, f.folderId = folderId ∧ f.name = name ∧ f.archive = archive

theorem Served.serve (hg : g.Documented) {r : Nat} {choice : g.Choice} {request : Request J} {server : g.State}
    {reply : Reply J} (hw : Served w) (hserve : g.serve w.server choice request = some (server, reply)) :
    Served { w with server, requests := w.requests.set r (request, some reply) } := by
  intro p hp folderId name archive ha hsome
  have hserves := hg.serves hserve
  rcases List.mem_or_eq_of_mem_set hp with hp | rfl
  · obtain ⟨f, hf, h⟩ := hw p hp folderId name archive ha hsome
    exact ⟨f, hserves.files_subset hf, h⟩
  · cases ha
    exact hserves.exists_uploaded

/-- An export of what the device had stored in a state of the past. -/
def TakenOf (codec : PayloadCodec E J) (k : ι) (past : Set (Account ι E g)) (archive : Archive J) : Prop :=
  ∃ v ∈ past, IsExport codec (v.storeAt k) archive

/-- The call has to do with exports of the past only: in the file of its name,
and in the upload that it waits for. -/
structure Since (codec : PayloadCodec E J) (k : ι) (i : Nat) (past : Set (Account ι E g)) (w : Account ι E g) :
    Prop where
  served : Served w
  starting : ∀ folderId name, (w.devices k).syncs[i]? = some (.starting folderId name) →
    ∀ archive, (w.devices k).temporaryFiles name = some archive → TakenOf codec k past archive
  uploading : ∀ folderId name archive, (w.devices k).syncs[i]? = some (.uploading folderId name archive) →
    TakenOf codec k past archive ∧ ∃ r, (w.devices k).awaited (.sync i) = some r ∧
      (w.requests[r]?).map Prod.fst = some (.uploadResumable folderId name archive)

theorem TakenOf.mono (h : past ⊆ past') {archive : Archive J} (ha : TakenOf codec k past archive) :
    TakenOf codec k past' archive := ha.imp fun _ hv => ⟨h hv.1, hv.2⟩

theorem Since.mono (h : past ⊆ past') (hw : Since codec k i past w) : Since codec k i past' w where
  served := hw.served
  starting folderId name hs archive ha := (hw.starting folderId name hs archive ha).mono h
  uploading folderId name archive hs := (hw.uploading folderId name archive hs).imp_left (·.mono h)

/-- The request of an upload stays where it is. -/
theorem requests_append {r : Nat} {request : Request J} (h : (w.requests[r]?).map Prod.fst = some request)
    (more : List (Request J × Option (Reply J))) : ((w.requests ++ more)[r]?).map Prod.fst = some request := by
  obtain ⟨p, hp, rfl⟩ := Option.map_eq_some_iff.mp h
  rw [List.getElem?_append_left (List.getElem?_eq_some_iff.mp hp).1, hp]
  rfl

theorem Since.serve (hg : g.Documented) {r : Nat} {choice : g.Choice} {request : Request J} {server : g.State}
    {reply : Reply J} (hw : Since codec k i past w) (hr : w.requests[r]? = some (request, none))
    (hserve : g.serve w.server choice request = some (server, reply)) :
    Since codec k i past { w with server, requests := w.requests.set r (request, some reply) } where
  served := hw.served.serve hg hserve
  starting := hw.starting
  uploading folderId name archive hs := by
    obtain ⟨htaken, r', hawaited, hrequest⟩ := hw.uploading folderId name archive hs
    refine ⟨htaken, r', hawaited, ?_⟩
    show ((w.requests.set r (request, some reply))[r']?).map Prod.fst = _
    rw [List.getElem?_set]
    split
    · subst_vars
      rw [hr] at hrequest
      rw [if_pos (List.getElem?_eq_some_iff.mp hr).1]
      exact hrequest
    · exact hrequest

variable [DecidableEq ι]

theorem Served.send (hw : Served w) (caller : Caller) (request : Option (Request J)) :
    Served (w.send k caller d request) := by
  intro p hp folderId name archive ha hsome
  rw [send_requests, List.mem_append] at hp
  rw [send_contents]
  rcases hp with hp | hp
  · exact hw p hp folderId name archive ha hsome
  · obtain ⟨r, -, rfl⟩ := List.mem_map.mp hp
    exact nomatch hsome

/-- Another device goes on. -/
theorem Since.send_other {k' : ι} (hw : Since codec k i past w) (caller : Caller) (request : Option (Request J))
    (hk : k ≠ k') :
    Since codec k i past (w.send k' caller d request) where
  served := hw.served.send caller request
  starting folderId name hs := by
    rw [send_devices_of_ne hk] at hs ⊢
    exact hw.starting folderId name hs
  uploading folderId name archive hs := by
    rw [send_devices_of_ne hk] at hs ⊢
    obtain ⟨htaken, r, hawaited, hr⟩ := hw.uploading folderId name archive hs
    rw [send_requests]
    exact ⟨htaken, r, hawaited, requests_append hr _⟩

/-- The device goes on: with another call, or with this one, that sends what it
uploads. -/
theorem Since.send (hw : Since codec k i past w) (caller : Caller) (request : Option (Request J))
    (hstarting : ∀ folderId name, d.syncs[i]? = some (.starting folderId name) →
      ∀ archive, d.temporaryFiles name = some archive → TakenOf codec k past archive)
    (huploading : ∀ folderId name archive, d.syncs[i]? = some (.uploading folderId name archive) →
      (TakenOf codec k past archive ∧ caller = .sync i ∧ request = some (.uploadResumable folderId name archive)) ∨
        ((w.devices k).syncs[i]? = some (.uploading folderId name archive) ∧
          d.awaited (.sync i) = (w.devices k).awaited (.sync i) ∧ (caller ≠ .sync i ∨ request = none))) :
    Since codec k i past (w.send k caller d request) where
  served := hw.served.send caller request
  starting folderId name hs := by
    obtain ⟨awaited, hself⟩ := w.send_devices_self k caller d request
    rw [hself] at hs ⊢
    exact hstarting folderId name hs
  uploading folderId name archive hs := by
    have hsyncs : d.syncs[i]? = some (.uploading folderId name archive) := by
      obtain ⟨awaited, hself⟩ := w.send_devices_self k caller d request
      rwa [hself] at hs
    rcases huploading folderId name archive hsyncs with ⟨htaken, rfl, rfl⟩ | ⟨hold, hsame, hother⟩
    · refine ⟨htaken, w.requests.length, ?_, ?_⟩
      · show ((w.update k _).devices k).awaited _ = _
        rw [update_devices_self]
        exact Function.update_self ..
      · rw [send_requests]
        exact congrArg (Option.map Prod.fst) List.getElem?_concat_length
    · obtain ⟨htaken, r, hawaited, hr⟩ := hw.uploading folderId name archive hold
      refine ⟨htaken, r, ?_, by rw [send_requests]; exact requests_append hr _⟩
      rw [← hawaited, ← hsame]
      cases request with
      | none => exact congrArg (·.awaited (.sync i)) (update_devices_self w k d)
      | some request =>
        have hcaller : Caller.sync i ≠ caller := (hother.resolve_right nofun).symm
        refine (congrArg (·.awaited (.sync i)) (update_devices_self w k _)).trans ?_
        exact Function.update_of_ne hcaller ..

/-- A device goes on with its calls of `syncNow` as they were, and no more in
its files. -/
theorem Since.update {k' : ι} (hw : Since codec k i past w) (hsyncs : d.syncs = (w.devices k').syncs)
    (hawaited : d.awaited = (w.devices k').awaited)
    (hfiles : ∀ name archive, d.temporaryFiles name = some archive →
      (w.devices k').temporaryFiles name = some archive) : Since codec k i past (w.update k' d) := by
  by_cases hk : k = k'
  · subst hk
    refine hw.send (.restore 0) none (fun folderId name hs archive ha => ?_)
      fun folderId name archive hs => .inr ⟨hsyncs ▸ hs, by rw [hawaited], .inr rfl⟩
    exact hw.starting folderId name (hsyncs ▸ hs) archive (hfiles name archive ha)
  · exact hw.send_other (.restore 0) none hk

/-- A call of the device begins. -/
theorem Since.begin {k' : ι} {purpose : Purpose} (hw : Since codec k i past w)
    (hsyncs : d.syncs = (w.devices k').syncs ++ [.refreshing purpose]) (hawaited : d.awaited = (w.devices k').awaited)
    (hfiles : d.temporaryFiles = (w.devices k').temporaryFiles) : Since codec k i past (w.update k' d) := by
  by_cases hk : k = k'
  · subst hk
    have hold : ∀ s, (∀ purpose, s ≠ .refreshing purpose) → d.syncs[i]? = some s → (w.devices k).syncs[i]? = some s := by
      intro s hne hs
      rw [hsyncs, List.getElem?_append] at hs
      split at hs
      · exact hs
      · exact absurd (List.mem_singleton.mp (List.mem_of_getElem? hs)) (hne purpose)
    refine hw.send (.restore 0) none (fun folderId name hs archive ha => ?_)
      fun folderId name archive hs => .inr ⟨hold _ nofun hs, by rw [hawaited], .inr rfl⟩
    exact hw.starting folderId name (hold _ nofun hs) archive (hfiles ▸ ha)
  · exact hw.send_other (.restore 0) none hk

omit [DecidableEq ι] in
/-- What an export that does not break off leaves in its file. -/
theorem takenOf_file {x : Exporting} {archive archive' : Archive J} (hpast : w ∈ past)
    (hok : x.writing ≠ .exportFails)
    (h : exportZip codec x.context x.now true (w.devices k).drive.localData.store = .ok archive)
    (hfile : x.writing.file archive = some archive') : TakenOf codec k past archive' := by
  have htaken : TakenOf codec k past archive := ⟨w, hpast, x.context, x.now, h⟩
  cases hwriting : x.writing with
  | notCreated =>
    rw [hwriting] at hfile
    cases hfile
  | exportFails => exact absurd hwriting hok
  | manifestFails | written =>
    rw [hwriting] at hfile
    cases hfile
    exact htaken

/-- A segment of a call of the device, this one or another. -/
theorem Since.segment {j : Nat} {x : Exporting} {s s' : SyncSuspension J} {answer : SyncAnswer J}
    (hw : Since codec k i past w) (hpast : w ∈ past) (hok : x.writing ≠ .exportFails)
    (hs : (w.devices k).syncs[j]? = some s) (h : SyncSegment codec x j s answer s' (w.devices k) d) :
    Since codec k i past (w.send k (.sync j) d ((d.syncs[j]?).bind SyncSuspension.request)) := by
  have hj : d.syncs[j]? = some s' := by
    rw [h.syncs, List.getElem?_set_self (List.getElem?_eq_some_iff.mp hs).1]
  have hfiles : ∀ folderId name, (w.devices k).syncs[i]? = some (.starting folderId name) →
      ∀ archive, d.temporaryFiles name = some archive → TakenOf codec k past archive := by
    intro folderId name hi archive ha
    rcases h.temporaryFiles with hsame | ⟨exported, hexport, hfiles⟩
    · exact hw.starting folderId name hi archive (hsame ▸ ha)
    · rw [hfiles, Function.update_apply] at ha
      split at ha
      · exact takenOf_file hpast hok hexport ha
      · exact hw.starting folderId name hi archive ha
  by_cases hij : j = i
  · subst hij
    refine hw.send _ _ (fun folderId name hi archive ha => ?_) fun folderId name archive hi => .inl ?_
    · cases hj.symm.trans hi
      exact ⟨w, hpast, (h.starting folderId name rfl).2.2 archive ha⟩
    · cases hj.symm.trans hi
      obtain ⟨rfl, ha⟩ := h.uploading folderId name archive rfl
      exact ⟨hw.starting folderId name hs archive ha, rfl, by rw [hj]; rfl⟩
  · have hi : d.syncs[i]? = (w.devices k).syncs[i]? := by rw [h.syncs, List.getElem?_set_ne hij]
    refine hw.send _ _ (fun folderId name hs => hfiles folderId name (hi ▸ hs)) fun folderId name archive hs =>
      .inr ⟨hi ▸ hs, by rw [h.awaited], .inl fun he => hij (Caller.sync.inj he)⟩

end Account

/-- An export of the device breaks off before its records. -/
def AccountAction.BreaksOff {C : Type} (k : ι) : AccountAction ι E C → Prop
  | .sync k' _ x _ => k' = k ∧ x.writing = .exportFails
  | _ => False

namespace Account

variable {codec : PayloadCodec E J} {context : ImportContext} {text : Descriptions} {w w' : Account ι E g}
  {past : Set (Account ι E g)} {k : ι} {i : Nat} [DecidableEq ι]

/-- Each step after which no export of the device has broken off. -/
theorem Since.step (hg : g.Documented) {a : AccountAction ι E g.Choice} (hpast : w ∈ past)
    (hw : Since codec k i past w) (hok : ¬ a.BreaksOff k)
    (h : (machine codec context text).step w a = some w') : Since codec k i (insert w' past) w' := by
  refine Since.mono (Set.subset_insert w' past) ?_
  cases a with
  | user k' localData | connectAndMaybeAutoRestore k' | disconnect k' =>
    obtain rfl := Option.some.inj h
    exact hw.update rfl rfl fun _ _ ha => ha
  | purge k' name =>
    obtain rfl := Option.some.inj h
    refine hw.update rfl rfl fun name' archive ha => ?_
    have hfile : Function.update (w.devices k').temporaryFiles name none name' = some archive := ha
    rw [Function.update_apply] at hfile
    split at hfile
    · exact nomatch hfile
    · exact hfile
  | relaunch k' =>
    obtain rfl := Option.some.inj h
    by_cases hk : k = k'
    · subst hk
      exact hw.send (.restore 0) none nofun nofun
    · exact hw.send_other (.restore 0) none hk
  | syncNow k' isConnected =>
    obtain rfl := Option.some.inj h
    cases isConnected with
    | false => exact hw.update rfl rfl fun _ _ ha => ha
    | true => exact hw.begin rfl rfl rfl
  | listFilesInSynapsFolder k' isConnected =>
    obtain rfl := Option.some.inj h
    cases isConnected with
    | false => exact hw.update rfl rfl fun _ _ ha => ha
    | true => exact hw.begin rfl rfl rfl
  | restore k' j event =>
    obtain ⟨s, answer, drive, -, -, -, rfl⟩ := restoreStep_eq_some h
    by_cases hk : k = k'
    · subst hk
      exact hw.send _ _ hw.starting fun _ _ _ hs => .inr ⟨hs, rfl, .inl nofun⟩
    · exact hw.send_other _ _ hk
  | sync k' j x event =>
    obtain ⟨s, answer, d, hs, -, hd, rfl⟩ := syncStep_eq_some h
    by_cases hk : k = k'
    · subst hk
      obtain ⟨s', hsegment⟩ := syncSegment_of_proceed hd
      exact hw.segment hpast (fun hwriting => hok ⟨rfl, hwriting⟩) hs hsegment
    · exact hw.send_other _ _ hk
  | serve r id =>
    obtain ⟨request, server, reply, hr, hserve, rfl⟩ := serveStep_eq_some h
    exact hw.serve hg hr hserve

/-- Each step keeps what was uploaded. -/
theorem Served.step (hg : g.Documented) {a : AccountAction ι E g.Choice} (hw : Served w)
    (h : (machine codec context text).step w a = some w') : Served w' := by
  cases a with
  | serve r id =>
    obtain ⟨request, server, reply, -, hserve, rfl⟩ := serveStep_eq_some h
    exact hw.serve hg hserve
  | restore k' j event =>
    obtain ⟨s, answer, drive, -, -, -, rfl⟩ := restoreStep_eq_some h
    exact hw.send _ _
  | sync k' j x event =>
    obtain ⟨s, answer, d, -, -, -, rfl⟩ := syncStep_eq_some h
    exact hw.send _ _
  | _ =>
    obtain rfl := Option.some.inj h
    exact hw.send (.restore 0) none

theorem served_run (hg : g.Documented) {localData : ι → Local E} {as : List (AccountAction ι E g.Choice)}
    (h : (machine codec context text).run (opened localData) as = some w) : Served w :=
  (Machine.always_of_invariant (fun _ _ _ => Served.step hg) (fun _ hp => absurd hp List.not_mem_nil) as).last h

omit [DecidableEq ι] in
/-- An export can be imported. -/
theorem imports_of_isExport {s : Store E} {archive : Archive J} (h : IsExport codec s archive)
    (context : ImportContext) (old : Store E) :
    ∃ new, importZip codec context (some archive) old = .ok new := by
  obtain ⟨c, now, h⟩ := h
  obtain ⟨fetched, hf, h⟩ := bind_eq_ok.mp h
  obtain ⟨data, hencode, h⟩ := bind_eq_ok.mp h
  cases h
  obtain ⟨data', hencode', hdecode⟩ := codec.roundTrip (exportPayload now fetched)
  cases hencode.symm.trans hencode'
  exact ⟨_, bind_eq_ok.mpr ⟨_, hdecode, rfl⟩⟩

/-- The call of `syncNow` completes with this step: its upload was accepted. -/
def Completes (w : Account ι E g) (k : ι) (i : Nat) : AccountAction ι E g.Choice → Prop
  | .sync k' j _ .delivered => k' = k ∧ j = i ∧ (w.devices k).syncs[i]?.any SyncSuspension.isUploading = true
  | _ => False

omit [DecidableEq ι] in
theorem exists_uploading (h : (w.devices k).syncs[i]?.any SyncSuspension.isUploading = true) :
    ∃ folderId name archive, (w.devices k).syncs[i]? = some (.uploading folderId name archive) := by
  obtain ⟨s, hs, h⟩ := (Option.any_eq_true _ _).mp h
  cases s with
  | uploading folderId name archive => exact ⟨folderId, name, archive, hs⟩
  | _ => cases h

/-- The upload of the first of two devices is accepted. -/
def accepted : AccountAction Bool Unit String := .sync false 0 plainExporting .delivered

end Account

end SynapsNotes.Sync
