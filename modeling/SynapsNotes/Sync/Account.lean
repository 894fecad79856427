import Mathlib.Logic.Function.Basic
import SynapsNotes.Backup.RoundTrip
import SynapsNotes.Sync.Drive
import SynapsNotes.Sync.GoogleDrive

/-!
# Devices on one account

Any number of devices back up to one Drive account and restore from it. A
device sends its requests to Drive and goes on when a reply is delivered; in
between the service may be slow, other devices are served, and a call may fail
whether or not its request was served. `syncNow` and
`listFilesInSynapsFolder` of `DriveSyncService` are added here to
`connectAndMaybeAutoRestore` of the module on Drive, with the requests of
`DriveAPIClient`.

`syncNow` writes its archive to a file that has the second in its name, and the
upload reads it again later, so the calls of one device may meet in that file.
-/

namespace SynapsNotes.Sync

open Framework Backup

variable {ι E J : Type} {g : GoogleDrive J}

/-! ## A device -/

/-- What a call wants the folder for. -/
inductive Purpose
  | syncNow
  | listFiles
  deriving DecidableEq

/-- Where a call of `syncNow` or `listFilesInSynapsFolder` is suspended. -/
inductive SyncSuspension (J : Type)
  | refreshing (purpose : Purpose)
  | findingFolder (purpose : Purpose) (token : String)
  | creatingFolder (purpose : Purpose) (token : String)
  /-- The upload's first request, which sends nothing of the file. -/
  | starting (folderId : String) (fileName : Text)
  | uploading (folderId : String) (fileName : Text) (archive : Archive J)
  | listingFiles (folderId : String)
  | finished

/-- The call waits for its upload to be accepted. -/
def SyncSuspension.isUploading : SyncSuspension J → Bool
  | uploading _ _ _ => true
  | _ => false

/-- A call of the service, by its place among those that were started. -/
inductive Caller
  | restore (i : Nat)
  | sync (i : Nat)
  deriving DecidableEq

structure Device (E J : Type) where
  drive : Drive E
  syncs : List (SyncSuspension J)
  isSyncing : Bool
  lastSyncAt : Option Date
  temporaryFiles : Text → Option (Archive J)
  /-- The request that a call waits for. -/
  awaited : Caller → Option Nat

/-- How far the archive of an export was written. -/
inductive Writing
  | notCreated
  | exportFails
  | manifestFails
  | written
  deriving DecidableEq

/-- What there is in the file then. -/
def Writing.file (archive : Archive J) : Writing → Option (Archive J)
  | notCreated => none
  | exportFails => some ⟨none⟩
  | manifestFails | written => some archive

/-- What an export is answered. The stamp is the second. -/
structure Exporting where
  context : BackupContext
  now : Date
  stamp : Text
  writing : Writing

/-- What a suspended call of `syncNow` goes on with. -/
inductive SyncAnswer (J : Type)
  | refreshed (accessToken : Option String)
  | replied (reply : Reply J)
  | started (unreadable : String)
  | failed (error : String)

namespace Device

variable (codec : PayloadCodec E J) (text : Descriptions) (x : Exporting) (d : Device E J)

def goSync (i : Nat) (s : SyncSuspension J) : Device E J := { d with syncs := d.syncs.set i s }

/-- The `catch` of `syncNow`, and its `defer`. -/
def failSync (i : Nat) (error : String) : Device E J :=
  { d.goSync i .finished with drive := { d.drive with error := some error, status := none }, isSyncing := false }

/-- An error of `syncNow` is caught, one of `listFilesInSynapsFolder` thrown to
its caller. -/
def fail (i : Nat) (error : String) : Purpose → Device E J
  | .syncNow => d.failSync i error
  | .listFiles => d.goSync i .finished

def fileName : Text := backupPrefix ++ x.stamp ++ ".zip".toList

/-- `exportZip` into the file of the second, which is removed before. -/
def writeBackup (archive : Archive J) : Device E J :=
  { d with temporaryFiles := Function.update d.temporaryFiles (fileName x) (x.writing.file archive) }

/-- `syncNow`, once it has the folder. -/
def exportAndStart (i : Nat) (folderId : String) : Device E J :=
  match exportZip codec x.context x.now true d.drive.localData.store with
  | .error e => d.failSync i (text.backup e)
  | .ok archive =>
    let d := d.writeBackup x archive
    match x.writing with
    | .notCreated => d.failSync i (text.backup .failedToCreateArchive)
    | .exportFails | .manifestFails => d.failSync i (text.backup (.thrown "addEntry"))
    | .written =>
      { d.goSync i (.starting folderId (fileName x)) with drive := { d.drive with status := some "Uploading..." } }

def withFolder (i : Nat) (folderId : String) : Purpose → Device E J
  | .syncNow => d.exportAndStart codec text x i folderId
  | .listFiles => d.goSync i (.listingFiles folderId)

/-- The folder's id is kept. -/
def cacheFolder (i : Nat) (folderId : String) (purpose : Purpose) : Device E J :=
  withFolder codec text x { d with drive := { d.drive with folderId := some folderId } } i folderId purpose

/-- `ensureFolderId`, up to its first call. -/
def ensureFolder (i : Nat) (token : String) (purpose : Purpose) : Device E J :=
  match d.drive.folderId with
  | some cached =>
    if cached = "" then d.goSync i (.findingFolder purpose token) else d.withFolder codec text x i cached purpose
  | none => d.goSync i (.findingFolder purpose token)

def complete (i : Nat) (now : Date) : Device E J :=
  { d.goSync i .finished with
    drive := { d.drive with status := some "Sync complete" }
    isSyncing := false
    lastSyncAt := some now }

/-- The segment of a call of `syncNow` or `listFilesInSynapsFolder` that an
answer sets off. -/
def proceedSync (i : Nat) : SyncSuspension J → SyncAnswer J → Option (Device E J)
  | .refreshing purpose, .refreshed accessToken =>
    match accessToken with
    | none => some (d.fail i text.notAuthenticated purpose)
    | some token => some (d.ensureFolder codec text x i token purpose)
  | .findingFolder purpose token, .replied (.folderFound result) =>
    match result with
    | some found => some (d.cacheFolder codec text x i found purpose)
    | none => some (d.goSync i (.creatingFolder purpose token))
  | .findingFolder purpose _, .failed e => some (d.fail i e purpose)
  | .creatingFolder purpose _, .replied (.folderCreated created) =>
    some (d.cacheFolder codec text x i created purpose)
  | .creatingFolder purpose _, .failed e => some (d.fail i e purpose)
  | .starting folderId name, .started unreadable =>
    match d.temporaryFiles name with
    | none => some (d.failSync i unreadable)
    | some archive => some (d.goSync i (.uploading folderId name archive))
  | .starting _ _, .failed e => some (d.failSync i e)
  | .uploading _ _ _, .replied (.uploaded _) => some (d.complete i x.now)
  | .uploading _ _ _, .failed e => some (d.failSync i e)
  | .listingFiles _, .replied (.listed _) => some (d.goSync i .finished)
  | .listingFiles _, .failed _ => some (d.goSync i .finished)
  | _, _ => none

/-- `syncNow` up to its first `await`. -/
def syncNow (isConnected : Bool) : Device E J :=
  let d := { d with drive := { d.drive with error := none } }
  if !isConnected then { d with drive := { d.drive with error := some "Not connected" } }
  else
    { d with
      isSyncing := true
      drive := { d.drive with status := some "Preparing backup..." }
      syncs := d.syncs ++ [.refreshing .syncNow] }

/-- `listFilesInSynapsFolder` up to its first `await`. -/
def listFilesInSynapsFolder (isConnected : Bool) : Device E J :=
  if !isConnected then d else { d with syncs := d.syncs ++ [.refreshing .listFiles] }

def disconnect : Device E J := { d with drive := { d.drive with status := none, error := none } }

/-- The app is killed and launched again. -/
def relaunch : Device E J :=
  { d with
    drive := Drive.launch d.drive.didAttemptAutoRestore d.drive.folderId d.drive.localData
    syncs := []
    isSyncing := false
    lastSyncAt := none
    awaited := fun _ => none }

end Device

/-! ## The account -/

/-- The request that a suspended call has sent. -/
def Suspension.request : Suspension → Option (Request J)
  | connecting | refreshing | finished => none
  | findingFolder _ => some .findFolderId
  | creatingFolder _ => some .createFolder
  | listing _ folderId => some (.listBackups folderId)
  | downloading _ fileId => some (.downloadFile fileId)

def SyncSuspension.request : SyncSuspension J → Option (Request J)
  | refreshing _ | starting _ _ | finished => none
  | findingFolder _ _ => some .findFolderId
  | creatingFolder _ _ => some .createFolder
  | uploading folderId name archive => some (.uploadResumable folderId name archive)
  | listingFiles folderId => some (.listFiles folderId)

/-- What a suspended restore makes of a reply; `restored` are the files that
the import then finds in the archive. -/
def Reply.answer (restored : List DocumentsItem) : Reply J → Option (Answer J)
  | folderFound id => some (.folderFound (.ok id))
  | folderCreated id => some (.folderCreated (.ok id))
  | listed ids => some (.listed (.ok ids))
  | uploaded _ => none
  | downloaded archive => some (.downloaded (.ok ()) (some archive) restored)

/-- The failure of the call that a restore waits for. -/
def Suspension.failure (error : String) : Suspension → Option (Answer J)
  | connecting | refreshing | finished => none
  | findingFolder _ => some (.folderFound (.error error))
  | creatingFolder _ => some (.folderCreated (.error error))
  | listing _ _ => some (.listed (.error error))
  | downloading _ _ => some (.downloaded (.error error) none [])

/-- What sets a suspended restore off again. -/
inductive RestoreEvent
  | connected (isConnected : Bool) (lastError : Option String) (fetchCount : Except String Unit)
  | refreshed (accessToken : Option String)
  | delivered (restored : List DocumentsItem)
  | failed (error : String)

/-- What sets a suspended call of `syncNow` off again. -/
inductive SyncEvent
  | refreshed (accessToken : Option String)
  | started (unreadable : String)
  | delivered
  | failed (error : String)

/-- The service, the requests with the replies to those that were served, and
the devices. -/
structure Account (ι E : Type) {J : Type} (g : GoogleDrive J) where
  server : g.State
  requests : List (Request J × Option (Reply J))
  devices : ι → Device E J

inductive AccountAction (ι E C : Type)
  /-- The user changes the local data. -/
  | user (k : ι) (localData : Local E)
  | connectAndMaybeAutoRestore (k : ι)
  | restore (k : ι) (i : Nat) (event : RestoreEvent)
  | syncNow (k : ι) (isConnected : Bool)
  | listFilesInSynapsFolder (k : ι) (isConnected : Bool)
  | sync (k : ι) (i : Nat) (x : Exporting) (event : SyncEvent)
  | disconnect (k : ι)
  | relaunch (k : ι)
  /-- The system removes a temporary file. -/
  | purge (k : ι) (name : Text)
  | serve (r : Nat) (choice : C)

namespace Account

variable [DecidableEq ι] (codec : PayloadCodec E J) (context : ImportContext) (text : Descriptions)
  (w : Account ι E g)

/-- What Drive has of the app. -/
def contents : Contents J := g.contents w.server

def update (k : ι) (d : Device E J) : Account ι E g := { w with devices := Function.update w.devices k d }

/-- The device goes on, and its call sends a request, if it has one. -/
def send (k : ι) (caller : Caller) (d : Device E J) : Option (Request J) → Account ι E g
  | none => w.update k d
  | some request =>
    { w.update k { d with awaited := Function.update d.awaited caller (some w.requests.length) } with
      requests := w.requests ++ [(request, none)] }

/-- The reply to the request that a call waits for. -/
def reply (k : ι) (caller : Caller) : Option (Reply J) :=
  ((w.devices k).awaited caller).bind fun r => (w.requests[r]?).bind Prod.snd

/-- The answer that an event gives to a suspended restore. -/
def restoreAnswer (k : ι) (i : Nat) (s : Suspension) : RestoreEvent → Option (Answer J)
  | .connected isConnected lastError fetchCount => some (.connected isConnected lastError fetchCount)
  | .refreshed accessToken => some (.refreshed accessToken)
  | .delivered restored => (w.reply k (.restore i)).bind (Reply.answer restored)
  | .failed error => s.failure error

def syncAnswer (k : ι) (i : Nat) : SyncEvent → Option (SyncAnswer J)
  | .refreshed accessToken => some (.refreshed accessToken)
  | .started unreadable => some (.started unreadable)
  | .delivered => (w.reply k (.sync i)).map .replied
  | .failed error => some (.failed error)

def restoreStep (k : ι) (i : Nat) (event : RestoreEvent) : Option (Account ι E g) := do
  let s ← (w.devices k).drive.calls[i]?
  let answer ← w.restoreAnswer k i s event
  let drive ← (w.devices k).drive.proceed codec context text i s answer
  return w.send k (.restore i) { w.devices k with drive } ((drive.calls[i]?).bind Suspension.request)

def syncStep (k : ι) (i : Nat) (x : Exporting) (event : SyncEvent) : Option (Account ι E g) := do
  let s ← (w.devices k).syncs[i]?
  let answer ← w.syncAnswer k i event
  let d ← (w.devices k).proceedSync codec text x i s answer
  return w.send k (.sync i) d ((d.syncs[i]?).bind SyncSuspension.request)

def serveStep (r : Nat) (choice : g.Choice) : Option (Account ι E g) :=
  match w.requests[r]? with
  | some (request, none) => do
    let (server, reply) ← g.serve w.server choice request
    return { w with server, requests := w.requests.set r (request, some reply) }
  | _ => none

def machine : Machine (Account ι E g) (AccountAction ι E g.Choice) where
  step w
    | .user k localData => some (w.update k { w.devices k with drive := { (w.devices k).drive with localData } })
    | .connectAndMaybeAutoRestore k =>
      let drive := (w.devices k).drive
      some (w.update k { w.devices k with
        drive := { drive with
          error := none, status := some "Connecting...", calls := drive.calls ++ [.connecting] } })
    | .restore k i event => w.restoreStep codec context text k i event
    | .syncNow k isConnected => some (w.update k ((w.devices k).syncNow isConnected))
    | .listFilesInSynapsFolder k isConnected => some (w.update k ((w.devices k).listFilesInSynapsFolder isConnected))
    | .sync k i x event => w.syncStep codec text k i x event
    | .disconnect k => some (w.update k (w.devices k).disconnect)
    | .relaunch k => some (w.update k (w.devices k).relaunch)
    | .purge k name => some (w.update k { w.devices k with
        temporaryFiles := Function.update (w.devices k).temporaryFiles name none })
    | .serve r choice => w.serveStep r choice

end Account

/-- A device after the installation, with the local data it was left. -/
def Device.install (localData : Local E) : Device E J :=
  { drive := Drive.launch false none localData, syncs := [], isSyncing := false, lastSyncAt := none,
    temporaryFiles := fun _ => none, awaited := fun _ => none }

/-- The account before any device connects. -/
def Account.opened (localData : ι → Local E) : Account ι E g :=
  { server := g.opened, requests := [], devices := fun k => .install (localData k) }

/-! ## What a segment does -/

section Segments

variable {codec : PayloadCodec E J} {context : ImportContext} {text : Descriptions} {i : Nat}

/-- The archive is one that an export of the store makes. -/
def IsExport (codec : PayloadCodec E J) (s : Store E) (archive : Archive J) : Prop :=
  ∃ c now, exportZip codec c now true s = .ok archive

/-- A segment of a restore, to the suspension `s'`: the local data changes by
an import only, and the folder's id is kept as it came in. -/
structure RestoreSegment (codec : PayloadCodec E J) (context : ImportContext) (i : Nat) (answer : Answer J)
    (s' : Suspension) (d d' : Drive E) : Prop where
  calls : d'.calls = d.calls.set i s'
  localData : d'.localData = d.localData ∨ ∃ archive restored, answer = .downloaded (.ok ()) archive restored ∧
    importZip codec context archive d.localData.store = .ok d'.localData.store
  folderId : d'.folderId = d.folderId ∨
    ∃ id, d'.folderId = some id ∧ (answer = .folderFound (.ok (some id)) ∨ answer = .folderCreated (.ok id))
  listing : ∀ token folderId, s' = .listing token folderId → d'.folderId = some folderId

theorem restoreSegment_goTo {answer : Answer J} {s' : Suspension} (d : Drive E)
    (h : ∀ token folderId, s' = .listing token folderId → d.folderId = some folderId) :
    RestoreSegment codec context i answer s' d (d.goTo i s') := ⟨rfl, .inl rfl, .inl rfl, h⟩

theorem restoreSegment_fail {answer : Answer J} (d : Drive E) (error : String) :
    RestoreSegment codec context i answer .finished d (d.fail i error) := ⟨rfl, .inl rfl, .inl rfl, nofun⟩

theorem restoreSegment_ensureFolderId {answer : Answer J} (d : Drive E) (token : String) :
    ∃ s', RestoreSegment codec context i answer s' d (d.ensureFolderId i token) := by
  unfold Drive.ensureFolderId
  split
  · rename_i cached hcached
    split
    · exact ⟨_, restoreSegment_goTo d nofun⟩
    · exact ⟨_, restoreSegment_goTo d fun _ _ h => by cases h; exact hcached⟩
  · exact ⟨_, restoreSegment_goTo d nofun⟩

theorem restoreSegment_afterConnect {answer : Answer J} (d : Drive E) (isConnected : Bool) (lastError : Option String)
    (fetchCount : Except String Unit) :
    ∃ s', RestoreSegment codec context i answer s' d (d.afterConnect i isConnected lastError fetchCount) := by
  unfold Drive.afterConnect
  dsimp only
  split
  · exact ⟨.finished, rfl, .inl rfl, .inl rfl, nofun⟩
  split
  · exact ⟨.finished, rfl, .inl rfl, .inl rfl, nofun⟩
  split
  · exact ⟨.finished, rfl, .inl rfl, .inl rfl, nofun⟩
  split
  · exact ⟨.refreshing, rfl, .inl rfl, .inl rfl, nofun⟩
  · exact ⟨.finished, rfl, .inl rfl, .inl rfl, nofun⟩

theorem restoreSegment_importBackup (d : Drive E) (archive : Option (Archive J)) (restored : List DocumentsItem) :
    RestoreSegment codec context i (.downloaded (.ok ()) archive restored) .finished d
      (d.importBackup codec context text i archive restored) := by
  unfold Drive.importBackup
  split
  · exact restoreSegment_fail d _
  · rename_i store hstore
    exact ⟨rfl, .inr ⟨archive, restored, rfl, hstore⟩, .inl rfl, nofun⟩

/-- Every segment of a restore. -/
theorem restoreSegment_of_proceed {d d' : Drive E} {s : Suspension} {answer : Answer J}
    (h : d.proceed codec context text i s answer = some d') : ∃ s', RestoreSegment codec context i answer s' d d' := by
  unfold Drive.proceed at h
  split at h
  · obtain rfl := Option.some.inj h
    exact restoreSegment_afterConnect d _ _ _
  · split at h
    · obtain rfl := Option.some.inj h
      exact ⟨_, restoreSegment_fail d _⟩
    · obtain rfl := Option.some.inj h
      exact restoreSegment_ensureFolderId d _
  · split at h
    · obtain rfl := Option.some.inj h
      exact ⟨_, restoreSegment_fail d _⟩
    · obtain rfl := Option.some.inj h
      exact ⟨_, rfl, .inl rfl, .inr ⟨_, rfl, .inl rfl⟩, fun _ _ h => by cases h; rfl⟩
    · obtain rfl := Option.some.inj h
      exact ⟨_, restoreSegment_goTo d nofun⟩
  · split at h
    · obtain rfl := Option.some.inj h
      exact ⟨_, restoreSegment_fail d _⟩
    · obtain rfl := Option.some.inj h
      exact ⟨_, rfl, .inl rfl, .inr ⟨_, rfl, .inr rfl⟩, fun _ _ h => by cases h; rfl⟩
  · split at h
    · obtain rfl := Option.some.inj h
      exact ⟨_, restoreSegment_fail d _⟩
    · obtain rfl := Option.some.inj h
      exact ⟨.finished, rfl, .inl rfl, .inl rfl, nofun⟩
    · obtain rfl := Option.some.inj h
      exact ⟨.downloading _ _, rfl, .inl rfl, .inl rfl, nofun⟩
  · split at h
    · obtain rfl := Option.some.inj h
      exact ⟨_, restoreSegment_fail d _⟩
    · obtain rfl := Option.some.inj h
      exact ⟨_, restoreSegment_importBackup d _ _⟩
  · exact nomatch h

/-- A segment of `syncNow` or `listFilesInSynapsFolder`, from the suspension
`s` to `s'`: a file is written by an export only, and an upload has what it
reads in the file of its name. -/
structure SyncSegment (codec : PayloadCodec E J) (x : Exporting) (i : Nat) (s : SyncSuspension J)
    (answer : SyncAnswer J) (s' : SyncSuspension J) (d d' : Device E J) : Prop where
  syncs : d'.syncs = d.syncs.set i s'
  awaited : d'.awaited = d.awaited
  calls : d'.drive.calls = d.drive.calls
  localData : d'.drive.localData = d.drive.localData
  temporaryFiles : d'.temporaryFiles = d.temporaryFiles ∨
    ∃ archive, exportZip codec x.context x.now true d.drive.localData.store = .ok archive ∧
      d'.temporaryFiles = Function.update d.temporaryFiles (Device.fileName x) (x.writing.file archive)
  starting : ∀ folderId name, s' = .starting folderId name →
    d'.drive.folderId = some folderId ∧ backupPrefix <+: name ∧
      ∀ archive, d'.temporaryFiles name = some archive → IsExport codec d.drive.localData.store archive
  uploading : ∀ folderId name archive, s' = .uploading folderId name archive →
    s = .starting folderId name ∧ d.temporaryFiles name = some archive
  listingFiles : ∀ folderId, s' = .listingFiles folderId → d'.drive.folderId = some folderId
  folderId : d'.drive.folderId = d.drive.folderId ∨ ∃ id, d'.drive.folderId = some id ∧
    (answer = .replied (.folderFound (some id)) ∨ answer = .replied (.folderCreated id))

variable {x : Exporting} {s : SyncSuspension J} {answer : SyncAnswer J}

theorem syncSegment_goSync {s' : SyncSuspension J} (d : Device E J)
    (h : s' = .finished ∨ (∃ purpose token, s' = .findingFolder purpose token) ∨
      ∃ purpose token, s' = .creatingFolder purpose token) :
    SyncSegment codec x i s answer s' d (d.goSync i s') := by
  obtain rfl | ⟨purpose, token, rfl⟩ | ⟨purpose, token, rfl⟩ := h <;>
    exact ⟨rfl, rfl, rfl, rfl, .inl rfl, nofun, nofun, nofun, .inl rfl⟩

theorem syncSegment_fail (d : Device E J) (error : String) (purpose : Purpose) :
    SyncSegment codec x i s answer .finished d (d.fail i error purpose) := by
  cases purpose with
  | syncNow => exact ⟨rfl, rfl, rfl, rfl, .inl rfl, nofun, nofun, nofun, .inl rfl⟩
  | listFiles => exact syncSegment_goSync d (.inl rfl)

/-- The segment that has the folder's id, which is kept. -/
theorem syncSegment_withFolder {d d₁ : Device E J} {folderId : String} (purpose : Purpose)
    (hd : d₁ = { d with drive := { d.drive with folderId := some folderId } })
    (hid : d.drive.folderId = some folderId ∨
      (answer = .replied (.folderFound (some folderId)) ∨ answer = .replied (.folderCreated folderId))) :
    ∃ s', SyncSegment codec x i s answer s' d (d₁.withFolder codec text x i folderId purpose) := by
  subst hd
  have hfolder : ∀ {o}, o = some folderId → (o = d.drive.folderId ∨ ∃ id, o = some id ∧
      (answer = .replied (.folderFound (some id)) ∨ answer = .replied (.folderCreated id))) := fun ho =>
    hid.imp (fun h => ho.trans h.symm) fun h => ⟨folderId, ho, h⟩
  cases purpose with
  | listFiles =>
    exact ⟨.listingFiles folderId, rfl, rfl, rfl, rfl, .inl rfl, nofun, nofun, fun _ h => by cases h; rfl, hfolder rfl⟩
  | syncNow =>
    unfold Device.withFolder Device.exportAndStart
    dsimp only
    split
    · exact ⟨.finished, rfl, rfl, rfl, rfl, .inl rfl, nofun, nofun, nofun, hfolder rfl⟩
    · rename_i archive harchive
      cases hwriting : x.writing with
      | notCreated | exportFails | manifestFails =>
        exact ⟨.finished, rfl, rfl, rfl, rfl, .inr ⟨archive, harchive, rfl⟩, nofun, nofun, nofun, hfolder rfl⟩
      | written =>
        refine ⟨.starting folderId (Device.fileName x), rfl, rfl, rfl, rfl,
          .inr ⟨archive, harchive, rfl⟩, ?_, nofun, nofun, hfolder rfl⟩
        rintro _ _ ⟨⟩
        have hprefix : backupPrefix <+: Device.fileName x := by
          unfold Device.fileName
          rw [List.append_assoc]
          exact List.prefix_append _ _
        refine ⟨rfl, hprefix, fun archive' harchive' => ⟨x.context, x.now, ?_⟩⟩
        have hfile : Function.update d.temporaryFiles (Device.fileName x) (x.writing.file archive)
            (Device.fileName x) = some archive' := harchive'
        rw [Function.update_self, hwriting] at hfile
        rw [harchive, ← Option.some.inj hfile]

theorem syncSegment_ensureFolder (d : Device E J) (token : String) (purpose : Purpose) :
    ∃ s', SyncSegment codec x i s answer s' d (d.ensureFolder codec text x i token purpose) := by
  unfold Device.ensureFolder
  split
  · rename_i cached hcached
    split
    · exact ⟨_, syncSegment_goSync d (.inr (.inl ⟨_, _, rfl⟩))⟩
    · exact syncSegment_withFolder purpose (by rw [← hcached]) (.inl hcached)
  · exact ⟨_, syncSegment_goSync d (.inr (.inl ⟨_, _, rfl⟩))⟩

/-- Every segment of `syncNow` and `listFilesInSynapsFolder`. -/
theorem syncSegment_of_proceed {d d' : Device E J} (h : d.proceedSync codec text x i s answer = some d') :
    ∃ s', SyncSegment codec x i s answer s' d d' := by
  unfold Device.proceedSync at h
  split at h
  · split at h
    · obtain rfl := Option.some.inj h
      exact ⟨_, syncSegment_fail d _ _⟩
    · obtain rfl := Option.some.inj h
      exact syncSegment_ensureFolder d _ _
  · split at h
    · obtain rfl := Option.some.inj h
      exact syncSegment_withFolder _ rfl (.inr (.inl rfl))
    · obtain rfl := Option.some.inj h
      exact ⟨_, syncSegment_goSync d (.inr (.inr ⟨_, _, rfl⟩))⟩
  · obtain rfl := Option.some.inj h
    exact ⟨_, syncSegment_fail d _ _⟩
  · obtain rfl := Option.some.inj h
    exact syncSegment_withFolder _ rfl (.inr (.inr rfl))
  · obtain rfl := Option.some.inj h
    exact ⟨_, syncSegment_fail d _ _⟩
  · split at h
    · obtain rfl := Option.some.inj h
      exact ⟨_, syncSegment_fail d _ .syncNow⟩
    · rename_i archive harchive
      obtain rfl := Option.some.inj h
      exact ⟨_, rfl, rfl, rfl, rfl, .inl rfl, nofun, fun _ _ _ h => by cases h; exact ⟨rfl, harchive⟩, nofun, .inl rfl⟩
  · obtain rfl := Option.some.inj h
    exact ⟨_, syncSegment_fail d _ .syncNow⟩
  · obtain rfl := Option.some.inj h
    exact ⟨.finished, rfl, rfl, rfl, rfl, .inl rfl, nofun, nofun, nofun, .inl rfl⟩
  · obtain rfl := Option.some.inj h
    exact ⟨_, syncSegment_fail d _ .syncNow⟩
  · obtain rfl := Option.some.inj h
    exact ⟨_, syncSegment_goSync d (.inl rfl)⟩
  · obtain rfl := Option.some.inj h
    exact ⟨_, syncSegment_goSync d (.inl rfl)⟩
  · exact nomatch h

end Segments

/-! ## What a step does -/

namespace Account

variable {codec : PayloadCodec E J} {context : ImportContext} {text : Descriptions} {w w' : Account ι E g}
  {k : ι} {caller : Caller}

theorem serveStep_eq_some {r : Nat} {choice : g.Choice} (h : w.serveStep r choice = some w') :
    ∃ request server reply, w.requests[r]? = some (request, none) ∧
      g.serve w.server choice request = some (server, reply) ∧
      w' = { w with server, requests := w.requests.set r (request, some reply) } := by
  unfold serveStep at h
  split at h
  · rename_i request hr
    obtain ⟨⟨server, reply⟩, hserve, h⟩ := Option.bind_eq_some_iff.mp h
    exact ⟨request, server, reply, hr, hserve, (Option.some.inj h).symm⟩
  · exact nomatch h

/-- The reply to a call is one to a request. -/
theorem exists_of_reply {reply : Reply J} (h : w.reply k caller = some reply) :
    ∃ p ∈ w.requests, p.2 = some reply := by
  obtain ⟨r, -, h⟩ := Option.bind_eq_some_iff.mp h
  obtain ⟨p, hp, h⟩ := Option.bind_eq_some_iff.mp h
  exact ⟨p, List.mem_of_getElem? hp, h⟩

/-- A restore that is answered with a download has been delivered one. -/
theorem restoreAnswer_downloaded {i : Nat} {s : Suspension} {event : RestoreEvent} {archive : Option (Archive J)}
    {restored : List DocumentsItem} (h : w.restoreAnswer k i s event = some (.downloaded (.ok ()) archive restored)) :
    ∃ a, archive = some a ∧ w.reply k (.restore i) = some (.downloaded a) := by
  cases event with
  | delivered files =>
    obtain ⟨reply, hreply, h⟩ := Option.bind_eq_some_iff.mp h
    cases reply with
    | downloaded a =>
      cases h
      exact ⟨a, rfl, hreply⟩
    | _ => cases h
  | failed error => cases s <;> cases h
  | _ => cases h

variable [DecidableEq ι]

theorem update_devices_self (w : Account ι E g) (k : ι) (d : Device E J) : (w.update k d).devices k = d :=
  Function.update_self ..

theorem update_devices_of_ne {k' : ι} (h : k' ≠ k) (w : Account ι E g) (d : Device E J) :
    (w.update k d).devices k' = w.devices k' := Function.update_of_ne h ..

theorem send_contents (w : Account ι E g) (k : ι) (caller : Caller) (d : Device E J) (request : Option (Request J)) :
    (w.send k caller d request).contents = w.contents := by
  cases request <;> rfl

theorem send_requests (w : Account ι E g) (k : ι) (caller : Caller) (d : Device E J) (request : Option (Request J)) :
    (w.send k caller d request).requests = w.requests ++ request.toList.map fun r => (r, none) := by
  cases request with
  | none => exact (List.append_nil _).symm
  | some r => rfl

/-- The device that sends is as it went on, but for what it waits for. -/
theorem send_devices_self (w : Account ι E g) (k : ι) (caller : Caller) (d : Device E J)
    (request : Option (Request J)) :
    ∃ awaited, (w.send k caller d request).devices k = { d with awaited } := by
  cases request with
  | none => exact ⟨d.awaited, update_devices_self w k d⟩
  | some r => exact ⟨_, update_devices_self w k _⟩

theorem send_devices_of_ne {k' : ι} (h : k' ≠ k) (w : Account ι E g) (caller : Caller) (d : Device E J)
    (request : Option (Request J)) : (w.send k caller d request).devices k' = w.devices k' := by
  cases request with
  | none => exact update_devices_of_ne h w d
  | some r => exact update_devices_of_ne h w _

theorem restoreStep_eq_some {i : Nat} {event : RestoreEvent}
    (h : w.restoreStep codec context text k i event = some w') :
    ∃ s answer drive, (w.devices k).drive.calls[i]? = some s ∧ w.restoreAnswer k i s event = some answer ∧
      (w.devices k).drive.proceed codec context text i s answer = some drive ∧
      w' = w.send k (.restore i) { w.devices k with drive } ((drive.calls[i]?).bind Suspension.request) := by
  obtain ⟨s, hs, h⟩ := Option.bind_eq_some_iff.mp h
  obtain ⟨answer, hanswer, h⟩ := Option.bind_eq_some_iff.mp h
  obtain ⟨drive, hdrive, h⟩ := Option.bind_eq_some_iff.mp h
  exact ⟨s, answer, drive, hs, hanswer, hdrive, (Option.some.inj h).symm⟩

theorem syncStep_eq_some {i : Nat} {x : Exporting} {event : SyncEvent}
    (h : w.syncStep codec text k i x event = some w') :
    ∃ s answer d, (w.devices k).syncs[i]? = some s ∧ w.syncAnswer k i event = some answer ∧
      (w.devices k).proceedSync codec text x i s answer = some d ∧
      w' = w.send k (.sync i) d ((d.syncs[i]?).bind SyncSuspension.request) := by
  obtain ⟨s, hs, h⟩ := Option.bind_eq_some_iff.mp h
  obtain ⟨answer, hanswer, h⟩ := Option.bind_eq_some_iff.mp h
  obtain ⟨d, hd, h⟩ := Option.bind_eq_some_iff.mp h
  exact ⟨s, answer, d, hs, hanswer, hd, (Option.some.inj h).symm⟩

end Account

end SynapsNotes.Sync
