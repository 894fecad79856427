import SynapsNotes.Backup.Payload
import SynapsNotes.Framework.Transition

/-!
# Restoring from Drive

`connectAndMaybeAutoRestore` of `DriveSyncService`, from one `await` to the
next, among whatever the user does to the local data meanwhile. What the
sign-in, the Drive API and the archive come to is part of the action.

Whether the local data is empty is asked once, after the sign-in. The
download that follows takes several calls.
-/

namespace SynapsNotes.Sync

open Framework Backup

variable {E J : Type}

/-! ## The local data -/

/-- An entry below Documents, as the enumerator yields it. -/
structure DocumentsItem where
  isHidden : Bool
  hasDirectoryPath : Bool
  deriving DecidableEq

/-- The records of the store and the entries below Documents. -/
structure Local (E : Type) where
  store : Store E
  documents : List DocumentsItem

/-- The answer of `isLocalEmpty`, where the fetches succeed. -/
def Local.isEmpty (l : Local E) : Bool :=
  if 0 < l.store.notes.length ∨ 0 < l.store.messages.length ∨ 0 < l.store.documents.length then false
  else (l.documents.filter (!·.isHidden)).all (·.hasDirectoryPath)

/-! ## The state -/

/-- Where a call of `connectAndMaybeAutoRestore` is suspended, with what it
needs afterwards. -/
inductive Suspension
  | connecting
  | refreshing
  | findingFolder (token : String)
  | creatingFolder (token : String)
  | listing (token folderId : String)
  | downloading (token fileId : String)
  | finished
  deriving DecidableEq

/-- The call has found the local data empty, and may import. -/
def Suspension.isRestoring : Suspension → Bool
  | connecting | finished => false
  | refreshing | findingFolder _ | creatingFolder _ | listing _ _ | downloading _ _ => true

/-- The call waits for the backup it will import. -/
def Suspension.isDownloading : Suspension → Bool
  | downloading _ _ => true
  | _ => false

structure Drive (E : Type) where
  status : Option String
  error : Option String
  didAttemptAutoRestore : Bool
  folderId : Option String
  localData : Local E
  calls : List Suspension

/-- What a suspended call goes on with. An error is its localized
description. -/
inductive Answer (J : Type)
  | connected (isConnected : Bool) (lastError : Option String) (fetchCount : Except String Unit)
  | refreshed (accessToken : Option String)
  | folderFound (result : Except String (Option String))
  | folderCreated (result : Except String String)
  | listed (result : Except String (List String))
  | downloaded (result : Except String Unit) (archive : Option (Archive J)) (restored : List DocumentsItem)

inductive Action (E J : Type)
  | connectAndMaybeAutoRestore
  | proceed (call : Nat) (answer : Answer J)
  /-- The user changes the local data. -/
  | user (localData : Local E)

/-- The localized descriptions of the app's own errors. -/
structure Descriptions where
  notAuthenticated : String
  backup : BackupError → String

namespace Drive

variable (codec : PayloadCodec E J) (context : ImportContext) (text : Descriptions) (d : Drive E)

/-- The call goes on to its next `await`, or ends. -/
def goTo (i : Nat) (s : Suspension) : Drive E := { d with calls := d.calls.set i s }

/-- The `catch` of the call. -/
def fail (i : Nat) (error : String) : Drive E := { d.goTo i .finished with error := some error, status := none }

/-- After the sign-in: the local data is looked at, once and for all. -/
def afterConnect (i : Nat) (isConnected : Bool) (lastError : Option String) (fetchCount : Except String Unit) :
    Drive E :=
  if !isConnected then { d.goTo i .finished with error := lastError, status := none }
  else
    let d := { d with status := some "Connected" }
    if d.didAttemptAutoRestore then d.goTo i .finished
    else
      let d := { d with didAttemptAutoRestore := true }
      match fetchCount with
      | .error e => d.fail i e
      | .ok () =>
        if d.localData.isEmpty then { d.goTo i .refreshing with status := some "Checking backups..." }
        else d.goTo i .finished

/-- `ensureFolderId`, up to its first call. -/
def ensureFolderId (i : Nat) (token : String) : Drive E :=
  match d.folderId with
  | some cached => if cached = "" then d.goTo i (.findingFolder token) else d.goTo i (.listing token cached)
  | none => d.goTo i (.findingFolder token)

/-- The folder's id is kept, and its backups are listed. -/
def cacheFolderId (i : Nat) (token folderId : String) : Drive E :=
  { d.goTo i (.listing token folderId) with folderId := some folderId }

/-- `importZip` of the archive that was downloaded, and what follows it. -/
def importBackup (i : Nat) (archive : Option (Archive J)) (restored : List DocumentsItem) : Drive E :=
  match importZip codec context archive d.localData.store with
  | .error e => d.fail i (text.backup e)
  | .ok store =>
    { d.goTo i .finished with
      localData := ⟨store, d.localData.documents ++ restored⟩
      status := some "Restored latest backup" }

/-- The segment of a call that an answer sets off. -/
def proceed (i : Nat) : Suspension → Answer J → Option (Drive E)
  | .connecting, .connected isConnected lastError fetchCount =>
    some (d.afterConnect i isConnected lastError fetchCount)
  | .refreshing, .refreshed accessToken =>
    match accessToken with
    | none => some (d.fail i text.notAuthenticated)
    | some token => some (d.ensureFolderId i token)
  | .findingFolder token, .folderFound result =>
    match result with
    | .error e => some (d.fail i e)
    | .ok (some found) => some (d.cacheFolderId i token found)
    | .ok none => some (d.goTo i (.creatingFolder token))
  | .creatingFolder token, .folderCreated result =>
    match result with
    | .error e => some (d.fail i e)
    | .ok created => some (d.cacheFolderId i token created)
  | .listing token _, .listed result =>
    match result with
    | .error e => some (d.fail i e)
    | .ok [] => some { d.goTo i .finished with status := some "No backups found" }
    | .ok (latest :: _) => some { d.goTo i (.downloading token latest) with status := some "Restoring..." }
  | .downloading _ _, .downloaded result archive restored =>
    match result with
    | .error e => some (d.fail i e)
    | .ok () => some (d.importBackup codec context text i archive restored)
  | _, _ => none

def machine : Machine (Drive E) (Action E J) where
  step d
    | .connectAndMaybeAutoRestore =>
      some { d with error := none, status := some "Connecting...", calls := d.calls ++ [.connecting] }
    | .proceed i answer => (d.calls[i]?).bind fun s => d.proceed codec context text i s answer
    | .user localData => some { d with localData }

/-- The service when the app is launched. -/
def launch (didAttemptAutoRestore : Bool) (folderId : Option String) (localData : Local E) : Drive E :=
  { status := none, error := none, didAttemptAutoRestore, folderId, localData, calls := [] }

end Drive

end SynapsNotes.Sync
