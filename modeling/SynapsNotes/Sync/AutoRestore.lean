import SynapsNotes.Backup.RoundTrip
import SynapsNotes.Sync.Drive

/-!
# What an automatic restore imports into

The importer leaves it to its caller that the local data is empty. The caller
looks before it downloads. In between only the user changes the data, and only
one call restores at a time (`Restoring`), so what a restore imports into is
what the user left since then: `importsIntoEmpty_iff`.
-/

namespace SynapsNotes.Sync

open Framework Backup

variable {E J : Type}

namespace Drive

variable {codec : PayloadCodec E J} {context : ImportContext} {text : Descriptions} {d d' : Drive E}

/-- The action makes a call invoke `importZip`. -/
def Imports (d : Drive E) : Action E J → Bool
  | .proceed i (.downloaded (.ok ()) _ _) => d.calls[i]?.any Suspension.isDownloading
  | _ => false

/-- After the sign-in the call looks at the local data, and goes on to a restore. -/
def Begins (d : Drive E) (isConnected : Bool) (fetchCount : Except String Unit) : Bool :=
  isConnected && !d.didAttemptAutoRestore && fetchCount.isOk && d.localData.isEmpty

/-- The action makes a call begin a restore. -/
def Checks (d : Drive E) : Action E J → Bool
  | .proceed i (.connected isConnected _ fetchCount) =>
    d.calls[i]? == some .connecting && d.Begins isConnected fetchCount
  | _ => false

/-- Where this action imports, the local data is empty. -/
def ImportsIntoEmpty (d : Drive E) (a : Action E J) : Prop := d.Imports a = true → d.localData.isEmpty = true

instance (d : Drive E) (a : Action E J) : Decidable (d.ImportsIntoEmpty a) :=
  inferInstanceAs (Decidable (_ → _))

/-- Whether what the user did last to the local data since the last check, if
anything, left it empty; before the action, and after it. -/
def leftEmptyBy (d : Drive E) (leftEmpty : Bool) (a : Action E J) : Bool :=
  match a with
  | .user localData => localData.isEmpty
  | _ => if d.Checks a then true else leftEmpty

variable (codec context text) in
/-- Along a run: whenever a restore imports, what the user did last since its
check, if anything, left the local data empty. -/
def UserLeavesEmpty : Bool → Drive E → List (Action E J) → Prop
  | _, _, [] => True
  | leftEmpty, d, a :: as => ∀ d', (machine codec context text).step d a = some d' →
      (d.Imports a = true → leftEmpty = true) ∧ UserLeavesEmpty (d.leftEmptyBy leftEmpty a) d' as

/-! ## The one call that restores -/

def restoringAt (d : Drive E) (i : Nat) : Bool := d.calls[i]?.any Suspension.isRestoring

/-- At most one call restores; while it does, no other begins to, and whether
the local data is empty is what the user made of it. -/
structure Restoring (leftEmpty : Bool) (d : Drive E) : Prop where
  one : ∀ i j, d.restoringAt i = true → d.restoringAt j = true → i = j
  attempted : ∀ i, d.restoringAt i = true → d.didAttemptAutoRestore = true
  left : ∀ i, d.restoringAt i = true → leftEmpty = d.localData.isEmpty

theorem restoringAt_set {i : Nat} {s s' : Suspension} (hs : d.calls[i]? = some s)
    (hcalls : d'.calls = d.calls.set i s') (j : Nat) :
    d'.restoringAt j = if i = j then s'.isRestoring else d.restoringAt j := by
  have hi := (List.getElem?_eq_some_iff.mp hs).1
  rw [restoringAt, hcalls, List.getElem?_set]
  split
  · subst_vars
    simp only [Option.any_some]
  · rfl

/-- The call moves on, and the local data stays. -/
structure Moves (i : Nat) (s' : Suspension) (d d' : Drive E) : Prop where
  calls : d'.calls = d.calls.set i s'
  localData : d'.localData = d.localData
  attempted : d.didAttemptAutoRestore = true → d'.didAttemptAutoRestore = true

theorem moves_fail (i : Nat) (error : String) : Moves i .finished d (d.fail i error) := ⟨rfl, rfl, id⟩

theorem moves_ensureFolderId (i : Nat) (token : String) :
    ∃ s', s'.isRestoring = true ∧ Moves i s' d (d.ensureFolderId i token) := by
  unfold ensureFolderId
  split
  · split
    · exact ⟨.findingFolder token, rfl, rfl, rfl, id⟩
    · exact ⟨.listing token _, rfl, rfl, rfl, id⟩
  · exact ⟨.findingFolder token, rfl, rfl, rfl, id⟩

/-- After the sign-in a restore begins, of empty data and for the first time,
or the call ends. -/
theorem afterConnect_cases (i : Nat) (isConnected : Bool) (lastError : Option String)
    (fetchCount : Except String Unit) :
    (d.Begins isConnected fetchCount = true ∧
      (d.afterConnect i isConnected lastError fetchCount).didAttemptAutoRestore = true ∧
      Moves i .refreshing d (d.afterConnect i isConnected lastError fetchCount)) ∨
    (d.Begins isConnected fetchCount = false ∧
      Moves i .finished d (d.afterConnect i isConnected lastError fetchCount)) := by
  unfold afterConnect
  dsimp only
  split
  case isTrue hconnected => exact .inr ⟨by simp_all [Begins], rfl, rfl, id⟩
  case isFalse hconnected =>
    split
    case isTrue hattempted => exact .inr ⟨by simp [Begins, hattempted], rfl, rfl, id⟩
    case isFalse hattempted =>
      split
      case h_1 e => exact .inr ⟨by simp [Begins, Except.isOk, Except.toBool], rfl, rfl, fun _ => rfl⟩
      case h_2 =>
        split
        case isTrue hempty =>
          exact .inl ⟨by simp_all [Begins, Except.isOk, Except.toBool], rfl, rfl, rfl, fun _ => rfl⟩
        case isFalse hempty => exact .inr ⟨by simp [Begins, hempty], rfl, rfl, fun _ => rfl⟩

theorem importBackup_calls (i : Nat) (archive : Option (Archive J)) (restored : List DocumentsItem) :
    (d.importBackup codec context text i archive restored).calls = d.calls.set i .finished := by
  unfold importBackup
  split <;> rfl

/-- A call that restores moves on, or imports and ends. -/
theorem proceed_restoring {i : Nat} {s : Suspension} {answer : Answer J} (hs : s.isRestoring = true)
    (h : d.proceed codec context text i s answer = some d') :
    (∃ s', Moves i s' d d') ∨ d'.calls = d.calls.set i .finished := by
  unfold proceed at h
  split at h
  case h_1 => cases hs
  case h_2 =>
    split at h
    · obtain rfl := Option.some.inj h
      exact .inl ⟨_, moves_fail i _⟩
    · obtain rfl := Option.some.inj h
      obtain ⟨s', -, hmoves⟩ := d.moves_ensureFolderId i _
      exact .inl ⟨s', hmoves⟩
  case h_6 =>
    split at h
    · obtain rfl := Option.some.inj h
      exact .inl ⟨_, moves_fail i _⟩
    · obtain rfl := Option.some.inj h
      exact .inr (importBackup_calls i _ _)
  case h_7 => cases h
  all_goals
    split at h
    all_goals
      obtain rfl := Option.some.inj h
      exact .inl ⟨_, rfl, rfl, id⟩

theorem checks_of_restoring {i : Nat} {s : Suspension} (answer : Answer J) (hs : d.calls[i]? = some s)
    (hrestoring : s.isRestoring = true) : d.Checks (.proceed i answer : Action E J) = false := by
  cases answer with
  | connected isConnected lastError fetchCount =>
    have hne : s ≠ .connecting := by
      rintro rfl
      cases hrestoring
    simp only [Checks, hs, beq_iff_eq, Option.some.injEq, hne, Bool.and_eq_false_imp, false_implies]
  | _ => rfl

/-- What a segment of a call can do: begin a restore, of empty data and for
the first time; move on, to a restore only from a restore; or import, and end. -/
theorem proceed_cases {i : Nat} {s : Suspension} {answer : Answer J} (hs : d.calls[i]? = some s)
    (h : d.proceed codec context text i s answer = some d') :
    (d.Checks (.proceed i answer : Action E J) = true ∧ d'.didAttemptAutoRestore = true ∧ Moves i .refreshing d d') ∨
    (d.Checks (.proceed i answer : Action E J) = false ∧
      ((∃ s', Moves i s' d d' ∧ (s'.isRestoring = true → s.isRestoring = true)) ∨
        s.isRestoring = true ∧ d'.calls = d.calls.set i .finished)) := by
  by_cases hrestoring : s.isRestoring = true
  · have hchecks := checks_of_restoring answer hs hrestoring
    obtain ⟨s', hmoves⟩ | hcalls := proceed_restoring hrestoring h
    · exact .inr ⟨hchecks, .inl ⟨s', hmoves, fun _ => hrestoring⟩⟩
    · exact .inr ⟨hchecks, .inr ⟨hrestoring, hcalls⟩⟩
  · cases s with
    | connecting =>
      cases answer with
      | connected isConnected lastError fetchCount =>
        obtain rfl := Option.some.inj h
        obtain ⟨hb, h⟩ | ⟨hb, h⟩ := d.afterConnect_cases i isConnected lastError fetchCount
        · exact .inl ⟨by simp [Checks, hs, hb], h⟩
        · exact .inr ⟨by simp [Checks, hs, hb], .inl ⟨.finished, h, id⟩⟩
      | _ => cases h
    | finished => cases h
    | _ => exact absurd rfl hrestoring

/-! ## Runs -/

theorem restoringAt_connect (j : Nat) (hcalls : d'.calls = d.calls ++ [.connecting]) :
    d'.restoringAt j = d.restoringAt j := by
  simp only [restoringAt, hcalls]
  obtain hj | rfl | hj := lt_trichotomy j d.calls.length
  · rw [List.getElem?_append_left hj]
  · rw [List.getElem?_concat_length, List.getElem?_eq_none le_rfl]
    rfl
  · rw [List.getElem?_eq_none hj.le, List.getElem?_eq_none (by simpa using Nat.succ_le_of_lt hj)]

/-- A call moves on; it restores afterwards only where it did before. -/
theorem Restoring.move {leftEmpty : Bool} (hd : Restoring leftEmpty d) {i : Nat} {s s' : Suspension}
    (hs : d.calls[i]? = some s) (hmoves : Moves i s' d d') (hs' : s'.isRestoring = true → s.isRestoring = true) :
    Restoring leftEmpty d' := by
  have hat (j : Nat) (hj : d'.restoringAt j = true) : d.restoringAt j = true := by
    rw [restoringAt_set hs hmoves.calls] at hj
    split at hj
    · subst_vars
      simpa only [restoringAt, hs, Option.any_some] using hs' hj
    · exact hj
  exact ⟨fun j k hj hk => hd.one j k (hat j hj) (hat k hk), fun j hj => hmoves.attempted (hd.attempted j (hat j hj)),
    fun j hj => hmoves.localData ▸ hd.left j (hat j hj)⟩

/-- The only call that restores ends. -/
theorem Restoring.finish {leftEmpty : Bool} (hd : Restoring leftEmpty d) (leftEmpty' : Bool) {i : Nat} {s : Suspension}
    (hs : d.calls[i]? = some s) (hrestoring : s.isRestoring = true) (hcalls : d'.calls = d.calls.set i .finished) :
    Restoring leftEmpty' d' := by
  have hnone (j : Nat) : ¬ d'.restoringAt j = true := by
    intro hj
    rw [restoringAt_set hs hcalls] at hj
    split at hj
    case isTrue => cases hj
    case isFalse hij => exact hij (hd.one i j (by simpa only [restoringAt, hs, Option.any_some] using hrestoring) hj)
  exact ⟨fun j k hj => absurd hj (hnone j), fun j hj => absurd hj (hnone j), fun j hj => absurd hj (hnone j)⟩

/-- The first restore begins, of empty data. -/
theorem Restoring.begin {leftEmpty : Bool} (hd : Restoring leftEmpty d) {i : Nat} {s : Suspension}
    (hs : d.calls[i]? = some s) (hattempted : d.didAttemptAutoRestore = false)
    (hattempted' : d'.didAttemptAutoRestore = true) (hempty : d.localData.isEmpty = true)
    (hmoves : Moves i .refreshing d d') : Restoring true d' := by
  have hat (j : Nat) (hj : d'.restoringAt j = true) : i = j := by
    by_contra hij
    rw [restoringAt_set hs hmoves.calls, if_neg hij] at hj
    exact Bool.false_ne_true (hattempted.symm.trans (hd.attempted j hj))
  exact ⟨fun j k hj hk => (hat j hj).symm.trans (hat k hk), fun _ _ => hattempted',
    fun _ _ => (hmoves.localData ▸ hempty).symm⟩

theorem checks_spec {i : Nat} {answer : Answer J} (h : d.Checks (.proceed i answer : Action E J) = true) :
    d.didAttemptAutoRestore = false ∧ d.localData.isEmpty = true := by
  cases answer with
  | connected isConnected lastError fetchCount =>
    simp only [Checks, Begins, Bool.and_eq_true, Bool.not_eq_true'] at h
    exact ⟨h.2.1.1.2, h.2.2⟩
  | _ => cases h

/-- Each step keeps at most one restore, and what the user left. -/
theorem Restoring.step {leftEmpty : Bool} (hd : Restoring leftEmpty d) {a : Action E J}
    (h : (machine codec context text).step d a = some d') : Restoring (d.leftEmptyBy leftEmpty a) d' := by
  cases a with
  | connectAndMaybeAutoRestore =>
    obtain rfl := Option.some.inj h
    have hat (j : Nat) : restoringAt { d with calls := d.calls ++ [.connecting] } j = d.restoringAt j :=
      restoringAt_connect j rfl
    exact ⟨fun j k hj hk => hd.one j k (hat j ▸ hj) (hat k ▸ hk), fun j hj => hd.attempted j (hat j ▸ hj),
      fun j hj => hd.left j (hat j ▸ hj)⟩
  | proceed i answer =>
    obtain ⟨s, hs, h⟩ := Option.bind_eq_some_iff.mp h
    obtain ⟨hchecks, hattempted, hmoves⟩ | ⟨hchecks, ⟨s', hmoves, hs'⟩ | ⟨hrestoring, hcalls⟩⟩ := proceed_cases hs h
    · have hbegin := checks_spec hchecks
      simpa only [leftEmptyBy, hchecks, if_true] using hd.begin hs hbegin.1 hattempted hbegin.2 hmoves
    · simpa only [leftEmptyBy, hchecks, Bool.false_eq_true, if_false] using hd.move hs hmoves hs'
    · exact hd.finish _ hs hrestoring hcalls
  | user localData =>
    obtain rfl := Option.some.inj h
    exact ⟨hd.one, hd.attempted, fun _ _ => rfl⟩

theorem restoring_launch (didAttemptAutoRestore : Bool) (folderId : Option String) (localData : Local E) :
    Restoring true (launch didAttemptAutoRestore folderId localData) := by
  have hat (i : Nat) : ¬ (launch didAttemptAutoRestore folderId localData).restoringAt i = true := by
    simp [restoringAt, launch]
  exact ⟨fun i j hi => absurd hi (hat i), fun i hi => absurd hi (hat i), fun i hi => absurd hi (hat i)⟩

/-- A restore imports into what the user left. -/
theorem Restoring.imports {leftEmpty : Bool} (hd : Restoring leftEmpty d) {a : Action E J} :
    d.ImportsIntoEmpty a ↔ (d.Imports a = true → leftEmpty = true) := by
  refine forall_congr' fun h => ?_
  cases a with
  | proceed i answer =>
    cases answer with
    | downloaded result archive restored =>
      cases result with
      | error e => cases h
      | ok u =>
        have hat : d.restoringAt i = true := by
          obtain ⟨s, hs, hdownloading⟩ := (Option.any_eq_true _ _).mp h
          rw [restoringAt, hs]
          cases s with
          | downloading token fileId => rfl
          | _ => cases hdownloading
        rw [hd.left i hat]
    | _ => cases h
  | _ => cases h

theorem steps_iff_userLeavesEmpty {leftEmpty : Bool} (hd : Restoring leftEmpty d) (as : List (Action E J)) :
    (machine codec context text).Steps (fun d a _ => d.ImportsIntoEmpty a) d as ↔
      UserLeavesEmpty codec context text leftEmpty d as := by
  induction as generalizing d leftEmpty with
  | nil => rfl
  | cons a as ih =>
    exact forall_congr' fun d' => forall_congr' fun h => and_congr hd.imports (ih (hd.step h))

/-- The exact condition: a run imports into empty local data only exactly when
at each import the last thing the user did to the local data since the check,
if anything, left it empty. -/
theorem importsIntoEmpty_iff (codec : PayloadCodec E J) (context : ImportContext) (text : Descriptions)
    (didAttemptAutoRestore : Bool) (folderId : Option String) (localData : Local E) (as : List (Action E J)) :
    (machine codec context text).Steps (fun d a _ => d.ImportsIntoEmpty a)
        (launch didAttemptAutoRestore folderId localData) as ↔
      UserLeavesEmpty codec context text true (launch didAttemptAutoRestore folderId localData) as :=
  steps_iff_userLeavesEmpty (restoring_launch didAttemptAutoRestore folderId localData) as

/-- A backup of one note. -/
def oneNoteBackup : Archive (ExportPayloadV1 Unit) :=
  ⟨some ⟨1, 0, [⟨0, "Old", "From the backup", 0, 0, [], none, none, none, none, none, none⟩], none, none, none, []⟩⟩

/-- The user writes a note while the backup is on its way. -/
def noteMeanwhile : List (Action Unit (ExportPayloadV1 Unit)) :=
  [.connectAndMaybeAutoRestore, .proceed 0 (.connected true none (.ok ())), .proceed 0 (.refreshed (some "token")),
    .proceed 0 (.folderFound (.ok (some "folder"))), .proceed 0 (.listed (.ok ["backup"])),
    .user ⟨{ Store.empty Unit with
      notes := [⟨1, "New", "Just written", 9, 9, [], none, none, none, none, none, none⟩] }, []⟩,
    .proceed 0 (.downloaded (.ok ()) (some oneNoteBackup) [])]

theorem not_importsIntoEmpty_noteMeanwhile :
    ¬ (machine (.plain Unit) (.plain 5 20) ⟨"", fun _ => ""⟩).Steps (fun d a _ => d.ImportsIntoEmpty a)
      (launch false none ⟨.empty Unit, []⟩) noteMeanwhile := by
  decide

end Drive

end SynapsNotes.Sync
