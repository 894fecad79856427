import SynapsNotes.Foundation.Search
import SynapsNotes.Framework.Paths

/-!
# The files that an import writes

`importZip` unpacks an archive into a fresh directory, whatever paths its
entries have, and copies what is then below its `Documents` into the app's.
Its calls to the file system are given in order, with their URLs as they are
put together; a URL keeps components such as `..`, and the place of a call is
where they lead.

What is copied stays below Documents (`contained_restoreFile`), since the
names of files that exist are no `..` and taking a path out of them makes none.
What is unpacked goes where the entry says (`writesContained_iff`).
-/

namespace SynapsNotes.Backup

open Framework

/-! ## URLs -/

/-- The components of a file URL, from the root on. -/
abbrev FileURL := List Text

/-- What a component of a URL does. -/
def move (component : Text) : Move Text :=
  if component = [] ∨ component = ['.'] then .here
  else if component = ['.', '.'] then .up
  else .into component

namespace FileURL

/-- The place a URL leads to, by the names on the way. -/
def place (url : FileURL) : List Text := follow [] (url.map move)

/-- `appendingPathComponent`. -/
def appendingPathComponent (url : FileURL) (path : Text) : FileURL :=
  url ++ (path.splitOn '/').filter fun component => component ≠ []

/-- `deletingLastPathComponent`. -/
def deletingLastPathComponent (url : FileURL) : FileURL :=
  if url.getLast? = some ['.', '.'] then url ++ [['.', '.']] else url.dropLast

/-- `path`. -/
def path (url : FileURL) : Text := url.flatMap fun component => '/' :: component

end FileURL

/-- The name of a file that exists. -/
def IsName (component : Text) : Prop :=
  component ≠ [] ∧ component ≠ ['.'] ∧ component ≠ ['.', '.'] ∧ '/' ∉ component

instance (component : Text) : Decidable (IsName component) :=
  inferInstanceAs (Decidable (_ ∧ _ ∧ _ ∧ _))

/-! ## The calls of `importZip` -/

/-- The directories of the app, and the places where there is a directory
before the import. -/
structure Directories where
  temporaryDirectory : FileURL
  documents : FileURL
  /-- "synapsnotes-restore-" and a new UUID. -/
  tmpName : Text
  isDirectory : List Text → Bool
  temporaryDirectory_names : ∀ c ∈ temporaryDirectory, IsName c
  documents_names : ∀ c ∈ documents, IsName c
  tmpName_isName : IsName tmpName
  above_temporaryDirectory : ∀ p, p <+: temporaryDirectory → isDirectory p = true
  above_documents : ∀ p, p <+: documents → isDirectory p = true

/-- A file that the enumerator of a directory yields. -/
structure Enumerated where
  url : FileURL
  names : ∀ c ∈ url, IsName c
  hasDirectoryPath : Bool

/-- What `importZip` is answered: whether it can create its directory, the
entries of the archive, if it is one, each with whether its extraction
throws, whether the payload is there and decodes, and the files that are then
below the unpacked `Documents`. -/
structure Answers where
  createsDirectory : Bool
  archive : Option (List (Text × Bool))
  decodes : Bool
  restored : List Enumerated

/-- The calls that change files, with the URL that is changed. -/
inductive FileCall
  | createDirectory (url : FileURL)
  | extract (url : FileURL)
  | removeItem (url : FileURL)
  | copyItem (url : FileURL)

variable (D : Directories)

def Directories.tmpDir : FileURL := D.temporaryDirectory.appendingPathComponent D.tmpName

/-- The extraction of one entry. -/
def extractEntry (path : Text) : List FileCall :=
  let dest := D.tmpDir.appendingPathComponent path
  [.createDirectory dest.deletingLastPathComponent, .extract dest]

/-- The entries that come to be extracted: those up to the first that
throws. -/
def attempted : List (Text × Bool) → List Text
  | [] => []
  | (path, throws) :: entries => path :: if throws then [] else attempted entries

/-- The restored file, under the app's Documents. -/
def destination (src : FileURL) : FileURL :=
  let restoredDocs := D.tmpDir.appendingPathComponent "Documents".toList
  let relative := Text.replacingOccurrences (restoredDocs.path ++ ['/']) [] src.path
  D.documents.appendingPathComponent relative

/-- One file of the Documents restore; `removeItem` is called where there is a
file already. -/
def restoreFile (src : FileURL) : List FileCall :=
  let dest := destination D src
  [.createDirectory dest.deletingLastPathComponent, .removeItem dest, .copyItem dest]

/-- The calls of `importZip`, the deferred one included. -/
def importCalls (a : Answers) : List FileCall :=
  .createDirectory D.tmpDir ::
    if !a.createsDirectory then []
    else
      (match a.archive with
        | none => []
        | some entries =>
          (attempted entries).flatMap (extractEntry D) ++
            if entries.any (·.2) || !a.decodes then []
            else (a.restored.filter (!·.hasDirectoryPath)).flatMap fun file => restoreFile D file.url) ++
        [.removeItem D.tmpDir]

/-- The places a call may change: a directory that is created, with the missing
ones on the way, component by component, and a file or a tree. -/
def FileCall.Changes : FileCall → List Text → Prop
  | createDirectory url, p => ∃ way, way <+: url ∧ p = FileURL.place way ∧ D.isDirectory p = false
  | extract url, p => p = url.place
  | removeItem url, p | copyItem url, p => url.place <+: p

/-- Below the import's own directory, or below Documents. -/
def Contained (p : List Text) : Prop := D.tmpDir.place <+: p ∨ D.documents.place <+: p

instance (p : List Text) : Decidable (Contained D p) := inferInstanceAs (Decidable (_ ∨ _))

/-- All that an import changes is below its own directory or below
Documents. -/
def WritesContained (a : Answers) : Prop :=
  ∀ call ∈ importCalls D a, ∀ p, call.Changes D p → Contained D p

/-- An entry leads below the import's directory or below Documents, and through
no other place where there is no directory yet. -/
def StaysContained (path : Text) : Prop :=
  let dest := D.tmpDir.appendingPathComponent path
  Contained D dest.place ∧
    ∀ way : FileURL, way <+: dest.deletingLastPathComponent → D.isDirectory way.place = false → Contained D way.place

/-! ## Places -/

theorem move_of_isName {c : Text} (h : IsName c) : move c = .into c := by
  obtain ⟨h₁, h₂, h₃, -⟩ := h
  simp [move, h₁, h₂, h₃]

/-- A URL of names leads to the place they name. -/
theorem place_of_names {url : FileURL} (h : ∀ c ∈ url, IsName c) : url.place = url := by
  have hmap : url.map move = url.map Move.into := List.map_congr_left fun c hc => move_of_isName (h c hc)
  rw [FileURL.place, hmap, follow_into, List.nil_append]

theorem place_appendingPathComponent (url : FileURL) (path : Text) :
    (url.appendingPathComponent path).place =
      follow url.place (((path.splitOn '/').filter fun component => component ≠ []).map move) := by
  rw [FileURL.place, FileURL.appendingPathComponent, List.map_append, follow_append]
  rfl

theorem eq_of_move_eq_up {c : Text} (h : move c = .up) : c = ['.', '.'] := by
  unfold move at h
  split at h
  · cases h
  · split at h
    · assumption
    · cases h

theorem up_notMem {url : FileURL} (h : ['.', '.'] ∉ url) : Move.up ∉ url.map move := by
  intro hup
  obtain ⟨c, hc, hmove⟩ := List.mem_map.mp hup
  rw [eq_of_move_eq_up hmove] at hc
  exact h hc

/-- Without `..`, a URL leads below all the places on its way. -/
theorem place_mono {way url : FileURL} (hway : way <+: url) (h : ['.', '.'] ∉ url) : way.place <+: url.place :=
  follow_mono (hway.map move) (up_notMem h)

theorem deletingLastPathComponent_below {url : FileURL} (h : ['.', '.'] ∉ url) :
    url.deletingLastPathComponent <+: url := by
  have hlast : url.getLast? ≠ some ['.', '.'] := fun he => h (List.mem_of_getLast? he)
  rw [FileURL.deletingLastPathComponent, if_neg hlast]
  exact List.dropLast_prefix url

theorem dots_notMem {url : FileURL} (h : ∀ c ∈ url, IsName c) : ['.', '.'] ∉ url := fun hc => (h _ hc).2.2.1 rfl

/-- A path without `..` adds none to a URL. -/
theorem dots_notMem_appendingPathComponent {url : FileURL} (hurl : ['.', '.'] ∉ url) {path : Text}
    (h : ['.', '.'] ∉ path.splitOn '/') : ['.', '.'] ∉ url.appendingPathComponent path := by
  intro hc
  rcases List.mem_append.mp hc with hc | hc
  · exact hurl hc
  · exact h (List.mem_of_mem_filter hc)

theorem place_name (url : FileURL) {name : Text} (h : IsName name) :
    (url.appendingPathComponent name).place = url.place ++ [name] := by
  rw [place_appendingPathComponent, List.splitOn_eq_singleton h.2.2.2]
  simp [h.1, move_of_isName h, follow, Move.apply]

variable {D}

theorem place_documents : D.documents.place = D.documents := place_of_names D.documents_names

theorem place_tmpDir : D.tmpDir.place = D.temporaryDirectory ++ [D.tmpName] := by
  rw [Directories.tmpDir, place_name _ D.tmpName_isName, place_of_names D.temporaryDirectory_names]

/-- A directory that has to be created on the way to a place below the
import's directory or Documents is itself below it. -/
theorem contained_of_prefix {p q : List Text} (hp : Contained D p) (hq : q <+: p) (hnew : D.isDirectory q = false) :
    Contained D q := by
  rcases hp with htmp | hdocuments
  · rcases List.prefix_or_prefix_of_prefix hq htmp with habove | hbelow
    · rw [place_tmpDir, List.prefix_concat_iff] at habove
      rcases habove with he | habove
      · exact Or.inl (by rw [place_tmpDir, he])
      · rw [D.above_temporaryDirectory q habove] at hnew
        cases hnew
    · exact Or.inl hbelow
  · rcases List.prefix_or_prefix_of_prefix hq hdocuments with habove | hbelow
    · rw [place_documents] at habove
      rw [D.above_documents q habove] at hnew
      cases hnew
    · exact Or.inr hbelow

/-- No directory that is created on a way without `..` is elsewhere. -/
theorem contained_of_way {way url : FileURL} (h : Contained D url.place) (hdots : ['.', '.'] ∉ url) (hway : way <+: url)
    (hnew : D.isDirectory way.place = false) : Contained D way.place :=
  contained_of_prefix h (place_mono hway hdots) hnew

theorem Contained.of_prefix {p q : List Text} (h : Contained D p) (hp : p <+: q) : Contained D q :=
  h.imp (fun h => h.trans hp) fun h => h.trans hp

/-! ## Restored files -/

/-- The pieces of a path that do not lead up. -/
theorem below_of_pieces (url : FileURL) {path : Text} (h : ['.', '.'] ∉ path.splitOn '/') :
    url.place <+: (url.appendingPathComponent path).place := by
  rw [place_appendingPathComponent]
  exact prefix_follow (up_notMem fun hc => h (List.mem_of_mem_filter hc))

/-- Pieces that are no dots stay so when they are joined. -/
def NoDots (c : Text) : Prop := c ≠ ['.'] ∧ c ≠ ['.', '.']

theorem noDots_append (p q : Text) (hp : NoDots p) (hq : NoDots q) : NoDots (p ++ q) := by
  cases p with
  | nil => exact hq
  | cons c p =>
    cases q with
    | nil =>
      rw [List.append_nil]
      exact hp
    | cons d q =>
      constructor
      · intro h
        simp at h
      · intro h
        simp only [List.cons_append, List.cons.injEq, List.append_eq_singleton_iff, List.cons_ne_nil, and_false,
          or_false] at h
        exact hp.1 (by rw [h.1, h.2.1])

/-- A path without dots has none when a directory is taken out of it. -/
theorem noDots_replacingOccurrences {target t : Text} {b : Text} (htarget : target = '/' :: b ++ ['/'])
    (h : ∀ c ∈ t.splitOn '/', NoDots c) : ∀ c ∈ (Text.replacingOccurrences target [] t).splitOn '/', NoDots c := by
  have h0 : target ≠ [] := by rw [htarget]; simp
  induction hn : t.length using Nat.strong_induction_on generalizing t with
  | _ n ih =>
    cases hsplit : Text.splitFirst target t with
    | none =>
      rw [Text.replacingOccurrences_of_none hsplit]
      exact h
    | some p =>
      obtain ⟨before, after⟩ := p
      have ht := Text.eq_of_splitFirst hsplit
      rw [ht, htarget] at h
      rw [Text.replacingOccurrences_of_splitFirst h0 hsplit, List.append_nil]
      refine forall_mem_splitOn_append noDots_append (fun c hc => h c (mem_splitOn_around (Or.inl hc)))
        (ih after.length ?_ (fun c hc => h c (mem_splitOn_around (Or.inr hc))) rfl)
      rw [← hn, ht, htarget]
      simp only [List.length_append, List.length_cons]
      omega

theorem noDots_path {url : FileURL} (h : ∀ c ∈ url, IsName c) : ∀ c ∈ url.path.splitOn '/', NoDots c := by
  induction url with
  | nil =>
    intro c hc
    rw [FileURL.path, List.flatMap_nil, List.splitOn_nil, List.mem_singleton] at hc
    subst hc
    exact ⟨by simp, by simp⟩
  | cons component url ih =>
    obtain ⟨-, hdot, hdots, hslash⟩ := h component List.mem_cons_self
    have hpath : FileURL.path (component :: url) = [] ++ '/' :: (component ++ FileURL.path url) := rfl
    rw [hpath, List.splitOn_append_cons_self]
    intro c hc
    rcases List.mem_append.mp hc with hc | hc
    · rw [List.splitOn_nil, List.mem_singleton] at hc
      subst hc
      exact ⟨by simp, by simp⟩
    · refine forall_mem_splitOn_append noDots_append (fun p hp => ?_)
        (ih fun c hc => h c (List.mem_cons_of_mem _ hc)) c hc
      rw [List.splitOn_eq_singleton hslash, List.mem_singleton] at hp
      subst hp
      exact ⟨hdot, hdots⟩

/-- What `importZip` takes for the path of a restored file has no `..`. -/
theorem dots_notMem_relative {src : FileURL} (h : ∀ c ∈ src, IsName c) :
    ['.', '.'] ∉ (Text.replacingOccurrences ((D.tmpDir.appendingPathComponent "Documents".toList).path ++ ['/']) []
      src.path).splitOn '/' := by
  have htarget : ∃ b, (D.tmpDir.appendingPathComponent "Documents".toList).path ++ ['/'] = '/' :: b ++ ['/'] := by
    have hurl : D.tmpDir.appendingPathComponent "Documents".toList = D.tmpDir ++ ["Documents".toList] :=
      congrArg (D.tmpDir ++ ·) (by decide)
    rw [hurl]
    cases D.tmpDir with
    | nil => exact ⟨"Documents".toList, rfl⟩
    | cons c url => exact ⟨c ++ FileURL.path (url ++ ["Documents".toList]), rfl⟩
  obtain ⟨b, hb⟩ := htarget
  exact fun hc => (noDots_replacingOccurrences hb (noDots_path h) _ hc).2 rfl

theorem contained_restoreFile {src : FileURL} (h : ∀ c ∈ src, IsName c) {call : FileCall}
    (hcall : call ∈ restoreFile D src) {p : List Text} (hp : call.Changes D p) : Contained D p := by
  have hrelative := dots_notMem_relative (D := D) h
  have hdots : ['.', '.'] ∉ destination D src :=
    dots_notMem_appendingPathComponent (dots_notMem D.documents_names) hrelative
  have hdest : Contained D (destination D src).place := Or.inr (below_of_pieces _ hrelative)
  simp only [restoreFile, List.mem_cons, List.not_mem_nil, or_false] at hcall
  rcases hcall with rfl | rfl | rfl
  · obtain ⟨way, hway, rfl, hnew⟩ := hp
    exact contained_of_way hdest hdots (hway.trans (deletingLastPathComponent_below hdots)) hnew
  · exact hdest.of_prefix hp
  · exact hdest.of_prefix hp

/-! ## Entries -/

/-- What an entry has changed. -/
theorem staysContained_iff {path : Text} : StaysContained D path ↔
    ∀ call ∈ extractEntry D path, ∀ p, call.Changes D p → Contained D p := by
  constructor
  · rintro ⟨hfile, hways⟩ call hcall p hp
    simp only [extractEntry, List.mem_cons, List.not_mem_nil, or_false] at hcall
    rcases hcall with rfl | rfl
    · obtain ⟨way, hway, rfl, hnew⟩ := hp
      exact hways way hway hnew
    · rw [show p = _ from hp]
      exact hfile
  · intro h
    refine ⟨h _ (List.mem_cons_of_mem _ List.mem_cons_self) _ rfl, fun way hway hnew => ?_⟩
    exact h _ List.mem_cons_self _ ⟨way, hway, rfl, hnew⟩

theorem dots_notMem_tmpDir : ['.', '.'] ∉ D.tmpDir := by
  refine dots_notMem_appendingPathComponent (dots_notMem D.temporaryDirectory_names) ?_
  rw [List.splitOn_eq_singleton D.tmpName_isName.2.2.2, List.mem_singleton]
  exact D.tmpName_isName.2.2.1.symm

/-- In particular an entry without a component `..`. -/
theorem staysContained_of_noDots {path : Text} (h : ['.', '.'] ∉ path.splitOn '/') : StaysContained D path := by
  have hfile : Contained D (D.tmpDir.appendingPathComponent path).place := Or.inl (below_of_pieces _ h)
  have hdots := dots_notMem_appendingPathComponent (dots_notMem_tmpDir (D := D)) h
  exact ⟨hfile, fun way hway hnew =>
    contained_of_way hfile hdots (hway.trans (deletingLastPathComponent_below hdots)) hnew⟩

/-! ## The whole import -/

/-- The entries that an import comes to extract. -/
def Answers.entries (a : Answers) : List Text :=
  if a.createsDirectory then (a.archive.map attempted).getD [] else []

theorem mem_importCalls_of_entry {a : Answers} {path : Text} (h : path ∈ a.entries) {call : FileCall}
    (hcall : call ∈ extractEntry D path) : call ∈ importCalls D a := by
  unfold Answers.entries at h
  split at h
  · rename_i hcreates
    cases harchive : a.archive with
    | none =>
      rw [harchive] at h
      cases h
    | some entries =>
      rw [harchive] at h
      have hmem : call ∈ (attempted entries).flatMap (extractEntry D) := List.mem_flatMap.mpr ⟨path, h, hcall⟩
      simp only [importCalls, hcreates, harchive]
      exact List.mem_cons_of_mem _ (List.mem_append_left _ (List.mem_append_left _ hmem))
  · cases h

/-- The calls of an import: for its directory, for an entry, or for a restored
file. -/
theorem mem_importCalls {a : Answers} {call : FileCall} (h : call ∈ importCalls D a) :
    call = .createDirectory D.tmpDir ∨ call = .removeItem D.tmpDir ∨
      (∃ path ∈ a.entries, call ∈ extractEntry D path) ∨ ∃ file ∈ a.restored, call ∈ restoreFile D file.url := by
  rcases List.mem_cons.mp h with h | h
  · exact Or.inl h
  split at h
  · cases h
  rename_i hcreates
  rcases List.mem_append.mp h with h | h
  · refine Or.inr (Or.inr ?_)
    have hentries : a.entries = (a.archive.map attempted).getD [] := if_pos (by simpa using hcreates)
    rw [hentries]
    split at h
    · cases h
    · rename_i entries harchive
      rw [harchive]
      rcases List.mem_append.mp h with h | h
      · exact Or.inl (List.mem_flatMap.mp h)
      · split at h
        · cases h
        · obtain ⟨file, hfile, h⟩ := List.mem_flatMap.mp h
          exact Or.inr ⟨file, List.mem_of_mem_filter hfile, h⟩
  · exact Or.inr (Or.inl (List.mem_singleton.mp h))

/-- Where the entries stay below the import's directory or Documents, so does
all that the import does. -/
theorem writesContained_of_entries {a : Answers} (h : ∀ path ∈ a.entries, StaysContained D path) :
    WritesContained D a := by
  intro call hcall p hp
  have htmp : Contained D D.tmpDir.place := Or.inl (List.prefix_refl _)
  rcases mem_importCalls hcall with rfl | rfl | ⟨path, hpath, hcall⟩ | ⟨file, -, hcall⟩
  · obtain ⟨way, hway, rfl, hnew⟩ := hp
    exact contained_of_way htmp dots_notMem_tmpDir hway hnew
  · exact htmp.of_prefix hp
  · exact staysContained_iff.mp (h path hpath) call hcall p hp
  · exact contained_restoreFile file.names hcall hp

/-- Every archive without a component `..` in the paths of its entries. -/
theorem writesContained_of_noDots {a : Answers} (h : ∀ path ∈ a.entries, ['.', '.'] ∉ path.splitOn '/') :
    WritesContained D a :=
  writesContained_of_entries fun path hpath => staysContained_of_noDots (h path hpath)

/-- Whatever an archive holds, and whatever else happens: an import writes
below its own directory and below Documents only, exactly if the entries it
comes to extract stay there. -/
theorem writesContained_iff (D : Directories) (a : Answers) :
    WritesContained D a ↔ ∀ path ∈ a.entries, StaysContained D path :=
  ⟨fun h _ hpath => staysContained_iff.mpr fun call hcall => h call (mem_importCalls_of_entry hpath hcall),
    writesContained_of_entries⟩

/-- The directories of an app's container. -/
def container : Directories where
  temporaryDirectory := ["tmp".toList]
  documents := ["Documents".toList]
  tmpName := "synapsnotes-restore-1".toList
  isDirectory p := p == [] || p == ["tmp".toList] || p == ["Documents".toList]
  temporaryDirectory_names := by decide
  documents_names := by decide
  tmpName_isName := by decide
  above_temporaryDirectory p h := by
    rcases List.prefix_concat_iff.mp (show p <+: [] ++ ["tmp".toList] from h) with rfl | h
    · decide
    · rw [List.prefix_nil.mp h]
      rfl
  above_documents p h := by
    rcases List.prefix_concat_iff.mp (show p <+: [] ++ ["Documents".toList] from h) with rfl | h
    · decide
    · rw [List.prefix_nil.mp h]
      rfl

/-- An archive with one entry. -/
def oneEntry (path : String) : Answers where
  createsDirectory := true
  archive := some [(path.toList, false)]
  decodes := false
  restored := []

/-- An entry that leads out of the import's directory is written there. -/
theorem not_writesContained_up : ¬ WritesContained container (oneEntry "../../Library/app.sqlite") := by
  intro h
  have hmem : "../../Library/app.sqlite".toList ∈ (oneEntry "../../Library/app.sqlite").entries := List.mem_cons_self
  exact absurd (h _ (mem_importCalls_of_entry hmem (List.mem_cons_of_mem _ List.mem_cons_self)) _ rfl) (by decide)

end SynapsNotes.Backup
