import SynapsNotes.Backup.Archive
import SynapsNotes.Backup.RoundTrip

/-!
# A backup with the files below Documents

Beside the payload, an archive has a manifest and the visible files below the
app's Documents, under paths that are taken out of their URLs as texts. An
importer unpacks all of it into a fresh directory, inserts the records, copies
the visible files below the unpacked `Documents` in place of what the device
has there, and removes its directory.

The two meet at the tree of what is unpacked (`unpackedTree`): the entries of
an export unpack to it (`unpackAll_joined`), and an import that has unpacked
it copies the exported files and leaves no other trace (`restoreDocuments_eq`).
-/

namespace SynapsNotes.Backup

open Framework

/-! ## Files -/

/-- What `.skipsHiddenFiles` does not skip. -/
def IsVisible (p : List Text) : Prop := ∀ c ∈ p, c.head? ≠ some '.'

instance (p : List Text) : Decidable (IsVisible p) := inferInstanceAs (Decidable (∀ _ ∈ _, _))

/-- The order in which the enumerator of a directory yields its files. -/
structure Enumeration where
  order : ∀ {α : Type}, List α → List α
  order_perm : ∀ {α : Type} (l : List α), (order l).Perm l

/-- The files below a directory that are visible there. -/
def visibleFiles {J : Type} (root : List Text) (disk : Disk J) : Disk J :=
  (FileTree.below root disk).filter fun f => IsVisible f.1

namespace Documents

variable {E J : Type}

/-- `recursiveFiles` and `recursiveDocumentFiles`, without the directories. -/
def recursiveFiles (o : Enumeration) (root : FileURL) (disk : Disk J) : List (FileURL × J) :=
  (o.order (visibleFiles root.place disk)).map fun f => (root ++ f.1, f.2)

/-- The path of a file below a directory, taken out of its URL. -/
def relative (root file : FileURL) : Text := Text.replacingOccurrences (root.path ++ ['/']) [] file.path

/-! ## Export -/

structure ExportManifestV1 where
  version : Int
  createdAt : Date
  noteCount : Int
  knowledgeDocumentCount : Option Int
  knowledgeChunkCount : Option Int
  chatSessionCount : Option Int
  chatMessageCount : Int
  appVersion : Option String

/-- What an export is answered: the times, the manifest's encoding, and what the
enumerator of Documents yields. -/
structure ExportContext (J : Type) where
  exportedAt : Date
  createdAt : Date
  appVersion : Option String
  encodeManifest : ExportManifestV1 → Except BackupError J
  documents : FileURL
  enumeration : Enumeration

def exportManifest (c : ExportContext J) (s : Store E) : ExportManifestV1 where
  version := 5
  createdAt := c.createdAt
  noteCount := s.notes.length
  knowledgeDocumentCount := some s.documents.length
  knowledgeChunkCount := some s.chunks.length
  chatSessionCount := some s.sessions.length
  chatMessageCount := s.messages.length
  appVersion := c.appVersion

def entryPath (docs file : FileURL) : Text := "Documents/".toList ++ relative docs file

/-- `addEntry` for one of the two JSON files, which throws. -/
def addJSON (z : ZIPFoundation J) (archive : z.Archive) (path : String) (data : J) : Except BackupError z.Archive :=
  (z.addEntry archive path.toList data).2.map fun _ => (z.addEntry archive path.toList data).1

/-- The loop over the files below Documents, with `try?`. -/
def addDocuments (z : ZIPFoundation J) (docs : FileURL) (files : List (FileURL × J)) (archive : z.Archive) :
    z.Archive :=
  files.foldl (fun archive file => (z.addEntry archive (entryPath docs file.1) file.2).1) archive

def exportZip (z : ZIPFoundation J) (codec : PayloadCodec E J) (b : BackupContext) (c : ExportContext J) (s : Store E)
    (disk : Disk J) : Except BackupError z.Archive := do
  let fetched ← fetchStore b s
  let exportData ← codec.encode (exportPayload c.exportedAt fetched)
  let manifestData ← c.encodeManifest (exportManifest c fetched)
  match z.create with
  | none => throw .failedToCreateArchive
  | some archive =>
    let archive ← addJSON z archive "export.json" exportData
    let archive ← addJSON z archive "manifest.json" manifestData
    return addDocuments z c.documents (recursiveFiles c.enumeration c.documents disk) archive

/-! ## Import -/

/-- The entries up to the first whose extraction throws, and whether none
does. -/
def unpackAll (z : ZIPFoundation J) (D : Directories) : List z.Entry → Disk J → Disk J × Except BackupError Unit
  | [], disk => (disk, .ok ())
  | entry :: entries, disk =>
    match z.extract D.isDirectory entry (D.tmpDir.appendingPathComponent (z.path entry)) disk with
    | (disk, .error e) => (disk, .error e)
    | (disk, .ok ()) => unpackAll z D entries disk

/-- The loop over the files below the unpacked `Documents`. -/
def restoreDocuments (D : Directories) (o : Enumeration) (disk : Disk J) : Disk J :=
  let restoredDocs := D.tmpDir.appendingPathComponent "Documents".toList
  let files := (recursiveFiles o restoredDocs disk).map Prod.fst
  files.foldl (fun disk src => disk.copy src.place (destination D src).place) disk

/-- What `importZip` decodes, once the archive is unpacked. -/
def readPayload (codec : PayloadCodec E J) (D : Directories) (disk : Disk J) : Except BackupError (ExportPayloadV1 E) :=
  match disk.read (D.tmpDir.appendingPathComponent "export.json".toList).place with
  | none => throw .missingExportJSON
  | some data => codec.decode data

/-- What the import returns or throws, and the files that it leaves. -/
def importZip (z : ZIPFoundation J) (codec : PayloadCodec E J) (c : ImportContext) (D : Directories) (o : Enumeration)
    (createsDirectory : Bool) (archive : Option z.Archive) (s : Store E) (disk : Disk J) :
    Except BackupError (Store E) × Disk J :=
  if !createsDirectory then (.error (.thrown "createDirectory"), disk)
  else
    match archive with
    | none => (.error .failedToCreateArchive, disk.removeBelow D.tmpDir.place)
    | some archive =>
      match unpackAll z D (z.entries archive) disk with
      | (unpacked, .error e) => (.error e, unpacked.removeBelow D.tmpDir.place)
      | (unpacked, .ok ()) =>
        match readPayload codec D unpacked with
        | .error e => (.error e, unpacked.removeBelow D.tmpDir.place)
        | .ok payload =>
          (.ok (importPayload c payload s), (restoreDocuments D o unpacked).removeBelow D.tmpDir.place)

/-! ## Paths as texts -/

/-- The names on the way to a file, written as a path. -/
def joined (names : List Text) : Text := ['/'].intercalate names

/-- A directory does not occur again in the way to a file below it. -/
def Once (root : FileURL) (names : List Text) : Prop := ¬ root.path ++ ['/'] <:+: joined names

instance (root : FileURL) (names : List Text) : Decidable (Once root names) := inferInstanceAs (Decidable (¬ _))

theorem path_append (root names : FileURL) : (root ++ names).path = root.path ++ names.path := List.flatMap_append

theorem path_eq_joined {names : List Text} (h : names ≠ []) : FileURL.path names = '/' :: joined names := by
  obtain ⟨name, names, rfl⟩ := List.exists_cons_of_ne_nil h
  clear h
  induction names generalizing name with
  | nil => simp [FileURL.path, joined]
  | cons name' names ih =>
    have hrest := ih name'
    rw [FileURL.path] at hrest ⊢
    rw [List.flatMap_cons, hrest, joined, joined, List.intercalate_cons_cons, List.append_assoc]
    rfl

/-- The path that is taken out is the way to the file. -/
theorem relative_append {root names : List Text} (h : names ≠ []) (honce : Once root names) :
    relative root (root ++ names) = joined names := by
  have h0 : FileURL.path root ++ ['/'] ≠ [] := by simp
  have hsplit : Text.splitFirst (FileURL.path root ++ ['/']) (FileURL.path root ++ ['/'] ++ joined names) =
      some ([], joined names) := by
    cases hp : FileURL.path root ++ ['/'] ++ joined names with
    | nil => simp at hp
    | cons c t =>
      rw [Text.splitFirst, if_pos (List.isPrefixOf_iff_prefix.mpr (hp ▸ List.prefix_append _ _)), ← hp, List.drop_left]
  have hpath : FileURL.path (root ++ names) = FileURL.path root ++ ['/'] ++ joined names := by
    rw [path_append, path_eq_joined h, List.append_assoc]
    rfl
  rw [relative, hpath, Text.replacingOccurrences_of_splitFirst h0 hsplit,
    Text.replacingOccurrences_of_none ((Text.splitFirst_eq_none_iff h0).mpr honce)]
  rfl

/-- A path of names, read as a path again. -/
theorem place_joined (url : FileURL) {names : List Text} (h0 : names ≠ []) (h : ∀ c ∈ names, IsName c) :
    (url.appendingPathComponent (joined names)).place = url.place ++ names := by
  have hfilter : (names.filter fun component => component ≠ []) = names :=
    List.filter_eq_self.mpr fun c hc => decide_eq_true (h c hc).1
  have hmap : names.map move = names.map Move.into := List.map_congr_left fun c hc => move_of_isName (h c hc)
  rw [place_appendingPathComponent, joined, List.splitOn_intercalate '/' (fun c hc => (h c hc).2.2.2) h0, hfilter,
    hmap, follow_into]

/-- Below `Documents`, a path has one more name. -/
theorem documents_joined {names : List Text} (h : names ≠ []) :
    "Documents/".toList ++ joined names = joined ("Documents".toList :: names) := by
  rw [joined, joined, List.intercalate_cons_of_ne_nil h]
  rfl

/-- A URL that goes on with names. -/
theorem place_append (url : FileURL) {names : List Text} (h : ∀ c ∈ names, IsName c) :
    FileURL.place (url ++ names) = url.place ++ names := by
  have hmap : names.map move = names.map Move.into := List.map_congr_left fun c hc => move_of_isName (h c hc)
  rw [FileURL.place, List.map_append, follow_append, hmap, follow_into]
  rfl

/-! ## Unpacking -/

/-- What is below the import's directory when an export is unpacked. -/
def unpackedTree (exportData manifestData : J) (files : Disk J) : Disk J :=
  (["export.json".toList], exportData) :: (["manifest.json".toList], manifestData) ::
    files.map fun f => ("Documents".toList :: f.1, f.2)

/-- A tree of files with names, and Documents is none of them. -/
structure IsTree (documents : FileURL) (disk : Disk J) : Prop where
  proper : disk.Proper
  names : ∀ f ∈ disk, ∀ c ∈ f.1, IsName c
  documents : ∀ f ∈ disk, f.1 ≠ documents.place

/-- The directory of the import is new, on a device where Documents is not in
it. -/
structure Fresh (D : Directories) (disk : Disk J) : Prop where
  proper : disk.Proper
  isDirectory : ∀ p, D.tmpDir.place <+: p → D.isDirectory p = false
  apart : ∀ g ∈ disk, FileTree.Apart D.tmpDir.place g.1
  documents : FileTree.Apart D.tmpDir.place D.documents.place

/-- Files that can be below a directory. -/
def AreFiles (files : Disk J) : Prop := files.Proper ∧ ∀ f ∈ files, f.1 ≠ [] ∧ ∀ c ∈ f.1, IsName c

theorem IsTree.areFiles {documents : FileURL} {disk : Disk J} (h : IsTree documents disk) :
    AreFiles (visibleFiles documents.place disk) := by
  refine ⟨(h.proper.below _).filter _, fun f hf => ?_⟩
  have hmem := FileTree.mem_below.mp (List.mem_of_mem_filter hf)
  refine ⟨fun h0 => h.documents _ hmem ?_, fun c hc => h.names _ hmem c (List.mem_append_right _ hc)⟩
  rw [h0, List.append_nil]

theorem AreFiles.unpackedTree {files : Disk J} (h : AreFiles files) (exportData manifestData : J) :
    AreFiles (unpackedTree exportData manifestData files) := by
  refine ⟨List.pairwise_cons.mpr ⟨fun f hf => ?_, List.pairwise_cons.mpr ⟨fun f hf => ?_, ?_⟩⟩, fun f hf => ?_⟩
  · rcases List.mem_cons.mp hf with rfl | hf
    · exact FileTree.apart_cons (by decide)
    · obtain ⟨f, -, rfl⟩ := List.mem_map.mp hf
      exact FileTree.apart_cons (by decide)
  · obtain ⟨f, -, rfl⟩ := List.mem_map.mp hf
    exact FileTree.apart_cons (by decide)
  · exact h.1.map_append ["Documents".toList]
  · have hexport : ∀ c ∈ ["export.json".toList], IsName c := by decide
    have hmanifest : ∀ c ∈ ["manifest.json".toList], IsName c := by decide
    have hdocuments : IsName "Documents".toList := by decide
    rcases List.mem_cons.mp hf with rfl | hf
    · exact ⟨List.cons_ne_nil _ _, hexport⟩
    rcases List.mem_cons.mp hf with rfl | hf
    · exact ⟨List.cons_ne_nil _ _, hmanifest⟩
    obtain ⟨g, hg, rfl⟩ := List.mem_map.mp hf
    exact ⟨List.cons_ne_nil _ _, List.forall_mem_cons.mpr ⟨hdocuments, (h.2 g hg).2⟩⟩

variable {D : Directories} {disk files : Disk J}

/-- Files below the import's directory. -/
def placed (D : Directories) (files : Disk J) : Disk J := files.map fun f => (D.tmpDir.place ++ f.1, f.2)

/-- Entries whose places can all be made. -/
theorem unpackAll_eq {z : ZIPFoundation J} (hz : z.Documented) {entries : List z.Entry} {after : Disk J}
    (hnew : ∀ e ∈ entries, D.isDirectory (D.tmpDir.appendingPathComponent (z.path e)).place = false)
    (h : disk.addAll (entries.map fun e => ((D.tmpDir.appendingPathComponent (z.path e)).place, z.contents e)) =
      some after) :
    unpackAll z D entries disk = (after, .ok ()) := by
  induction entries generalizing disk with
  | nil => rw [unpackAll, Option.some.inj h]
  | cons e entries ih =>
    obtain ⟨hnew, hrest⟩ := List.forall_mem_cons.mp hnew
    rw [List.map_cons, FileTree.addAll, List.foldlM_cons] at h
    obtain ⟨next, hadd, h⟩ := Option.bind_eq_some_iff.mp h
    rw [unpackAll, hz.extracts D.isDirectory e _ disk next hnew hadd]
    exact ih hrest h

/-- Files under the paths that their names make. -/
theorem unpackAll_joined {z : ZIPFoundation J} (hz : z.Documented) (hD : Fresh D disk) (hfiles : AreFiles files)
    {archive : z.Archive} (hlisting : z.listing archive = files.map fun f => (joined f.1, f.2)) :
    unpackAll z D (z.entries archive) disk = (disk ++ placed D files, .ok ()) := by
  have hplace : ∀ f ∈ files, (D.tmpDir.appendingPathComponent (joined f.1)).place = D.tmpDir.place ++ f.1 :=
    fun f hf => place_joined _ (hfiles.2 f hf).1 (hfiles.2 f hf).2
  have hplaced : (z.entries archive).map (fun e => ((D.tmpDir.appendingPathComponent (z.path e)).place, z.contents e)) =
      placed D files := by
    have hmap := congrArg (List.map fun e : Text × J => ((D.tmpDir.appendingPathComponent e.1).place, e.2)) hlisting
    rw [ZIPFoundation.listing, List.map_map, List.map_map] at hmap
    exact hmap.trans (List.map_congr_left fun f hf => congrArg (·, f.2) (hplace f hf))
  refine unpackAll_eq hz (fun e he => ?_) ?_
  · obtain ⟨f, hf, heq⟩ := List.mem_map.mp (hplaced ▸ List.mem_map_of_mem he)
    have hplaced : D.tmpDir.place ++ f.1 = (D.tmpDir.appendingPathComponent (z.path e)).place := congrArg Prod.fst heq
    exact hD.isDirectory _ (hplaced ▸ List.prefix_append _ _)
  · rw [hplaced]
    refine FileTree.addAll_eq (hfiles.1.map_append _) fun f hf g hg => ?_
    obtain ⟨f, -, rfl⟩ := List.mem_map.mp hf
    have happart := (hD.apart g hg).append f.1 []
    rwa [List.append_nil] at happart

theorem unpacked_proper (hD : Fresh D disk) (hfiles : AreFiles files) :
    FileTree.Proper (disk ++ placed D files) := by
  refine List.pairwise_append.mpr ⟨hD.proper, hfiles.1.map_append _, fun g hg f hf => ?_⟩
  obtain ⟨f, -, rfl⟩ := List.mem_map.mp hf
  have happart := (hD.apart g hg).symm.append [] f.1
  rwa [List.append_nil] at happart

/-! ## Restoring -/

variable {o : Enumeration}

theorem restoredDocs_place (D : Directories) :
    (D.tmpDir.appendingPathComponent "Documents".toList).place = D.tmpDir.place ++ ["Documents".toList] :=
  place_name _ (by decide)

/-- The files below the unpacked `Documents` are those of the archive. -/
theorem visibleFiles_unpacked (hD : Fresh D disk) (exportData manifestData : J) (hvisible : ∀ f ∈ files, IsVisible f.1) :
    visibleFiles (D.tmpDir.appendingPathComponent "Documents".toList).place
      (disk ++ placed D (unpackedTree exportData manifestData files)) = files := by
  have hdisk : FileTree.below D.tmpDir.place disk = [] := FileTree.below_eq_nil fun g hg => (hD.apart g hg).1
  have hbelow : FileTree.below ["Documents".toList] (unpackedTree exportData manifestData files) = files :=
    FileTree.below_map ["Documents".toList] files
  rw [visibleFiles, restoredDocs_place, ← FileTree.below_below, FileTree.below_append, hdisk, List.nil_append, placed,
    FileTree.below_map, hbelow]
  exact List.filter_eq_self.mpr fun f hf => decide_eq_true (hvisible f hf)

/-- Where a file below the unpacked `Documents` goes. -/
theorem destination_place {names : List Text} (h0 : names ≠ []) (h : ∀ c ∈ names, IsName c)
    (honce : Once (D.tmpDir.appendingPathComponent "Documents".toList) names) :
    (destination D (D.tmpDir.appendingPathComponent "Documents".toList ++ names)).place = D.documents.place ++ names := by
  have hrelative := relative_append h0 honce
  show (D.documents.appendingPathComponent (relative (D.tmpDir.appendingPathComponent "Documents".toList)
    (D.tmpDir.appendingPathComponent "Documents".toList ++ names))).place = _
  rw [hrelative]
  exact place_joined _ h0 h

/-- The loop of the import copies every exported file to its place. -/
theorem restoreDocuments_eq_copyAll (hD : Fresh D disk) (hfiles : AreFiles files)
    (hvisible : ∀ f ∈ files, IsVisible f.1)
    (honce : ∀ f ∈ files, Once (D.tmpDir.appendingPathComponent "Documents".toList) f.1) (exportData manifestData : J) :
    restoreDocuments D o (disk ++ placed D (unpackedTree exportData manifestData files)) =
      (disk ++ placed D (unpackedTree exportData manifestData files)).copyAll ((o.order files).map fun f =>
        (D.tmpDir.place ++ ["Documents".toList] ++ f.1, D.documents.place ++ f.1)) := by
  unfold restoreDocuments recursiveFiles FileTree.copyAll
  simp only [visibleFiles_unpacked hD exportData manifestData hvisible, List.map_map, List.foldl_map]
  refine List.foldl_ext _ _ _ fun t f hf => ?_
  obtain ⟨h0, hnames⟩ := hfiles.2 f ((o.order_perm files).mem_iff.mp hf)
  have hdest := destination_place h0 hnames (honce f ((o.order_perm files).mem_iff.mp hf))
  show t.copy (FileURL.place (_ ++ f.1)) (destination D (_ ++ f.1)).place = _
  rw [place_append _ hnames, restoredDocs_place, hdest]

/-- The restored files take the places of what was there, and nothing else
has changed. -/
theorem restoreDocuments_eq (hD : Fresh D disk) (hfiles : AreFiles files) (hvisible : ∀ f ∈ files, IsVisible f.1)
    (honce : ∀ f ∈ files, Once (D.tmpDir.appendingPathComponent "Documents".toList) f.1)
    (hway : ∀ f ∈ files, ∀ g ∈ disk, g.1 <+: D.documents.place ++ f.1 → g.1 = D.documents.place ++ f.1)
    (exportData manifestData : J) :
    ((restoreDocuments D o (disk ++ placed D (unpackedTree exportData manifestData files))).removeBelow
        D.tmpDir.place).Perm
      ((disk.filter fun g => ∀ f ∈ files, ¬ D.documents.place ++ f.1 <+: g.1) ++
        files.map fun f => (D.documents.place ++ f.1, f.2)) := by
  have horder := o.order_perm files
  have hmem : ∀ f ∈ o.order files, f ∈ files := fun f hf => horder.mem_iff.mp hf
  have hapart : FileTree.Apart (D.tmpDir.place ++ ["Documents".toList]) D.documents.place := by
    have h := hD.documents.append ["Documents".toList] []
    rwa [List.append_nil] at h
  have hproper : FileTree.Proper (o.order files) := horder.symm.pairwise hfiles.1 fun h => h.symm
  have hsrc : ∀ f ∈ o.order files, (D.tmpDir.place ++ ["Documents".toList] ++ f.1, f.2) ∈
      disk ++ placed D (unpackedTree exportData manifestData files) := fun f hf => by
    refine List.mem_append_right _ (List.mem_map.mpr ⟨("Documents".toList :: f.1, f.2), ?_, ?_⟩)
    · exact List.mem_cons_of_mem _ (List.mem_cons_of_mem _ (List.mem_map_of_mem (hmem f hf)))
    · rw [List.append_assoc]
      rfl
  have hfree : ∀ f ∈ o.order files, ∀ g ∈ disk ++ placed D (unpackedTree exportData manifestData files),
      g.1 <+: D.documents.place ++ f.1 → g.1 = D.documents.place ++ f.1 := fun f hf g hg hpre => by
    rcases List.mem_append.mp hg with hg | hg
    · exact hway f (hmem f hf) g hg hpre
    · obtain ⟨k, -, rfl⟩ := List.mem_map.mp hg
      exact absurd hpre (hD.documents.append k.1 f.1).1
  rw [restoreDocuments_eq_copyAll hD hfiles hvisible honce, FileTree.copyAll_eq hproper hapart
    (unpacked_proper hD (hfiles.unpackedTree exportData manifestData)) hsrc hfree, FileTree.removeBelow_append,
    List.filter_append, FileTree.removeBelow_append]
  have hdisk : FileTree.removeBelow D.tmpDir.place
      (disk.filter fun g => ∀ f ∈ o.order files, ¬ D.documents.place ++ f.1 <+: g.1) =
      disk.filter fun g => ∀ f ∈ files, ¬ D.documents.place ++ f.1 <+: g.1 := by
    rw [FileTree.removeBelow_eq_self fun g hg => (hD.apart g (List.mem_of_mem_filter hg)).1]
    exact List.filter_congr fun g _ => decide_eq_decide.mpr
      ⟨fun h f hf => h f (horder.mem_iff.mpr hf), fun h f hf => h f (hmem f hf)⟩
  have htmp : FileTree.removeBelow D.tmpDir.place ((placed D (unpackedTree exportData manifestData files)).filter
      fun g => ∀ f ∈ o.order files, ¬ D.documents.place ++ f.1 <+: g.1) = [] :=
    FileTree.removeBelow_eq_nil fun g hg => by
      obtain ⟨k, -, rfl⟩ := List.mem_map.mp (List.mem_of_mem_filter hg)
      exact List.prefix_append _ _
  have hrestored : FileTree.removeBelow D.tmpDir.place
      ((o.order files).map fun f => (D.documents.place ++ f.1, f.2)) =
      (o.order files).map fun f => (D.documents.place ++ f.1, f.2) :=
    FileTree.removeBelow_eq_self fun g hg => by
      obtain ⟨f, -, rfl⟩ := List.mem_map.mp hg
      have h := (hD.documents.append [] f.1).1
      rwa [List.append_nil] at h
  rw [hdisk, htmp, hrestored, List.append_nil]
  exact (horder.map _).append_left _

/-! ## The round trip -/

/-- The path of a file's entry. -/
def documentPath (names : List Text) : Text := "Documents/".toList ++ joined names

/-- The files that an export has taken along: those whose entry could be
added. -/
def exported (z : ZIPFoundation J) (documents : FileURL) (archive : z.Archive) (disk : Disk J) : Disk J :=
  (visibleFiles documents.place disk).filter fun f => z.Has archive (documentPath f.1)

/-- The names on the way to a file are read off its path. -/
theorem joined_inj {p q : List Text} (hp0 : p ≠ []) (hq0 : q ≠ []) (hp : ∀ c ∈ p, IsName c) (hq : ∀ c ∈ q, IsName c)
    (h : joined p = joined q) : p = q := by
  have hplace := place_joined [] hp0 hp
  rw [h, place_joined [] hq0 hq] at hplace
  exact (List.append_cancel_left hplace).symm

theorem documentPath_ne {names : List Text} {path : Text} (h : path.head? ≠ some 'D') :
    documentPath names ≠ path := by
  intro heq
  rw [← heq] at h
  exact h rfl

/-- The files of one device, and another one on which each of them can be
put: no path repeats the root it is taken out of, and no file is on the way. -/
structure Portable (documents : FileURL) (D : Directories) (old disk : Disk J) : Prop where
  tree : IsTree documents old
  once : ∀ f ∈ visibleFiles documents.place old,
    Once documents f.1 ∧ Once (D.tmpDir.appendingPathComponent "Documents".toList) f.1
  fresh : Fresh D disk
  way : ∀ f ∈ visibleFiles documents.place old, ∀ g ∈ disk,
    g.1 <+: D.documents.place ++ f.1 → g.1 = D.documents.place ++ f.1

/-- The files of the second device once those of the first one are there. -/
def transferred (z : ZIPFoundation J) (documents : FileURL) (D : Directories) (archive : z.Archive)
    (old disk : Disk J) : Disk J :=
  (disk.filter fun g => ∀ f ∈ exported z documents archive old, ¬ D.documents.place ++ f.1 <+: g.1) ++
    (exported z documents archive old).map fun f => (D.documents.place ++ f.1, f.2)

section Transfer

variable {z : ZIPFoundation J} {documents : FileURL} {codec : PayloadCodec E J} {b : BackupContext}
  {c : ExportContext J} {D : Directories} {s fetched : Store E} {old disk : Disk J} {archive : z.Archive}

theorem transferred_proper (hp : Portable documents D old disk) (archive : z.Archive) :
    FileTree.Proper (transferred z documents D archive old disk) := by
  have hexported : FileTree.Proper (exported z documents archive old) := hp.tree.areFiles.1.filter _
  refine List.pairwise_append.mpr ⟨hp.fresh.proper.filter _, hexported.map_append _, fun g hg f hf => ?_⟩
  obtain ⟨k, hk, rfl⟩ := List.mem_map.mp hf
  obtain ⟨hg, hcleared⟩ := List.mem_filter.mp hg
  have hnone : ¬ D.documents.place ++ k.1 <+: g.1 := of_decide_eq_true hcleared k hk
  refine ⟨fun hpre => hnone ?_, hnone⟩
  rw [hp.way k (List.mem_of_mem_filter hk) g hg hpre]

/-- What an archive of visible files and of the two others takes along. -/
theorem exported_perm {files : Disk J} (hfiles : AreFiles (visibleFiles documents.place old))
    (hsub : ∀ f ∈ files, f ∈ visibleFiles documents.place old) (hnodup : files.Nodup) {exportData manifestData : J}
    (hlisting : z.listing archive = (unpackedTree exportData manifestData files).map fun f => (joined f.1, f.2)) :
    files.Perm (exported z documents archive old) := by
  have hpath {f : List Text × J} (hf : f ∈ visibleFiles documents.place old) :
      documentPath f.1 = joined ("Documents".toList :: f.1) := documents_joined (hfiles.2 f hf).1
  have hhas : ∀ f ∈ visibleFiles documents.place old, z.Has archive (documentPath f.1) ↔ f ∈ files := by
    intro f hf
    rw [ZIPFoundation.Has, hlisting]
    simp only [unpackedTree, List.map_cons, List.mem_cons, List.map_map, List.mem_map, Function.comp_apply]
    constructor
    · rintro (h | h | ⟨g, hg, heq⟩)
      · exact absurd h (documentPath_ne (by decide))
      · exact absurd h (documentPath_ne (by decide))
      · have hg' := hsub g hg
        rw [← documents_joined (hfiles.2 g hg').1] at heq
        have hnames := joined_inj (hfiles.2 g hg').1 (hfiles.2 f hf).1 (hfiles.2 g hg').2 (hfiles.2 f hf).2
          (List.append_cancel_left heq)
        rwa [← hfiles.1.eq_of_path hg' hf hnames]
    · exact fun h => .inr (.inr ⟨f, h, (hpath hf).symm⟩)
  have hexported : (exported z documents archive old).Nodup := hfiles.1.nodup.filter _
  refine (List.perm_ext_iff_of_nodup hnodup hexported).mpr fun f => ?_
  rw [exported, List.mem_filter, decide_eq_true_iff]
  exact ⟨fun h => ⟨hsub f h, (hhas f (hsub f h)).mpr h⟩, fun h => (hhas f h.1).mp h.2⟩

theorem addJSON_listing (hz : z.Documented) {archive' : z.Archive} {path : String} {data : J}
    (h : addJSON z archive path data = .ok archive') :
    z.listing archive' = z.listing archive ++ [(path.toList, data)] := by
  unfold addJSON at h
  cases hadd : (z.addEntry archive path.toList data).2 with
  | error e => exact nomatch hadd ▸ h
  | ok =>
    rw [hadd] at h
    rw [← Except.ok.inj h, hz.adds archive _ _ hadd]

/-- The visible files are added under their paths, but for those that cannot
be. -/
theorem listing_addDocuments (hz : z.Documented) (hfiles : AreFiles (visibleFiles documents.place old))
    (honce : ∀ f ∈ visibleFiles documents.place old, Once documents f.1) (o : Enumeration) (archive : z.Archive) :
    ∃ kept : Disk J, (∀ f ∈ kept, f ∈ visibleFiles documents.place old) ∧ kept.Nodup ∧
      z.listing (addDocuments z documents (recursiveFiles o documents old) archive) =
        z.listing archive ++ kept.map fun f => (joined ("Documents".toList :: f.1), f.2) := by
  have horder := o.order_perm (visibleFiles documents.place old)
  obtain ⟨kept, hsub, hlisting⟩ := hz.listing_foldl
    (fun f : List Text × J => entryPath documents (documents ++ f.1)) Prod.snd
    (o.order (visibleFiles documents.place old)) archive
  have hvisible : ∀ f ∈ kept, f ∈ visibleFiles documents.place old := fun f hf =>
    horder.mem_iff.mp (hsub.subset hf)
  have hentry : ∀ f ∈ kept, entryPath documents (documents ++ f.1) = joined ("Documents".toList :: f.1) := by
    intro f hf
    have hf := hvisible f hf
    have hrelative := relative_append (hfiles.2 f hf).1 (honce f hf)
    exact (congrArg ("Documents/".toList ++ ·) hrelative).trans (documents_joined (hfiles.2 f hf).1)
  refine ⟨kept, hvisible, hsub.nodup (horder.symm.nodup hfiles.1.nodup), ?_⟩
  rw [addDocuments, recursiveFiles, List.foldl_map, hlisting,
    List.map_congr_left fun f hf => congrArg (·, f.2) (hentry f hf)]

/-- What an export makes has the payload, the manifest and its files in some
order. -/
theorem exportZip_spec (hz : z.Documented) (hfiles : AreFiles (visibleFiles c.documents.place old))
    (honce : ∀ f ∈ visibleFiles c.documents.place old, Once c.documents f.1)
    (h : exportZip z codec b c s old = .ok archive) :
    ∃ fetched exportData manifestData, ∃ files : Disk J, fetchStore b s = .ok fetched ∧
      codec.encode (exportPayload c.exportedAt fetched) = .ok exportData ∧
      files.Perm (exported z c.documents archive old) ∧
      z.listing archive = (unpackedTree exportData manifestData files).map fun f => (joined f.1, f.2) := by
  obtain ⟨fetched, hfetch, h⟩ := bind_eq_ok.mp h
  obtain ⟨exportData, hencode, h⟩ := bind_eq_ok.mp h
  obtain ⟨manifestData, -, h⟩ := bind_eq_ok.mp h
  split at h
  · cases h
  rename_i created hcreate
  obtain ⟨withExport, hexport, h⟩ := bind_eq_ok.mp h
  obtain ⟨withManifest, hmanifest, h⟩ := bind_eq_ok.mp h
  obtain ⟨kept, hvisible, hnodup, hlisting⟩ := listing_addDocuments hz hfiles honce c.enumeration withManifest
  have hlisted : z.listing archive =
      (unpackedTree exportData manifestData kept).map fun f => (joined f.1, f.2) := by
    rw [← Except.ok.inj h, hlisting, addJSON_listing hz hmanifest, addJSON_listing hz hexport,
      hz.listing_create hcreate, unpackedTree, List.map_cons, List.map_cons, List.map_map]
    rfl
  exact ⟨fetched, exportData, manifestData, kept, hfetch, hencode, exported_perm hfiles hvisible hnodup hlisted,
    hlisted⟩

/-- What an import decodes where an export is unpacked. -/
theorem readPayload_unpacked (codec : PayloadCodec E J) {exportData : J} (manifestData : J) {p : ExportPayloadV1 E}
    {files : Disk J} (hD : Fresh D disk) (hfiles : AreFiles files) (h : codec.decode exportData = .ok p) :
    readPayload codec D (disk ++ placed D (unpackedTree exportData manifestData files)) = .ok p := by
  have hplace : (D.tmpDir.appendingPathComponent "export.json".toList).place =
      D.tmpDir.place ++ ["export.json".toList] := place_name _ (by decide)
  have hread := FileTree.read_of_mem (unpacked_proper hD (hfiles.unpackedTree exportData manifestData))
    (p := D.tmpDir.place ++ ["export.json".toList]) (x := exportData)
    (List.mem_append_right _ (List.mem_map.mpr ⟨_, List.mem_cons_self, rfl⟩))
  unfold readPayload
  simp only [hplace, hread, h]

variable (ci : ImportContext) (o : Enumeration)

/-- What becomes of the records and of the files. -/
theorem importZip_transfers (hz : z.Documented) (hp : Portable c.documents D old disk)
    (hexport : exportZip z codec b c s old = .ok archive) (t : Store E) :
    ∃ fetched after, fetchStore b s = .ok fetched ∧
      importZip z codec ci D o true (some archive) t disk =
        (.ok (importPayload ci (exportPayload c.exportedAt fetched).truncated t), after) ∧
      after.Perm (transferred z c.documents D archive old disk) := by
  obtain ⟨fetched, exportData, manifestData, files, hfetch, hencode, hperm, hlisting⟩ :=
    exportZip_spec hz hp.tree.areFiles (fun f hf => (hp.once f hf).1) hexport
  obtain ⟨exportData', hencode', hdecode⟩ := codec.roundTrip (exportPayload c.exportedAt fetched)
  obtain rfl := Except.ok.inj (hencode.symm.trans hencode')
  have hvisible : ∀ f ∈ files, f ∈ visibleFiles c.documents.place old := fun f hf =>
    List.mem_of_mem_filter (hperm.mem_iff.mp hf)
  have hfiles : AreFiles files :=
    ⟨hperm.symm.pairwise (hp.tree.areFiles.1.filter _) fun h => h.symm,
      fun f hf => hp.tree.areFiles.2 f (hvisible f hf)⟩
  have hunpacked := unpackAll_joined hz hp.fresh (hfiles.unpackedTree exportData manifestData) hlisting
  have hread := readPayload_unpacked codec manifestData hp.fresh hfiles hdecode
  refine ⟨fetched, FileTree.removeBelow D.tmpDir.place
    (restoreDocuments D o (disk ++ placed D (unpackedTree exportData manifestData files))), hfetch, ?_, ?_⟩
  · unfold importZip
    simp only [Bool.not_true, Bool.false_eq_true, if_false, hunpacked, hread]
  · refine (restoreDocuments_eq hp.fresh hfiles
      (fun f hf => of_decide_eq_true (List.mem_filter.mp (hvisible f hf)).2)
      (fun f hf => (hp.once f (hvisible f hf)).2) (fun f hf => hp.way f (hvisible f hf)) exportData manifestData).trans ?_
    refine List.Perm.append (.of_eq ?_) (hperm.map _)
    exact List.filter_congr fun g _ => decide_eq_decide.mpr
      ⟨fun h f hf => h f (hperm.mem_iff.mpr hf), fun h f hf => h f (hperm.mem_iff.mp hf)⟩

end Transfer

/-! ## A small backup -/

/-- The enumerator that keeps the order. -/
def plainOrder : Enumeration where
  order l := l
  order_perm := .refl

/-- An export from the container. -/
def plainExport (manifestData : J) : ExportContext J where
  exportedAt := 10
  createdAt := 10
  appVersion := none
  encodeManifest _ := .ok manifestData
  documents := container.documents
  enumeration := plainOrder

/-- A file below Documents, one in a directory there, a hidden one, and one
elsewhere. -/
def somePaths : List (List Text) :=
  [["Documents".toList, "manual.txt".toList], ["Documents".toList, "Papers".toList, "a.pdf".toList],
    ["Documents".toList, ".cache".toList], ["Library".toList, "app.sqlite".toList]]

def someFiles (data : J) : Disk J := somePaths.map (·, data)

theorem visibleFiles_someFiles (data : J) : visibleFiles container.documents.place (someFiles data) =
    [["manual.txt".toList], ["Papers".toList, "a.pdf".toList]].map (·, data) := rfl

theorem isTree_someFiles (data : J) : IsTree container.documents (someFiles data) where
  proper := List.pairwise_map.mpr (show somePaths.Pairwise FileTree.Apart by decide)
  names := List.forall_mem_map.mpr (show ∀ p ∈ somePaths, ∀ c ∈ p, IsName c by decide)
  documents := List.forall_mem_map.mpr (show ∀ p ∈ somePaths, p ≠ container.documents.place by decide)

theorem fresh_someFiles (data : J) : Fresh container (someFiles data) where
  proper := (isTree_someFiles data).proper
  isDirectory p hp := by
    obtain ⟨rest, rfl⟩ := hp
    rfl
  apart := List.forall_mem_map.mpr (show ∀ p ∈ somePaths, FileTree.Apart container.tmpDir.place p by decide)
  documents := by decide

/-- What the files of the device that exports hold, and those of the device
that imports. -/
def written : ExportPayloadV1 Unit := exportPayload 10 smallStore

def present : ExportPayloadV1 Unit := exportPayload 10 (.empty Unit)

theorem portable_someFiles : Portable container.documents container (someFiles written) (someFiles present) where
  tree := isTree_someFiles written
  once f hf := by
    obtain ⟨p, hp, rfl⟩ := List.mem_map.mp (visibleFiles_someFiles written ▸ hf)
    exact (show ∀ p ∈ [["manual.txt".toList], ["Papers".toList, "a.pdf".toList]], Once container.documents p ∧
      Once (container.tmpDir.appendingPathComponent "Documents".toList) p by decide) p hp
  fresh := fresh_someFiles present
  way f hf g hg := by
    obtain ⟨p, hp, rfl⟩ := List.mem_map.mp (visibleFiles_someFiles written ▸ hf)
    obtain ⟨q, hq, rfl⟩ := List.mem_map.mp hg
    exact (show ∀ p ∈ [["manual.txt".toList], ["Papers".toList, "a.pdf".toList]], ∀ q ∈ somePaths,
      q <+: container.documents.place ++ p → q = container.documents.place ++ p by decide) p hp q hq

end Documents

end SynapsNotes.Backup
