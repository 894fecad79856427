import SynapsNotes.Backup.Documents
import SynapsNotes.Knowledge.Files

/-!
# The knowledge base in a backup

`KnowledgeStorage` keeps the files of the knowledge base in a directory below
Documents, so a backup takes them along, and a document finds its file again
by the relative path that it has kept. For this every document has to have its
file in the first place: no order of imports and deletions takes the file of
one document away with another (`documents_stored`).
-/

namespace SynapsNotes.Backup

open Framework Knowledge

variable {E J : Type}

namespace KnowledgeBase

/-! ## Documents and files -/

variable {S : Services} {s t : Library E}

/-- The file of every document is in the directory. -/
def Stored (t : Library E) : Prop := ∀ document ∈ t.store.documents, document.localRelativePath ∈ t.files

theorem stored_iff : Stored t ↔ t.deposits.Stocked := by
  refine ⟨fun h name hname => ?_, fun h document hdocument => h _ (List.mem_map_of_mem hdocument)⟩
  obtain ⟨document, hdocument, rfl⟩ := List.mem_map.mp hname
  exact h document hdocument

/-- What every step keeps. -/
theorem stored_step {a : Action E} (hs : Library.Accounted S s) (hstored : Stored s) (h : s.step S a = some t) :
    Stored t := by
  rw [stored_iff] at hstored ⊢
  have hallowed := Library.operation_allowed hs h
  rw [Library.step_deposits hs h]
  cases hop : Library.operation S s a with
  | none => exact hstored
  | some op => exact hstored.apply hs.wellKept (hallowed op hop)

theorem accounted_stored_always (hs : Library.Accounted S s) (hstored : Stored s) (as : List (Action E)) :
    (Library.machine E S).Always (fun t => Library.Accounted S t ∧ Stored t) s as :=
  Machine.always_of_invariant (I := fun t => Library.Accounted S t ∧ Stored t)
    (fun _ _ _ h hstep => ⟨Library.accounted_step h.1 hstep, stored_step h.1 h.2 hstep⟩) ⟨hs, hstored⟩ as

/-- From a library at rest on, whatever is imported and deleted in whatever
order, with whatever errors: every document has its file. -/
theorem documents_stored (hclean : Library.Clean S s) (hstored : Stored s) (as : List (Action E)) :
    (Library.machine E S).Always Stored s as :=
  (accounted_stored_always hclean.accounted hstored as).mono fun _ h => h.2

theorem stored_fresh : Stored (Library.fresh E none) := List.forall_mem_nil _

/-- A PDF of one page is imported. -/
def onePDF : List (Action ℚ) :=
  Library.importPDF ⟨.ok [], some [some ⟨some ['a'], none⟩], none⟩ ++ [.resume (.returned 0)]

/-- The document of the first such import. -/
def firstPDF : KnowledgeDocument where
  id := 1
  title := "a"
  sourceType := "local_file"
  mimeType := "application/pdf"
  localRelativePath := "00000000-0000-0000-0000-000000000000.pdf"
  driveFileId := none
  extractionStatus := "ready"
  extractionError := none
  extractionEngine := some "pdf_text"
  contentHash := some (Services.ascii.sha256 "a")
  createdAt := 0
  updatedAt := 0

/-- Two PDFs are imported, and the first one is deleted. -/
def secondKept : List (Action ℚ) := onePDF ++ onePDF ++ [.deleteKnowledgeDocument firstPDF true]

theorem documents_stored_importPDF :
    (Library.machine ℚ Services.ascii).Always Stored (Library.fresh ℚ none) secondKept :=
  documents_stored Library.clean_fresh stored_fresh _

/-! ## Files in a backup -/

/-- `KnowledgeStorage.resolve`. -/
def resolve (documents : FileURL) (relativePath : String) : FileURL :=
  (documents.appendingPathComponent "KnowledgeBase".toList).appendingPathComponent relativePath.toList

theorem resolve_place (documents : FileURL) {relativePath : String} (h : IsName relativePath.toList) :
    (resolve documents relativePath).place = documents.place ++ ["KnowledgeBase".toList, relativePath.toList] := by
  rw [resolve, place_name _ h, place_name _ (by decide), List.append_assoc]
  rfl

/-- The files of the library, with some contents, on a device. -/
def OnDisk (documents : FileURL) (t : Library E) (disk : Disk J) : Prop :=
  ∀ name ∈ t.files, ∃ data, (documents.place ++ ["KnowledgeBase".toList, name.toList], data) ∈ disk

/-- A name that has been given out is no hidden one. -/
theorem isVisible_of_issued (hne : ∀ id, S.uuidString id ≠ "") {name : String} (h : Library.Issued S t name) :
    IsVisible ["KnowledgeBase".toList, name.toList] := by
  obtain ⟨id, -, ext, rfl⟩ := h
  have hhead : (fileName S id ext).toList.head? = (S.uuidString id).toList.head? := by
    rw [fileName, String.toList_append, String.toList_append, List.append_assoc]
    exact List.head?_append_of_ne_nil _ (mt String.toList_eq_nil_iff.mp (hne id))
  refine List.forall_mem_cons.mpr ⟨by decide, List.forall_mem_singleton.mpr fun hdot => ?_⟩
  exact S.dot_notMem_uuidString id (List.mem_of_mem_head? (hhead ▸ hdot))

section Restored

variable {z : ZIPFoundation J} {codec : PayloadCodec E J} {b : BackupContext} {c : Documents.ExportContext J}
  (ci : ImportContext) {D : Directories} (o : Enumeration) {archive : z.Archive} {old disk : Disk J}

/-- Where the file of a document is in an archive. -/
def entryPath (relativePath : String) : Text := "Documents/KnowledgeBase/".toList ++ relativePath.toList

/-- A file of the library is taken along where its entry could be added. -/
theorem mem_exported {documents : FileURL} {name : String} {data : J}
    (hvisible : IsVisible ["KnowledgeBase".toList, name.toList]) (hhas : z.Has archive (entryPath name))
    (hmem : (documents.place ++ ["KnowledgeBase".toList, name.toList], data) ∈ old) :
    (["KnowledgeBase".toList, name.toList], data) ∈ Documents.exported z documents archive old := by
  have hpath : Documents.documentPath ["KnowledgeBase".toList, name.toList] = entryPath name := by
    show "Documents/".toList ++ Documents.joined _ = "Documents/KnowledgeBase/".toList ++ name.toList
    simp [Documents.joined]
  exact List.mem_filter.mpr ⟨List.mem_filter.mpr ⟨FileTree.mem_below.mpr hmem, decide_eq_true hvisible⟩,
    decide_eq_true (hpath ▸ hhas)⟩

theorem importPayload_documents (now : Date) (s : Store E) :
    (importPayload ci (exportPayload now s).truncated (Store.empty E)).documents =
      s.documents.map KnowledgeDocument.truncated := by
  show [] ++ ((s.documents.map exportDocument).map ExportKnowledgeDocumentV1.truncated).map importDocument = _
  rw [List.nil_append, List.map_map, List.map_map]
  exact List.map_congr_left fun d _ => importDocument_exportDocument d

end Restored

/-! ## One document -/

/-- The file of the document that is left, below Documents. -/
def somePath : List Text :=
  ["Documents".toList, "KnowledgeBase".toList, "00000000-0000-0000-0000-000000000003.pdf".toList]

def someDisk : Disk (ExportPayloadV1 ℚ) := [(somePath, exportPayload 10 (.empty ℚ))]

def someExport : Documents.ExportContext (ExportPayloadV1 ℚ) := Documents.plainExport (exportPayload 10 (.empty ℚ))

theorem portable_someDisk : Documents.Portable someExport.documents container someDisk [] where
  tree := ⟨List.pairwise_singleton .., List.forall_mem_singleton.mpr (by decide),
    List.forall_mem_singleton.mpr (by decide)⟩
  once := by
    have hvisible : visibleFiles someExport.documents.place someDisk =
        [(somePath.tail, exportPayload 10 (.empty ℚ))] := rfl
    rw [hvisible]
    exact List.forall_mem_singleton.mpr (by decide)
  fresh :=
    { proper := List.Pairwise.nil
      isDirectory := by
        rintro p ⟨rest, rfl⟩
        rfl
      apart := List.forall_mem_nil _
      documents := by decide }
  way _ _ := List.forall_mem_nil _

end KnowledgeBase

end SynapsNotes.Backup
