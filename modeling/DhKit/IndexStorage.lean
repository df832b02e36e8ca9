import Mathlib.Data.List.Sort
import Mathlib.Data.String.Basic
import DhKit.CommitRules
import DhKit.IndexTypes

/-!
# The index database

The tables of the workspace that the indexer writes.
-/
namespace DhKit.Indexer
open KeyedTables CommitRules List

structure RootRow where
 id : RootId
 absPath : Path
deriving DecidableEq

/-- A row of `graph_edges`: the edge and the file that owns it. -/
structure EdgeRow where
 sourceFileId : FileId
 edge : GraphEdge
deriving DecidableEq

def storedEdge (edge : GraphEdge) : GraphEdge :=
 { edge with span := edge.span.map fun s => { s with startByte := 0,endByte := 0 } }

@[simp] theorem storedEdge_storedEdge (edge : GraphEdge) :
 storedEdge (storedEdge edge)=storedEdge edge := by
 simp [storedEdge,Function.comp_def]

structure Db where
 workspaceRoot : Option Path
 roots : Table RootId RootRow RootRow.id
 rootPaths : (roots.rows.map RootRow.absPath).Nodup
 files : Table FileId File fileKeyForFile
 symbols : Table SymbolId Symbol Symbol.id
 symbolFiles : ∀ s ∈ symbols.rows,s.fileId ∈ files.rows.map fileKeyForFile
 chunks : Table ChunkId Chunk Chunk.id
 chunkFiles : ∀ c ∈ chunks.rows,c.fileId ∈ files.rows.map fileKeyForFile
 edges : List EdgeRow
 edgeFiles : ∀ r ∈ edges,r.sourceFileId ∈ files.rows.map fileKeyForFile
 edgeColumns : ∀ r ∈ edges,storedEdge r.edge = r.edge
 state : Option IndexState

variable (db : Db) (id : FileId) {file : File} {edges : List GraphEdge}

namespace Db

def empty : Db where
 workspaceRoot := none
 roots := Table.empty
 rootPaths := by simp
 files := Table.empty
 symbols := Table.empty
 symbolFiles := by simp
 chunks := Table.empty
 chunkFiles := by simp
 edges := []
 edgeFiles := by simp
 edgeColumns := by simp
 state := none

def listFilesByWorkspace : List File :=
 db.files.rows.insertionSort fun a b => a.relPath.text ≤ b.relPath.text

theorem mem_listFilesByWorkspace {db : Db} :
 file∈db.listFilesByWorkspace ↔ file∈db.files.rows :=
 (perm_insertionSort _ _).mem_iff

theorem nodup_keys_listFilesByWorkspace :
 (db.listFilesByWorkspace.map fileKeyForFile).Nodup :=
 ((perm_insertionSort _ _).map fileKeyForFile).nodup_iff.mpr db.files.nodup

def getFileByRootPath (key : FileKey) : Option File := db.files.find key

def findSymbolsByWorkspace : List Symbol := db.symbols.rows

def findSymbolsByFile : List Symbol :=
 db.symbols.rows.filter fun s => s.fileId = id

def findChunksByFile : List Chunk :=
 db.chunks.rows.filter fun c => c.fileId = id

def findEdgesByFile : List GraphEdge :=
 (db.edges.filter fun r => r.sourceFileId = id).map EdgeRow.edge

def findIncomingEdges (nodeLimit : Nat) : List GraphEdge :=
 ((db.edges.filter fun r => r.edge.toNode = .file id).map EdgeRow.edge).take nodeLimit

def filterEdges (keep : EdgeRow → Bool) : Db :=
 { db with
   edges := db.edges.filter keep
   edgeFiles := fun r hr => db.edgeFiles r (mem_of_mem_filter hr)
   edgeColumns := fun r hr => db.edgeColumns r (mem_of_mem_filter hr) }

def touchesSymbol (ids : List SymbolId) (edge : GraphEdge) : Bool :=
 ids.any fun id => edge.fromNode = .symbol id ∨ edge.toNode = .symbol id

def deleteEdgesForSymbolEndpoints (ids : List SymbolId) : Db :=
 db.filterEdges fun r => !touchesSymbol ids r.edge

def startsInFile (row : EdgeRow) : Bool :=
 row.edge.fromNode = .file id ∨ (row.sourceFileId = id ∧ row.edge.fromNode.isFile = false)

def deleteGraphEdgesForSourceFile : Db :=
 db.filterEdges fun r => !startsInFile id r

def deleteFileFacts : Db :=
 { db with
   symbols := db.symbols.deleteWhere fun s => s.fileId = id
   symbolFiles := fun s hs => db.symbolFiles s (mem_of_mem_filter hs)
   chunks := db.chunks.deleteWhere fun c => c.fileId = id
   chunkFiles := fun c hc => db.chunkFiles c (mem_of_mem_filter hc) }

def upsertFile (file : File) : Db :=
 { db with
   files := db.files.upsert file
   symbolFiles := fun s hs => Table.mem_keys_upsert.mpr (Or.inr (db.symbolFiles s hs))
   chunkFiles := fun c hc => Table.mem_keys_upsert.mpr (Or.inr (db.chunkFiles c hc))
   edgeFiles := fun r hr => Table.mem_keys_upsert.mpr (Or.inr (db.edgeFiles r hr)) }

/-- Rows that name no file row, or whose id is taken, fail the statement. -/
def insertSymbols (symbols : List Symbol) : Option Db :=
 if hf : ∀ s ∈ symbols,s.fileId ∈ db.files.rows.map fileKeyForFile then
  match h : db.symbols.insertAll symbols with
  | none => none
  | some table => some
   { db with
     symbols := table
     symbolFiles := by
      intro s hs
      rw [Table.insertAll_rows h,mem_append] at hs
      exact hs.elim (db.symbolFiles s) (hf s) }
 else none

def insertChunks (chunks : List Chunk) : Option Db :=
 if hf : ∀ c ∈ chunks,c.fileId ∈ db.files.rows.map fileKeyForFile then
  match h : db.chunks.insertAll chunks with
  | none => none
  | some table => some
   { db with
     chunks := table
     chunkFiles := by
      intro c hc
      rw [Table.insertAll_rows h,mem_append] at hc
      exact hc.elim (db.chunkFiles c) (hf c) }
 else none

def ownedRows (edges : List GraphEdge) : List EdgeRow :=
 edges.map fun e => ⟨id,storedEdge e⟩

theorem mem_ownedRows {id : FileId} {row : EdgeRow} :
 row∈ownedRows id edges ↔ ∃e∈edges,row=⟨id,storedEdge e⟩ := by
 simp [ownedRows,eq_comm]

def insertEdges (edges : List GraphEdge) (id : FileId) : Option Db :=
 if hf : edges = [] ∨ id ∈ db.files.rows.map fileKeyForFile then
  some
   { db with
     edges := db.edges++ownedRows id edges
     edgeFiles := by
      intro r hr
      rcases mem_append.mp hr with hr | hr
      · exact db.edgeFiles r hr
      · obtain ⟨e,he,rfl⟩ := mem_ownedRows.mp hr
        exact hf.resolve_left (ne_nil_of_mem he)
     edgeColumns := by
      intro r hr
      rcases mem_append.mp hr with hr | hr
      · exact db.edgeColumns r hr
      · obtain ⟨e,-,rfl⟩ := mem_ownedRows.mp hr
        exact storedEdge_storedEdge e }
 else none

/-- `write_file_atomically`. An error leaves the transaction rolled back, so the
 result is the message of the failed statement or the database committed. -/
def writeFileAtomically (file : File) (symbols : List Symbol) (chunks : List Chunk)
 (graphEdges : List GraphEdge) (hasExisting : Bool) : Except String Db :=
 let id := fileKeyForFile file
 let cleared := if hasExisting then
  (db.deleteEdgesForSymbolEndpoints ((db.findSymbolsByFile id).map Symbol.id)).deleteFileFacts id
  else db
 let upserted := (cleared.deleteGraphEdgesForSourceFile id).upsertFile file
 match upserted.insertSymbols symbols with
 | none => .error ("insert symbols for " ++ file.relPath.text)
 | some withSymbols =>
  match withSymbols.insertEdges graphEdges id with
  | none => .error ("insert graph edges for " ++ file.relPath.text)
  | some withEdges =>
   match withEdges.insertChunks chunks with
   | none => .error ("insert chunks for " ++ file.relPath.text)
   | some written => .ok written

def deletedRow (file : File) (deletedAt : Int) (runIdMarker : String) : File :=
 { file with
   deletedAtUnixMs := some deletedAt
   lastIndexedAtUnixMs := some deletedAt
   symbolCount := 0
   chunkCount := 0
   parseStatus := .skipped
   parseError := none
   freshnessState := .deleted
   freshnessReason := some .deletedPath
   lastFreshnessRunId := some runIdMarker }

def markDeletedFile (file : File) (deletedAt : Int) (runIdMarker : String) : Db :=
 let id := fileKeyForFile file
 let ids := (db.findSymbolsByFile id).map Symbol.id
 let cleared := (db.deleteFileFacts id).deleteGraphEdgesForSourceFile id
 let unlinked := cleared.filterEdges fun r => !decide (r.edge.toNode = .file id)
 (unlinked.deleteEdgesForSymbolEndpoints ids).upsertFile (deletedRow file deletedAt runIdMarker)

def updateState (state : IndexState) : Db := { db with state := some state }

section
variable {db db' : Db} {symbols : List Symbol} {chunks : List Chunk}

theorem insertSymbols_eq_some (h:db.insertSymbols symbols=some db') :
 db'.symbols.rows=db.symbols.rows++symbols ∧ db'.files=db.files ∧
  db'.chunks=db.chunks ∧ db'.edges=db.edges ∧ db'.workspaceRoot=db.workspaceRoot ∧
  db'.roots=db.roots ∧ db'.state=db.state := by
 unfold insertSymbols at h
 split at h
 · split at h
   · cases h
   · next table ht =>
     cases h
     exact ⟨Table.insertAll_rows ht,rfl,rfl,rfl,rfl,rfl,rfl⟩
 · cases h

theorem insertChunks_eq_some (h:db.insertChunks chunks=some db') :
 db'.chunks.rows=db.chunks.rows++chunks ∧ db'.files=db.files ∧
  db'.symbols=db.symbols ∧ db'.edges=db.edges ∧ db'.workspaceRoot=db.workspaceRoot ∧
  db'.roots=db.roots ∧ db'.state=db.state := by
 unfold insertChunks at h
 split at h
 · split at h
   · cases h
   · next table ht =>
     cases h
     exact ⟨Table.insertAll_rows ht,rfl,rfl,rfl,rfl,rfl,rfl⟩
 · cases h

theorem insertEdges_eq_some {id : FileId} (h:db.insertEdges edges id=some db') :
 db'.edges=db.edges++ownedRows id edges ∧ db'.files=db.files ∧
  db'.symbols=db.symbols ∧ db'.chunks=db.chunks ∧ db'.workspaceRoot=db.workspaceRoot ∧
  db'.roots=db.roots ∧ db'.state=db.state := by
 unfold insertEdges at h
 split at h
 · cases h
   exact ⟨rfl,rfl,rfl,rfl,rfl,rfl,rfl⟩
 · cases h

def keptByWrite (db : Db) (id : FileId) (hasExisting : Bool) : EdgeRow → Bool := fun row =>
 !(hasExisting && touchesSymbol ((db.findSymbolsByFile id).map Symbol.id) row.edge) &&
  !startsInFile id row

structure Written (db db' : Db) (file : File) (symbols : List Symbol) (chunks : List Chunk)
 (graphEdges : List GraphEdge) (hasExisting : Bool) : Prop where
 files : db'.files = db.files.upsert file
 symbols : db'.symbols.rows =
  db.symbols.rows.filter (fun s => !(hasExisting && s.fileId = fileKeyForFile file))++symbols
 chunks : db'.chunks.rows =
  db.chunks.rows.filter (fun c => !(hasExisting && c.fileId = fileKeyForFile file))++chunks
 edges : db'.edges =
  db.edges.filter (db.keptByWrite (fileKeyForFile file) hasExisting) ++
   ownedRows (fileKeyForFile file) graphEdges
 workspaceRoot : db'.workspaceRoot = db.workspaceRoot
 roots : db'.roots = db.roots
 state : db'.state = db.state

theorem writeFileAtomically_ok {graphEdges : List GraphEdge} {hasExisting : Bool}
 (h:db.writeFileAtomically file symbols chunks graphEdges hasExisting = .ok db') :
 Written db db' file symbols chunks graphEdges hasExisting := by
 unfold writeFileAtomically at h
 simp only at h
 split at h
 · cases h
 next withSymbols hs =>
 split at h
 · cases h
 next withEdges he =>
 split at h
 · cases h
 next written hc =>
 cases h
 obtain ⟨hs,hsf,hsc,hse,hsw,hsr,hst⟩:=insertSymbols_eq_some hs
 obtain ⟨he,hef,hes,hec,hew,her,het⟩:=insertEdges_eq_some he
 obtain ⟨hc,hcf,hcs,hce,hcw,hcr,hct⟩:=insertChunks_eq_some hc
 constructor
 · rw [hcf,hef,hsf]
   cases hasExisting <;> rfl
 · rw [hcs,hes,hs]
   cases hasExisting <;> simp [upsertFile,deleteGraphEdgesForSourceFile,filterEdges,deleteFileFacts,
    deleteEdgesForSymbolEndpoints]
 · rw [hc,hec,hsc]
   cases hasExisting <;> simp [upsertFile,deleteGraphEdgesForSourceFile,filterEdges,deleteFileFacts,
    deleteEdgesForSymbolEndpoints]
 · rw [hce,he,hse]
   cases hasExisting <;> simp only [deleteGraphEdgesForSourceFile,filterEdges,deleteFileFacts,
    deleteEdgesForSymbolEndpoints,filter_filter,if_true,
     append_cancel_right_eq] <;> refine filter_congr fun r _=>?_
   · simp [keptByWrite]
   · simp [keptByWrite,Bool.and_comm]
 · rw [hcw,hew,hsw]
   cases hasExisting <;> rfl
 · rw [hcr,her,hsr]
   cases hasExisting <;> rfl
 · rw [hct,het,hst]
   cases hasExisting <;> rfl

section
variable {file : File} {symbols : List Symbol} {chunks : List Chunk}
 {graphEdges : List GraphEdge} {hasExisting : Bool}

section
variable (h : Written db db' file symbols chunks graphEdges hasExisting)
include h

theorem Written.mem_files {f : File} : f∈db'.files.rows ↔
  f=file ∨ f∈db.files.rows ∧ fileKeyForFile f≠fileKeyForFile file := by
 rw [h.files,Table.mem_upsert]

theorem Written.symbolsOf (hs:∀s∈symbols,s.fileId=fileKeyForFile file) (id : FileId) :
 db'.findSymbolsByFile id=if id=fileKeyForFile file then
  (if hasExisting then [] else db.findSymbolsByFile id)++symbols
 else db.findSymbolsByFile id := by
 unfold findSymbolsByFile
 rw [h.symbols,filter_owner_append Symbol.fileId _ _ _ _ _ hs]

theorem Written.chunksOf (hc:∀c∈chunks,c.fileId=fileKeyForFile file) (id : FileId) :
 db'.findChunksByFile id=if id=fileKeyForFile file then
  (if hasExisting then [] else db.findChunksByFile id)++chunks
 else db.findChunksByFile id := by
 unfold findChunksByFile
 rw [h.chunks,filter_owner_append Chunk.fileId _ _ _ _ _ hc]

end

end

section
variable (db : Db) (file : File) (deletedAt : Int) (marker : String)

theorem markDeletedFile_files :
 (db.markDeletedFile file deletedAt marker).files =
  db.files.upsert (deletedRow file deletedAt marker) := rfl

theorem markDeletedFile_symbolsOf (id : FileId) :
 (db.markDeletedFile file deletedAt marker).findSymbolsByFile id =
  if id=fileKeyForFile file then [] else db.findSymbolsByFile id :=
 filter_owner_wipe Symbol.fileId db.symbols.rows (fileKeyForFile file) id

theorem markDeletedFile_chunksOf (id : FileId) :
 (db.markDeletedFile file deletedAt marker).findChunksByFile id =
  if id=fileKeyForFile file then [] else db.findChunksByFile id :=
 filter_owner_wipe Chunk.fileId db.chunks.rows (fileKeyForFile file) id

end

end

end Db
end DhKit.Indexer
