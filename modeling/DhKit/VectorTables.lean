import Mathlib.Data.List.Dedup
import DhKit.CommitRules
import DhKit.KeyedTables
import DhKit.RankedSelection

/-!
# The embedding and vector tables

Vectors live in three tables.
-/
namespace DhKit.Vectors
open KeyedTables CommitRules RankedSelection List

structure FileRow where
 id : Int
 workspaceId : Int
 rootId : Int
 relPath : String
 deletedAtUnixMs : Option Int
deriving DecidableEq

def FileRow.path (f : FileRow) : Int × Int × String := (f.workspaceId,f.rootId,f.relPath)

structure ChunkRow where
 id : Int
 fileId : Int
 contentHash : String
deriving DecidableEq

/-- What a vec0 table is for; the table's name is made of these and is injective in them. -/
structure Scope where
 workspaceId : Int
 model : String
 dimensions : Nat
deriving DecidableEq

structure EmbeddingRow (F : Type) where
 chunkId : Int
 model : String
 dimensions : Nat
 contentHash : String
 vector : List F
deriving DecidableEq

def EmbeddingRow.key {F : Type} (e : EmbeddingRow F) : Int × String × Nat :=
 (e.chunkId,e.model,e.dimensions)

structure VectorRow (F : Type) where
 chunkId : Int
 scope : Scope
 contentHash : String
 vector : List F
deriving DecidableEq

def VectorRow.key {F : Type} (v : VectorRow F) : Int × String × Nat :=
 (v.chunkId,v.scope.model,v.scope.dimensions)

structure Vec0Row (F : Type) where
 scope : Scope
 chunkId : Int
 contentHash : String
 embedding : List F
deriving DecidableEq

def Vec0Row.key {F : Type} (r : Vec0Row F) : Scope × Int := (r.scope,r.chunkId)

structure Tables (F : Type) where
 files : Table Int FileRow FileRow.id
 filePaths : (files.rows.map FileRow.path).Nodup
 chunks : Table Int ChunkRow ChunkRow.id
 chunkFiles : ∀ c ∈ chunks.rows,c.fileId ∈ files.rows.map FileRow.id
 embeddings : Table (Int × String × Nat) (EmbeddingRow F) EmbeddingRow.key
 embeddingChunks : ∀ e ∈ embeddings.rows,e.chunkId ∈ chunks.rows.map ChunkRow.id
 vectorIndex : Table (Int × String × Nat) (VectorRow F) VectorRow.key
 vectorChunks : ∀ v ∈ vectorIndex.rows,v.chunkId ∈ chunks.rows.map ChunkRow.id
 vec0 : Table (Scope × Int) (Vec0Row F) Vec0Row.key

inductive StoreError where
 | foreignKey
 | unique
 | zeroDimensions
 | dimensionMismatch (expected received : Nat)
deriving DecidableEq

abbrev VecM (F : Type) := Commit (Tables F) StoreError

variable {F : Type} (s : Tables F) (chunkId : Int) (σ : Scope)

namespace Tables

def empty : Tables F where
 files := Table.empty
 filePaths := by simp
 chunks := Table.empty
 chunkFiles := by simp
 embeddings := Table.empty
 embeddingChunks := by simp
 vectorIndex := Table.empty
 vectorChunks := by simp
 vec0 := Table.empty

/-! ## Reads -/

/-- The workspace of a chunk whose hash is `contentHash` and whose file is not deleted. -/
def liveWorkspace (contentHash : String) : Option Int := do
 let c ← s.chunks.find chunkId
 let f ← s.files.find c.fileId
 if c.contentHash = contentHash ∧ f.deletedAtUnixMs = none then some f.workspaceId else none

def stale (contentHash : String) : Bool :=
 match s.chunks.find chunkId with
 | none => true
 | some c => contentHash != c.contentHash ||
  (s.files.find c.fileId).any fun f => f.deletedAtUnixMs.isSome

/-- `embedding_records_for_scope`: the embeddings that join a live chunk of the same hash. -/
def embeddingRecordsForScope : List (EmbeddingRow F) :=
 s.embeddings.rows.filter fun e => e.model = σ.model ∧ e.dimensions = σ.dimensions ∧
  s.liveWorkspace e.chunkId e.contentHash = some σ.workspaceId

def vectorRecordsForScope : List (VectorRow F) :=
 s.vectorIndex.rows.filter fun v => v.scope = σ

def freshVectorRecords : List (VectorRow F) :=
 (s.vectorRecordsForScope σ).filter fun v => (s.liveWorkspace v.chunkId v.contentHash).isSome

def vec0Records : List (Vec0Row F) :=
 s.vec0.rows.filter fun r => r.scope = σ

def chunkContentHash : Option String :=
 (s.chunks.find chunkId).map ChunkRow.contentHash

def vectorIndexContentHash : Option String :=
 ((s.vectorRecordsForScope σ).find? fun v => v.chunkId = chunkId).map VectorRow.contentHash

def vectorWorkspacesForChunkScope (key : Int × String × Nat) : List Int :=
 ((s.vectorIndex.rows.filter fun v => v.key = key).map fun v => v.scope.workspaceId).dedup

/-! ## Statements -/

def deleteVectors (p : VectorRow F → Bool) (q : Vec0Row F → Bool) (s : Tables F) : Tables F where
 files := s.files
 filePaths := s.filePaths
 chunks := s.chunks
 chunkFiles := s.chunkFiles
 embeddings := s.embeddings
 embeddingChunks := s.embeddingChunks
 vectorIndex := s.vectorIndex.deleteWhere p
 vectorChunks := fun v hv => s.vectorChunks v (mem_of_mem_filter hv)
 vec0 := s.vec0.deleteWhere q

def deleteEmbeddings (p : EmbeddingRow F → Bool) (s : Tables F) : Tables F where
 files := s.files
 filePaths := s.filePaths
 chunks := s.chunks
 chunkFiles := s.chunkFiles
 embeddings := s.embeddings.deleteWhere p
 embeddingChunks := fun e he => s.embeddingChunks e (mem_of_mem_filter he)
 vectorIndex := s.vectorIndex
 vectorChunks := s.vectorChunks
 vec0 := s.vec0

theorem kept_of_not_cascaded (fileId : Int) {chunkId : Int}
 (hc:chunkId∈s.chunks.rows.map ChunkRow.id)
 (hk:¬(s.chunks.find chunkId).any fun c=>c.fileId=fileId) :
 chunkId∈(s.chunks.deleteWhere fun c=>c.fileId=fileId).rows.map ChunkRow.id := by
 obtain ⟨c,hme,rfl⟩:=mem_map.mp hc
 rw [(s.chunks.find_eq_some).mpr ⟨hme,rfl⟩] at hk
 exact mem_map.mpr ⟨c,mem_filter.mpr ⟨hme,by simpa using hk⟩,rfl⟩

def deleteChunks (fileId : Int) (s : Tables F) : Tables F where
 files := s.files
 filePaths := s.filePaths
 chunks := s.chunks.deleteWhere fun c => c.fileId = fileId
 chunkFiles := fun c hc => s.chunkFiles c (mem_of_mem_filter hc)
 embeddings := s.embeddings.deleteWhere fun e =>
  (s.chunks.find e.chunkId).any fun c => c.fileId = fileId
 embeddingChunks := fun e he => by
  obtain ⟨he,hk⟩ := mem_filter.mp he
  exact s.kept_of_not_cascaded fileId (s.embeddingChunks e he) (by simpa using hk)
 vectorIndex := s.vectorIndex.deleteWhere fun v =>
  (s.chunks.find v.chunkId).any fun c => c.fileId = fileId
 vectorChunks := fun v hv => by
  obtain ⟨hv,hk⟩ := mem_filter.mp hv
  exact s.kept_of_not_cascaded fileId (s.vectorChunks v hv) (by simpa using hk)
 vec0 := s.vec0

def storeFile (f : FileRow) (s : Tables F) : Except StoreError (Tables F) :=
 if h : ∀ g ∈ s.files.rows,g.id≠f.id → g.path≠f.path then
  .ok {
   files := s.files.upsert f
   filePaths := s.files.nodup_upsert _ s.filePaths f h
   chunks := s.chunks
   chunkFiles := fun c hc => Table.mem_keys_upsert.mpr (Or.inr (s.chunkFiles c hc))
   embeddings := s.embeddings
   embeddingChunks := s.embeddingChunks
   vectorIndex := s.vectorIndex
   vectorChunks := s.vectorChunks
   vec0 := s.vec0 }
 else .error .unique

def insertChunk (c : ChunkRow) (s : Tables F) : Except StoreError (Tables F) :=
 if hf : c.fileId ∈ s.files.rows.map FileRow.id then
  match h : s.chunks.insert c with
  | none => .error .unique
  | some chunks =>
   have hrows := (Table.insert_eq_some.mp h).2
   .ok {
    files := s.files
    filePaths := s.filePaths
    chunks := chunks
    chunkFiles := fun b hb => by
     rw [hrows] at hb
     rcases mem_append.mp hb with hb | hb
     · exact s.chunkFiles b hb
     · rw [mem_singleton.mp hb]
       exact hf
    embeddings := s.embeddings
    embeddingChunks := fun e he => by
     rw [hrows,map_append]
     exact mem_append_left _ (s.embeddingChunks e he)
    vectorIndex := s.vectorIndex
    vectorChunks := fun v hv => by
     rw [hrows,map_append]
     exact mem_append_left _ (s.vectorChunks v hv)
    vec0 := s.vec0 }
 else .error .foreignKey

def storeEmbedding (e : EmbeddingRow F) (s : Tables F) : Except StoreError (Tables F) :=
 if h : e.chunkId ∈ s.chunks.rows.map ChunkRow.id then
  .ok {
   files := s.files
   filePaths := s.filePaths
   chunks := s.chunks
   chunkFiles := s.chunkFiles
   embeddings := s.embeddings.upsert e
   embeddingChunks := fun b hb => by
    rcases Table.mem_upsert.mp hb with rfl | ⟨hb,-⟩
    · exact h
    · exact s.embeddingChunks b hb
   vectorIndex := s.vectorIndex
   vectorChunks := s.vectorChunks
   vec0 := s.vec0 }
 else .error .foreignKey

def storeVector (v : VectorRow F) (s : Tables F) : Except StoreError (Tables F) :=
 if h : v.chunkId ∈ s.chunks.rows.map ChunkRow.id then
  .ok {
   files := s.files
   filePaths := s.filePaths
   chunks := s.chunks
   chunkFiles := s.chunkFiles
   embeddings := s.embeddings
   embeddingChunks := s.embeddingChunks
   vectorIndex := s.vectorIndex.upsert v
   vectorChunks := fun b hb => by
    rcases Table.mem_upsert.mp hb with rfl | ⟨hb,-⟩
    · exact h
    · exact s.vectorChunks b hb
   vec0 := s.vec0 }
 else .error .foreignKey

/-- sqlite-vec refuses a vector whose length is not that of the table's column. -/
def insertVec0 (r : Vec0Row F) (s : Tables F) : Except StoreError (Tables F) :=
 if r.embedding.length = r.scope.dimensions then
  match s.vec0.insert r with
  | none => .error .unique
  | some vec0 => .ok { s with vec0 := vec0 }
 else .error (.dimensionMismatch r.scope.dimensions r.embedding.length)

end Tables

/-! ## The vector index -/

def ensureVec0Table : VecM F Unit :=
 if σ.dimensions = 0 then fail .zeroDimensions else pure ()

def upsertVec0Record (chunkId : Int) (contentHash : String) (vector : List F) :
 VecM F Unit :=
 if σ.dimensions = 0 then pure ()
 else do
  ensureVec0Table σ
  change (Tables.deleteVectors (fun _ => false) fun r => r.key = (σ,chunkId))
  statement (Tables.insertVec0 ⟨σ,chunkId,contentHash,vector⟩)

/-- The deletions return how many rows of `vector_index` they removed. -/
def removeVectors (p : VectorRow F → Bool) (q : Vec0Row F → Bool) : VecM F Nat := do
 let removed ← query fun s => (s.vectorIndex.rows.filter p).length
 change (Tables.deleteVectors p q)
 pure removed

def deleteVectorIndexRecordByChunk : VecM F Nat :=
 removeVectors (fun v => v.chunkId = chunkId) fun r => r.chunkId = chunkId

def deleteVectorIndexRecordByScope (model : String) (dimensions : Nat) :
 VecM F Nat := do
 let workspaceIds ← query fun s => s.vectorWorkspacesForChunkScope (chunkId,model,dimensions)
 removeVectors (fun v => v.key = (chunkId,model,dimensions)) fun r =>
  r.chunkId = chunkId ∧ workspaceIds.any fun ws => r.scope = ⟨ws,model,dimensions⟩

def clearVectorIndexScope : VecM F Unit := do
 change (Tables.deleteVectors (fun v => v.scope = σ) fun _ => false)
 ensureVec0Table σ
 change (Tables.deleteVectors (fun _ => false) fun r => r.scope = σ)

def pruneStaleVectorRecords : VecM F Nat := do
 let stale ← query Tables.stale
 removeVectors (fun v => stale v.chunkId v.contentHash) fun r => stale r.chunkId r.contentHash

/-- The failure of the derived vec0 row is only logged. -/
def upsertVectorIndexRecord (model : String) (dimensions : Nat)
 (contentHash : String) (vector : List F) : VecM F Unit := do
 let workspaceId ← query fun s => s.liveWorkspace chunkId contentHash
 match workspaceId with
 | none =>
  let _ ← deleteVectorIndexRecordByScope chunkId model dimensions
  pure ()
 | some workspaceId =>
  let σ : Scope := ⟨workspaceId,model,dimensions⟩
  let _ ← deleteVectorIndexRecordByScope chunkId model dimensions
  statement (Tables.storeVector ⟨chunkId,σ,contentHash,vector⟩)
  let _ ← attempt (upsertVec0Record σ chunkId contentHash vector)
  pure ()

def hydrateVectorIndex : VecM F Nat :=
 if σ.dimensions = 0 then pure 0
 else do
  ensureVec0Table σ
  clearVectorIndexScope σ
  let pending ← query fun s => s.embeddingRecordsForScope σ
  pending.foldlM (fun hydrated e => do
   upsertVectorIndexRecord e.chunkId e.model e.dimensions e.contentHash e.vector
   pure (hydrated+1)) 0

def syncVec0FromVectorIndex : VecM F Nat := do
 ensureVec0Table σ
 let records ← query fun s => s.freshVectorRecords σ
 change (Tables.deleteVectors (fun _ => false) fun r => r.scope = σ)
 records.foldlM (fun synced v => do
  upsertVec0Record σ v.chunkId v.contentHash v.vector
  pure (synced+1)) 0

/-! ## Embeddings and files -/

def upsertEmbedding (model : String) (dimensions : Nat) (contentHash : String)
 (vector : List F) : VecM F Unit := do
 statement (Tables.storeEmbedding ⟨chunkId,model,dimensions,contentHash,vector⟩)
 upsertVectorIndexRecord chunkId model dimensions contentHash vector

def deleteEmbedding : VecM F Unit := do
 change (Tables.deleteEmbeddings fun e => e.chunkId = chunkId)
 let _ ← deleteVectorIndexRecordByChunk chunkId
 pure ()

def deleteEmbeddingForModel (model : String) (dimensions : Nat) :
 VecM F Unit := do
 change (Tables.deleteEmbeddings fun e => e.key = (chunkId,model,dimensions))
 let _ ← deleteVectorIndexRecordByScope chunkId model dimensions
 pure ()

def upsertFile (f : FileRow) : VecM F Unit := statement (Tables.storeFile f)

def deleteFileFacts (fileId : Int) : VecM F Unit := do
 let chunks ← query fun s => s.chunks.rows.filter fun c => c.fileId = fileId
 chunks.foldlM (fun _ c => do
  let _ ← deleteVectorIndexRecordByChunk c.id
  pure ()) ()
 change (Tables.deleteChunks fileId)

def insertChunks (chunks : List ChunkRow) : VecM F Unit :=
 chunks.foldlM (fun _ c => statement (Tables.insertChunk c)) ()

def deleteExistingFacts (fileId : Int) (hasExisting : Bool) : VecM F Unit :=
 if hasExisting then deleteFileFacts fileId else pure ()

def writeFileAtomically (f : FileRow) (chunks : List ChunkRow) (hasExisting : Bool) :
 VecM F Unit :=
 transaction do
  deleteExistingFacts f.id hasExisting
  upsertFile f
  let _ ← pruneStaleVectorRecords
  insertChunks chunks

def markDeletedFile (f : FileRow) (deletedAtUnixMs : Int) : VecM F Unit :=
 transaction do
  deleteFileFacts f.id
  upsertFile { f with deletedAtUnixMs := some deletedAtUnixMs }
  let _ ← pruneStaleVectorRecords
  pure ()

/-! ## Search -/

inductive VectorSearchBackend where
 | vectorDb
 | sqliteScan
deriving DecidableEq

structure VectorSearchRecord (S : Type) where
 chunkId : Int
 score : S
deriving DecidableEq

structure VectorSearchOutcome (S : Type) where
 records : List (VectorSearchRecord S)
 backend : VectorSearchBackend
 degraded : Bool
 degradedReason : Option String
 scannedRecords : Nat
deriving DecidableEq

/-- The vector engine. Similarities decrease as distances grow, and `knn` returns
 nearest rows in order of distance. -/
structure VecEngine (F S : Type) [LinearOrder S] where
 similarity : List F → List F → S
 knn : List F → Nat → List (Vec0Row F) → List (Vec0Row F)
 exact : ∀ q k rows,IsTop (fun r => similarity q r.embedding) k rows (knn q k rows)
 errorText : StoreError → String

section
variable {S : Type} [LinearOrder S] (engine : VecEngine F S)

/-- Whether a vec0 table can be searched: an index without fresh rows is pruned and,
 when that leaves it empty, filled from the canonical embeddings. -/
def prepareVec0 (freshRecords : Nat) : VecM F Bool :=
 if freshRecords = 0 then do
  let _ ← pruneStaleVectorRecords
  let canonicalRecords ← query fun s => (s.embeddingRecordsForScope σ).length
  let indexedRecords ← query fun s => (s.vectorRecordsForScope σ).length
  if canonicalRecords = 0 ∨ 0 < indexedRecords then pure false
  else do
   let hydrated ← hydrateVectorIndex σ
   pure (hydrated≠0)
 else pure true

/-- A vec0 table with fewer rows than the index has fresh ones is written anew. -/
def refreshVec0 (freshRecords : Nat) : VecM F Unit := do
 let count ← query fun s => (s.vec0Records σ).length
 if count < freshRecords then do
  let _ ← syncVec0FromVectorIndex σ
  pure ()
 else pure ()

/-- A row of the nearest-neighbour query is a hit when it names a chunk and an index row
 of one hash. -/
def vec0Hit (s : Tables F) (σ : Scope) (queryVector : List F) (minScore : S) (r : Vec0Row F) :
 Option (VectorSearchRecord S) := do
 let chunkContentHash ← s.chunkContentHash r.chunkId
 let indexContentHash ← s.vectorIndexContentHash r.chunkId σ
 let score := engine.similarity queryVector r.embedding
 if chunkContentHash = indexContentHash ∧ minScore ≤ score then some ⟨r.chunkId,score⟩ else none

section
variable (σ : Scope) (queryVector : List F) (limit : Nat) (minScore : S)

def semanticVec0Search :
 VecM F (Option (VectorSearchOutcome S)) := do
 let freshRecords ← query fun s => (s.freshVectorRecords σ).length
 let ready ← prepareVec0 σ freshRecords
 if ready then do
  ensureVec0Table σ
  refreshVec0 σ freshRecords
  let records ← query fun s =>
   (engine.knn queryVector limit (s.vec0Records σ)).filterMap
    (vec0Hit engine s σ queryVector minScore)
  pure (some {
   records := records
   backend := .vectorDb
   degraded := false
   degradedReason := none
   scannedRecords := min (max freshRecords records.length) limit })
 else pure none

def semanticSqliteScan (degradedReason : String) (s : Tables F) : VectorSearchOutcome S :=
 let records := s.embeddingRecordsForScope σ
 let matching := (records.map fun r =>
  (⟨r.chunkId,engine.similarity queryVector r.vector⟩ : VectorSearchRecord S)).filter fun r =>
   minScore ≤ r.score
 { records := (ranked VectorSearchRecord.score matching).take limit
   backend := .sqliteScan
   degraded := true
   degradedReason := some degradedReason
   scannedRecords := records.length }

def semanticVectorSearch :
 VecM F (VectorSearchOutcome S) :=
 if limit = 0 ∨ queryVector = [] ∨ queryVector.length≠σ.dimensions then
  pure {
   records := []
   backend := .vectorDb
   degraded := queryVector.length≠σ.dimensions
   degradedReason := if queryVector.length≠σ.dimensions then
    some ("query vector dimensions " ++ toString queryVector.length ++
     " did not match requested dimensions " ++ toString σ.dimensions)
    else none
   scannedRecords := 0 }
 else do
  let outcome ← attempt (semanticVec0Search engine σ queryVector limit minScore)
  match outcome with
  | .ok (some outcome) => pure outcome
  | .ok none => query (semanticSqliteScan engine σ queryVector limit minScore
   "vector index empty; using canonical sqlite embedding scan")
  | .error e => query (semanticSqliteScan engine σ queryVector limit minScore
   ("vector backend failed: " ++ engine.errorText e ++
    "; using canonical sqlite embedding scan"))

end

end

/-! ## Sequences of operations -/

inductive Op (F S : Type) where
 | upsertFile (f : FileRow)
 | writeFileAtomically (f : FileRow) (chunks : List ChunkRow) (hasExisting : Bool)
 | markDeletedFile (f : FileRow) (deletedAtUnixMs : Int)
 | upsertEmbedding (e : EmbeddingRow F)
 | deleteEmbedding (chunkId : Int)
 | deleteEmbeddingForModel (chunkId : Int) (model : String) (dimensions : Nat)
 | upsertVectorIndexRecord (e : EmbeddingRow F)
 | deleteVectorIndexRecord (chunkId : Int)
 | pruneStaleVectorRecords
 | hydrateVectorIndex (σ : Scope)
 | semanticVectorSearch (σ : Scope) (queryVector : List F) (limit : Nat) (minScore : S)

variable {S : Type} [LinearOrder S]

/-- The tables an operation leaves, whether it succeeds or fails. -/
def Op.run (engine : VecEngine F S) (s : Tables F) : Op F S → Tables F
 | .upsertFile f => (Vectors.upsertFile f s).2
 | .writeFileAtomically f chunks hasExisting =>
  (Vectors.writeFileAtomically f chunks hasExisting s).2
 | .markDeletedFile f deletedAtUnixMs => (Vectors.markDeletedFile f deletedAtUnixMs s).2
 | .upsertEmbedding e =>
  (Vectors.upsertEmbedding e.chunkId e.model e.dimensions e.contentHash e.vector s).2
 | .deleteEmbedding chunkId => (Vectors.deleteEmbedding chunkId s).2
 | .deleteEmbeddingForModel chunkId model dimensions =>
  (Vectors.deleteEmbeddingForModel chunkId model dimensions s).2
 | .upsertVectorIndexRecord e =>
  (Vectors.upsertVectorIndexRecord e.chunkId e.model e.dimensions e.contentHash e.vector s).2
 | .deleteVectorIndexRecord chunkId => (deleteVectorIndexRecordByChunk chunkId s).2
 | .pruneStaleVectorRecords => (Vectors.pruneStaleVectorRecords s).2
 | .hydrateVectorIndex σ => (Vectors.hydrateVectorIndex σ s).2
 | .semanticVectorSearch σ q limit minScore =>
  (Vectors.semanticVectorSearch engine σ q limit minScore s).2

/-- The tables some sequence of operations leads to from a new database, each meeting
 the condition in the tables it starts from. -/
inductive Reached (engine : VecEngine F S) (allowed : Tables F → Op F S → Prop) :
 Tables F → Prop where
 | empty : Reached engine allowed Tables.empty
 | step {s : Tables F} (op : Op F S) (h : Reached engine allowed s) (ha : allowed s op) :
  Reached engine allowed (op.run engine s)

end DhKit.Vectors
