import DhKit.SessionRecords

/-!
# Export and import of a session

An export lists the records of a session newest first; an import saves them in that order.
-/
namespace DhKit.SessionRecords
open KeyedTables NewestFirst List

structure SessionExportPayload where
 session : SessionState
 runtimeEvents : List SessionRuntimeEventRecord
 summaries : List SessionSummaryRecord
 checkpoints : List SessionCheckpointRecord
 reverts : List SessionRevertRecord

structure SessionExportSource where
 product : String
 version : String
 repoRoot : String

structure SessionExportDocument where
 schemaVersion : Nat
 exportedAt : String
 source : SessionExportSource
 sanitized : Bool
 payload : SessionExportPayload

def sessionExportSchemaVersion : Nat := 1

variable (db : Database)

/-- `ORDER BY updated_at DESC, created_at DESC LIMIT 1`. -/
def Database.findLatestSession : Option SessionState :=
 ((db.sessions.rows.insertionSort fun a b =>
  b.updatedAt < a.updatedAt ∨ b.updatedAt = a.updatedAt ∧ b.createdAt ≤ a.createdAt).head?).map
   fun row => { row with laneLocked := true }

def Database.exportPayload (session : SessionState) : SessionExportPayload where
 session := session
 runtimeEvents := db.listRuntimeEvents session.sessionId
 summaries := db.listSummaries session.sessionId
 checkpoints := db.listCheckpoints session.sessionId
 reverts := db.listReverts session.sessionId

/-- `buildSessionExport` without `sanitize`. An empty session id counts as none. -/
def buildSessionExport (repoRoot : String) (sessionId : Option String)
 (version exportedAt : String) : Except String SessionExportDocument :=
 let session := match sessionId.filter (· ≠ "") with
  | some id => db.findSession id
  | none => db.findLatestSession
 match session with
 | none =>
  .error (match sessionId.filter (· ≠ "") with
   | some id => s!"Session '{id}' was not found."
   | none => "No session is available to export.")
 | some session =>
  .ok { schemaVersion := sessionExportSchemaVersion
        exportedAt := exportedAt
        source := ⟨"dh",version,repoRoot⟩
        sanitized := false
        payload := db.exportPayload session }

def Database.importPayload (repoRoot : String) (payload : SessionExportPayload) :
 Database :=
 let sessionId := payload.session.sessionId
 { sessions := db.sessions.upsert { payload.session with repoRoot := repoRoot }
   workflowStates := db.workflowStates
   runtimeEvents := (payload.runtimeEvents.map fun event =>
    { event with sessionId := sessionId }).foldl Table.upsert db.runtimeEvents
   summaries := (payload.summaries.map fun summary =>
    { summary with sessionId := sessionId }).foldl Table.upsert db.summaries
   checkpoints := (payload.checkpoints.map fun checkpoint =>
    { checkpoint with sessionId := sessionId }).foldl Table.upsert db.checkpoints
   reverts := (payload.reverts.map fun revert =>
    { revert with sessionId := sessionId }).foldl Table.upsert db.reverts }

structure SessionImportReport where
 sessionId : String
 runtimeEvents : Nat
 summaries : Nat
 checkpoints : Nat
 reverts : Nat

/-- `importSessionDocument` of a document with the fields of an export. -/
def importSessionDocument (repoRoot : String) (document : SessionExportDocument) :
 Except String (Database × SessionImportReport) :=
 if document.schemaVersion≠sessionExportSchemaVersion then
  .error (s!"Unsupported session export schema version {document.schemaVersion}. " ++
   "This DH build supports version 1.")
 else if document.payload.session.sessionId = "" then
  .error "Invalid session export: payload.session.sessionId is required."
 else
  .ok (db.importPayload repoRoot document.payload,
   { sessionId := document.payload.session.sessionId
     runtimeEvents := document.payload.runtimeEvents.length
     summaries := document.payload.summaries.length
     checkpoints := document.payload.checkpoints.length
     reverts := document.payload.reverts.length })

section
variable {α : Type} {id owner time : α → String}
 {withOwner : α → α} {t : Table String α id} {sessionId : String}

theorem nodup_own (t : Table String α id) (sessionId : String) :
 (t.rows.filter fun row=>owner row=sessionId).Nodup :=
 t.nodup.of_map.filter _

theorem rows_saved (ho:∀row,owner row=sessionId → withOwner row=row) :
 (((newestFirst time (t.rows.filter fun row=>owner row=sessionId)).map withOwner).foldl
  Table.upsert (Table.empty : Table String α id)).rows =
 newestFirst time (t.rows.filter fun row=>owner row=sessionId) := by
 have hsa:(newestFirst time (t.rows.filter fun row=>owner row=sessionId)).map withOwner =
  newestFirst time (t.rows.filter fun row=>owner row=sessionId) := by
  have hr:∀row∈newestFirst time (t.rows.filter fun row=>owner row=sessionId),
   withOwner row=row := fun row hrow=>
   ho row (by simpa using (mem_filter.mp (mem_newestFirst.mp hrow)).2)
  rw [map_congr_left hr,map_id']
 have hk:((newestFirst time (t.rows.filter fun row=>owner row=sessionId)).map id).Nodup:=
  (newestFirst_perm.map id).nodup_iff.mpr (t.nodup.sublist (filter_sublist.map id))
 rw [hsa,Table.rows_foldl_upsert (by simpa using hk)]
 rfl

theorem relisted_iff (ho:∀row,owner row=sessionId → withOwner row=row) :
 newestFirst time ((((newestFirst time (t.rows.filter fun row=>owner row=sessionId)).map
  withOwner).foldl Table.upsert (Table.empty : Table String α id)).rows.filter fun row=>
   owner row=sessionId) =
  newestFirst time (t.rows.filter fun row=>owner row=sessionId) ↔
 ((t.rows.filter fun row=>owner row=sessionId).map time).Nodup := by
 have hal:((newestFirst time (t.rows.filter fun row=>owner row=sessionId)).filter
  fun row=>owner row=sessionId) =
  newestFirst time (t.rows.filter fun row=>owner row=sessionId) :=
  filter_eq_self.mpr fun row hrow=>(mem_filter.mp (mem_newestFirst.mp hrow)).2
 rw [rows_saved ho,hal]
 exact newestFirst_again_iff (nodup_own t sessionId)

end

structure SameSession (db db' : Database) (payload : SessionExportPayload) (repoRoot : String) :
 Prop where
 session : db'.findSession payload.session.sessionId =
  (db.findSession payload.session.sessionId).map fun session =>
   { session with repoRoot := repoRoot }
 runtimeEvents : db'.listRuntimeEvents payload.session.sessionId =
  db.listRuntimeEvents payload.session.sessionId
 summaries : db'.listSummaries payload.session.sessionId =
  db.listSummaries payload.session.sessionId
 checkpoints : db'.listCheckpoints payload.session.sessionId =
  db.listCheckpoints payload.session.sessionId
 reverts : db'.listReverts payload.session.sessionId = db.listReverts payload.session.sessionId
 latestRevert : db'.findLatestRevert payload.session.sessionId =
  db.findLatestRevert payload.session.sessionId
 exported : ∀ version exportedAt,∃ document,
  buildSessionExport db' repoRoot (some payload.session.sessionId) version exportedAt =
   .ok document ∧
  document.payload = { payload with session := { payload.session with repoRoot := repoRoot } }

structure DistinctTimes (db : Database) (sessionId : String) : Prop where
 runtimeEvents : ((db.runtimeEvents.rows.filter fun row => row.sessionId = sessionId).map
  SessionRuntimeEventRecord.createdAt).Nodup
 summaries : ((db.summaries.rows.filter fun row => row.sessionId = sessionId).map
  SessionSummaryRecord.updatedAt).Nodup
 checkpoints : ((db.checkpoints.rows.filter fun row => row.sessionId = sessionId).map
  SessionCheckpointRecord.createdAt).Nodup
 reverts : ((db.reverts.rows.filter fun row => row.sessionId = sessionId).map
  SessionRevertRecord.createdAt).Nodup

section
variable {db db' : Database} {session : SessionState} {repoRoot : String}

theorem findSession_of_mem {row : SessionState} (h:row∈db.sessions.rows) :
 db.findSession row.sessionId=some { row with laneLocked := true } := by
 rw [Database.findSession,(Table.find_eq_some _).mpr ⟨h,rfl⟩]
 rfl

theorem payload_of_export {sessionId : Option String} {version exportedAt : String}
 {document : SessionExportDocument}
 (h:buildSessionExport db repoRoot sessionId version exportedAt = .ok document) :
 document.schemaVersion=sessionExportSchemaVersion ∧
  ∃session,db.findSession session.sessionId=some session ∧
   document.payload=db.exportPayload session := by
 unfold buildSessionExport at h
 cases hid : sessionId.filter (· ≠ "") with
 | none =>
  rw [hid] at h
  cases hl : db.findLatestSession with
  | none =>
   rw [hl] at h
   cases h
  | some session =>
   rw [hl] at h
   cases h
   obtain ⟨row,hrow,rfl⟩:=Option.map_eq_some_iff.mp hl
   have hme:=(mem_insertionSort _).mp (mem_of_mem_head? hrow)
   exact ⟨rfl,_,findSession_of_mem hme,rfl⟩
 | some id =>
  rw [hid] at h
  cases hfound : db.findSession id with
  | none =>
   dsimp only at h
   rw [hfound] at h
   cases h
  | some session =>
   dsimp only at h
   rw [hfound] at h
   cases h
   obtain ⟨row,hrow,rfl⟩:=Option.map_eq_some_iff.mp hfound
   exact ⟨rfl,_,findSession_of_mem ((Table.find_eq_some _).mp hrow).1,rfl⟩

theorem findSession_locked (h:db.findSession session.sessionId=some session) :
 session.laneLocked=true := by
 obtain ⟨row,-,rfl⟩:=Option.map_eq_some_iff.mp h
 rfl

theorem findSession_import (hl:session.laneLocked=true) :
 (Database.empty.importPayload repoRoot (db.exportPayload session)).findSession
  session.sessionId=some { session with repoRoot := repoRoot } := by
 change Option.map _ ((Table.empty.upsert { session with repoRoot := repoRoot }).find
  session.sessionId)=_
 rw [Table.find_upsert,if_pos rfl,Option.map_some,Option.some.injEq,SessionState.mk.injEq]
 exact ⟨rfl,rfl,rfl,hl.symm,rfl,rfl,rfl,rfl,rfl,rfl,rfl,rfl,rfl,rfl⟩

section
variable (hid : session.sessionId ≠ "") (hfound : db.findSession session.sessionId = some session)
include hid hfound

theorem sameSession_of_listings
 (hse:db'.findSession session.sessionId=some { session with repoRoot := repoRoot })
 (hev:db'.listRuntimeEvents session.sessionId=db.listRuntimeEvents session.sessionId)
 (hsu:db'.listSummaries session.sessionId=db.listSummaries session.sessionId)
 (hch:db'.listCheckpoints session.sessionId=db.listCheckpoints session.sessionId)
 (hr:db'.listReverts session.sessionId=db.listReverts session.sessionId) :
 SameSession db db' (db.exportPayload session) repoRoot := by
 have hl:db'.findLatestRevert session.sessionId =
  db.findLatestRevert session.sessionId := by
  rw [Database.findLatestRevert,hr,Database.findLatestRevert]
 refine ⟨?_,hev,hsu,hch,hr,hl,?_⟩
 · change db'.findSession session.sessionId=(db.findSession session.sessionId).map _
   rw [hse,hfound]
   rfl
 intro version exportedAt
 refine ⟨⟨sessionExportSchemaVersion,exportedAt,⟨"dh",version,repoRoot⟩,false,
  db'.exportPayload { session with repoRoot := repoRoot }⟩,?_,?_⟩
 · change buildSessionExport db' repoRoot (some session.sessionId) version exportedAt=_
   unfold buildSessionExport
   rw [Option.filter_some,if_pos (by simpa using hid)]
   dsimp only
   rw [hse]
 · change SessionExportPayload.mk _ (db'.listRuntimeEvents session.sessionId)
    (db'.listSummaries session.sessionId) (db'.listCheckpoints session.sessionId)
    (db'.listReverts session.sessionId)=_
   rw [hev,hsu,hch,hr]
   rfl

theorem sameSession_iff :
 SameSession db (Database.empty.importPayload repoRoot (db.exportPayload session))
  (db.exportPayload session) repoRoot ↔ DistinctTimes db session.sessionId := by
 have hev:∀row : SessionRuntimeEventRecord,row.sessionId=session.sessionId →
  { row with sessionId := session.sessionId }=row := fun row hrow=>by rw [←hrow]
 have hsu:∀row : SessionSummaryRecord,row.sessionId=session.sessionId →
  { row with sessionId := session.sessionId }=row := fun row hrow=>by rw [←hrow]
 have hch:∀row : SessionCheckpointRecord,row.sessionId=session.sessionId →
  { row with sessionId := session.sessionId }=row := fun row hrow=>by rw [←hrow]
 have hr:∀row : SessionRevertRecord,row.sessionId=session.sessionId →
  { row with sessionId := session.sessionId }=row := fun row hrow=>by rw [←hrow]
 constructor
 · intro h
   exact ⟨(relisted_iff hev).mp h.runtimeEvents,(relisted_iff hsu).mp h.summaries,
    (relisted_iff hch).mp h.checkpoints,(relisted_iff hr).mp h.reverts⟩
 · intro h
   exact sameSession_of_listings hid hfound (findSession_import (findSession_locked hfound))
    ((relisted_iff hev).mpr h.runtimeEvents) ((relisted_iff hsu).mpr h.summaries)
    ((relisted_iff hch).mpr h.checkpoints) ((relisted_iff hr).mpr h.reverts)

end

end

/-- The export of a session, imported into an empty repository, shows the same session, the same
records in the same order and the same export, exactly when the session has an id and no two of
its records of one kind share a time. -/
theorem export_import_iff (repoRoot target : String) (sessionId : Option String)
 (version exportedAt : String) (document : SessionExportDocument)
 (hexport : buildSessionExport db repoRoot sessionId version exportedAt = .ok document) :
 (∃ db' report,importSessionDocument Database.empty target document = .ok (db',report) ∧
  SameSession db db' document.payload target) ↔
 document.payload.session.sessionId ≠ "" ∧
  DistinctTimes db document.payload.session.sessionId := by
 obtain ⟨hv,session,hfound,hp⟩:=payload_of_export hexport
 unfold importSessionDocument
 rw [if_neg (not_not.mpr hv),hp]
 by_cases hid : (db.exportPayload session).session.sessionId = ""
 · rw [if_pos hid]
   constructor
   · rintro ⟨_,_,hth,-⟩
     cases hth
   · intro h
     exact absurd hid h.1
 rw [if_neg hid]
 constructor
 · rintro ⟨db',report,hok,hsa⟩
   cases hok
   exact ⟨hid,(sameSession_iff hid hfound).mp hsa⟩
 · rintro ⟨-,hdi⟩
   exact ⟨_,_,rfl,(sameSession_iff hid hfound).mpr hdi⟩

def revertedTwice (first second : String) : Database :=
 ((Database.empty.saveSession (plainSession "s")).saveRevert
  ⟨"r1","s","a",none,"manual-revert",first⟩).saveRevert
  ⟨"r2","s","b",some "a","manual-revert",second⟩

theorem export_import_iff_two_times : ∃ db' report,
 importSessionDocument Database.empty "/copy" ⟨1,"now",⟨"dh","1.0","/repo"⟩,false,
  (revertedTwice "t1" "t2").exportPayload (plainSession "s")⟩ = .ok (db',report) ∧
 SameSession (revertedTwice "t1" "t2") db'
  ((revertedTwice "t1" "t2").exportPayload (plainSession "s")) "/copy" := by
 apply (export_import_iff (revertedTwice "t1" "t2") "/repo" "/copy" (some "s") "1.0" "now"
  _ rfl).mpr
 refine ⟨by decide,?_,?_,?_,?_⟩
 · exact nodup_nil
 · exact nodup_nil
 · exact nodup_nil
 · decide +kernel

/-- Two reverts in one millisecond: the older one is the latest after the import. -/
theorem import_swaps_reverts :
 let db := revertedTwice "t" "t"
 let db' := Database.empty.importPayload "/copy" (db.exportPayload (plainSession "s"))
 (∃ report,importSessionDocument Database.empty "/copy" ⟨1,"now",⟨"dh","1.0","/repo"⟩,false,
  db.exportPayload (plainSession "s")⟩ = .ok (db',report)) ∧
  (db.findLatestRevert "s").map SessionRevertRecord.id = some "r2" ∧
  (db'.findLatestRevert "s").map SessionRevertRecord.id = some "r1" ∧
  (db.listReverts "s").map SessionRevertRecord.id = ["r2","r1"] ∧
  (db'.listReverts "s").map SessionRevertRecord.id = ["r1","r2"] :=
 ⟨⟨_,rfl⟩,by decide +kernel,by decide +kernel,by decide +kernel,by decide +kernel⟩

end DhKit.SessionRecords
