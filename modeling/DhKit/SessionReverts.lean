import DhKit.SessionRecords

/-!
# Reverting a session to a checkpoint

`revertTo` binds the snapshots of a checkpoint, adds a revert record and moves the pointers of the
session; `undoRevert` reverts to the checkpoint that the newest record calls the previous one.
-/
namespace DhKit.SessionRecords
open KeyedTables JsonRpc NewestFirst

structure Driver where
 integer : Json → Option Json
 text : Json → Option Json
 text_string : ∀ value,text (.string value) = some (.string value)

inductive RecordKind where
 | session | runtimeEvent | summary | checkpoint | revert
deriving DecidableEq

/-- The driver, and the ids and times drawn for each kind of record. An id begins with the name of
its kind, and random ids do not repeat. -/
structure Surroundings where
 createId : RecordKind → Nat → String
 createId_injective : ∀ {kind kind' m n},createId kind m = createId kind' n →
  kind = kind' ∧ m = n
 createId_ne_empty : ∀ kind n,createId kind n ≠ ""
 nowIso : RecordKind → Nat → String
 driver : Driver

/-- The database and the sessions with a run under way; `ticks` counts the ids drawn. -/
structure World where
 db : Database
 busy : List String
 ticks : Nat

/-- A `NOT NULL` column: a field that is missing or null is refused. -/
def bindRequired (bind : Json → Option Json) : Option Json → Option Json
 | none | some .null => none
 | some value => bind value

def bindOptional (bind : Json → Option Json) : Option Json → Option (Option Json)
 | none | some .null => some none
 | some value => (bind value).map some

def orElse (default : Json) : Option Json → Json
 | none | some .null => default
 | some value => value

/-- `WorkflowStateRepo.save` of a snapshot: the row it stores, if every value can be bound. -/
def bindWorkflow (driver : Driver) (sessionId : String) (snapshot : Json) :
 Option WorkflowState := do
 let lane ← bindRequired driver.text (snapshot.get "lane")
 let stage ← bindRequired driver.text (snapshot.get "stage")
 let stageStatus ← bindRequired driver.text (snapshot.get "stageStatus")
 let previousStage ← bindOptional driver.text (snapshot.get "previousStage")
 let nextStage ← bindOptional driver.text (snapshot.get "nextStage")
 let gateStatus ← bindRequired driver.text (snapshot.get "gateStatus")
 let blockers ← snapshot.get "blockers"
 return ⟨sessionId,lane,stage,stageStatus,previousStage,nextStage,gateStatus,blockers⟩

/-- The summary that `revertTo` saves for the snapshot of a checkpoint. -/
def bindSummary (driver : Driver) (id sessionId checkpointId updatedAt : String)
 (snapshot : Json) : Option SessionSummaryRecord :=
 if snapshot.isNull then none
 else do
  let filesChanged ← driver.integer (orElse (.unsigned 0) (snapshot.get "filesChanged"))
  let additions ← driver.integer (orElse (.unsigned 0) (snapshot.get "additions"))
  let deletions ← driver.integer (orElse (.unsigned 0) (snapshot.get "deletions"))
  let lastDiffAt ← bindOptional driver.text (snapshot.get "lastDiffAt")
  let latestStage ← bindOptional driver.text (snapshot.get "latestStage")
  let latestCheckpointId ←
   driver.text (orElse (.string checkpointId) (snapshot.get "latestCheckpointId"))
  let continuationSummary ← bindOptional driver.text (snapshot.get "continuationSummary")
  let continuationCreatedAt ← bindOptional driver.text (snapshot.get "continuationCreatedAt")
  return { id,sessionId,filesChanged,additions,deletions,lastDiffAt,latestStage,
           latestCheckpointId := some latestCheckpointId,continuationSummary,
           continuationCreatedAt,updatedAt }

structure RevertReport where
 revertId : String
 checkpointId : String
deriving DecidableEq

section
variable (env : Surroundings)

def recordRevert (w : World) (session : SessionState) (checkpoint : SessionCheckpointRecord)
 (summary : SessionSummaryRecord) (reason : String) : World × Except String RevertReport :=
 let sessionId := session.sessionId
 let db := w.db.saveSummary summary
 let previous := db.findLatestRevert sessionId
 let revert : SessionRevertRecord :=
  { id := env.createId .revert w.ticks
    sessionId := sessionId
    checkpointId := checkpoint.id
    previousCheckpointId := previous.map SessionRevertRecord.checkpointId
    reason := reason
    createdAt := env.nowIso .revert w.ticks }
 let session := { session with
  currentStage := checkpoint.stage
  latestCheckpointId := some checkpoint.id
  latestSummaryId := some summary.id
  latestRevertId := some revert.id
  updatedAt := env.nowIso .session w.ticks }
 let event : SessionRuntimeEventRecord :=
  { id := env.createId .runtimeEvent w.ticks
    sessionId := sessionId
    eventType := "revert"
    eventJson := .object [("checkpointId",.string checkpoint.id),
     ("revertId",.string revert.id),("reason",.string reason)]
    createdAt := env.nowIso .runtimeEvent w.ticks }
 let db := ((db.saveRevert revert).saveSession session).saveRuntimeEvent event
 ({ w with db := db,ticks := w.ticks+1 },.ok ⟨revert.id,checkpoint.id⟩)

/-- `SessionRevertService.revertTo`. Its calls are synchronous, so that the history read twice is
the same; what a failed call has stored before stays. -/
def revertTo (w : World) (sessionId checkpointId reason : String) :
 World × Except String RevertReport :=
 if sessionId ∈ w.busy then (w,.error s!"Session '{sessionId}' is currently busy.")
 else
  match (w.db.findCheckpoint checkpointId).filter (fun checkpoint =>
   checkpoint.sessionId = sessionId) with
  | none =>
   (w,.error s!"Checkpoint '{checkpointId}' does not exist for session '{sessionId}'.")
  | some checkpoint =>
   match w.db.findSession sessionId with
   | none => (w,.error s!"Session '{sessionId}' was not found.")
   | some session =>
    match bindWorkflow env.driver sessionId checkpoint.workflowSnapshotJson with
    | none => (w,.error "Provided value cannot be bound to SQLite parameter.")
    | some workflow =>
     let w := { w with db := w.db.saveWorkflowState workflow }
     match bindSummary env.driver (env.createId .summary w.ticks) sessionId
      checkpoint.id (env.nowIso .summary w.ticks)
      checkpoint.summarySnapshotJson with
     | none => (w,.error "Provided value cannot be bound to SQLite parameter.")
     | some summary => recordRevert env w session checkpoint summary reason

def undoRevert (w : World) (sessionId : String) : World × Except String RevertReport :=
 match w.db.findLatestRevert sessionId with
 | none =>
  (w,.error s!"No previous checkpoint available for undoRevert on session '{sessionId}'.")
 | some latest =>
  -- An empty id counts as none.
  match latest.previousCheckpointId.filter (· ≠ "") with
  | none =>
   (w,.error s!"No previous checkpoint available for undoRevert on session '{sessionId}'.")
  | some previous =>
   match (w.db.findCheckpoint previous).filter (fun checkpoint =>
    checkpoint.sessionId = sessionId) with
   | none =>
    (w,.error (s!"Cannot undo revert for session '{sessionId}' because previous checkpoint " ++
     s!"'{previous}' is unavailable."))
   | some _ =>
    if latest.checkpointId = previous then
     (w,.error (s!"Cannot undo revert for session '{sessionId}' because revert history " ++
      "is self-referential."))
    else revertTo env w sessionId previous "undo-revert"

end

inductive RevertCall where
 | revertTo (sessionId checkpointId reason : String)
 | undoRevert (sessionId : String)

def World.step (env : Surroundings) (w : World) : RevertCall → World
 | .revertTo sessionId checkpointId reason => (SessionRecords.revertTo env w sessionId
  checkpointId reason).1
 | .undoRevert sessionId => (SessionRecords.undoRevert env w sessionId).1

end DhKit.SessionRecords
