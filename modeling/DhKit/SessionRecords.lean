import Mathlib.Data.String.Basic
import DhKit.JsonRpc
import DhKit.KeyedTables
import DhKit.NewestFirst

/-!
# The session tables of the repository database

The rows that the TypeScript runtime keeps of a session.
-/
namespace DhKit.SessionRecords
open KeyedTables JsonRpc NewestFirst

inductive WorkflowLane where
 | quick | delivery | migration | full
deriving DecidableEq

inductive SessionStatus where
 | pending | inProgress | blocked | complete
deriving DecidableEq

inductive SemanticMode where
 | always | auto | off
deriving DecidableEq

inductive ToolEnforcementLevel where
 | veryHard
deriving DecidableEq

structure SessionState where
 sessionId : String
 repoRoot : String
 lane : WorkflowLane
 laneLocked : Bool
 currentStage : String
 status : SessionStatus
 createdAt : String
 updatedAt : String
 activeWorkItemIds : List String
 semanticMode : SemanticMode
 toolEnforcementLevel : ToolEnforcementLevel
 latestSummaryId : Option String := none
 latestCheckpointId : Option String := none
 latestRevertId : Option String := none
deriving DecidableEq

/-- A row of `workflow_state`. Its columns are bound from a snapshot that may hold any values. -/
structure WorkflowState where
 sessionId : String
 lane : Json
 stage : Json
 stageStatus : Json
 previousStage : Option Json
 nextStage : Option Json
 gateStatus : Json
 blockers : Json

structure SessionRuntimeEventRecord where
 id : String
 sessionId : String
 eventType : String
 eventJson : Json
 createdAt : String

structure SessionSummaryRecord where
 id : String
 sessionId : String
 filesChanged : Json
 additions : Json
 deletions : Json
 lastDiffAt : Option Json
 latestStage : Option Json
 latestCheckpointId : Option Json
 continuationSummary : Option Json
 continuationCreatedAt : Option Json
 updatedAt : String

inductive CheckpointType where
 | sessionBootstrap | postWorkflow | postStageAdvance | preRevert
deriving DecidableEq

structure SessionCheckpointRecord where
 id : String
 sessionId : String
 checkpointType : CheckpointType
 lane : WorkflowLane
 stage : String
 summarySnapshotJson : Json
 workflowSnapshotJson : Json
 continuationJson : Json
 metadataJson : Json
 createdAt : String

structure SessionRevertRecord where
 id : String
 sessionId : String
 checkpointId : String
 previousCheckpointId : Option String
 reason : String
 createdAt : String
deriving DecidableEq

structure Database where
 sessions : Table String SessionState SessionState.sessionId
 workflowStates : Table String WorkflowState WorkflowState.sessionId
 runtimeEvents : Table String SessionRuntimeEventRecord SessionRuntimeEventRecord.id
 summaries : Table String SessionSummaryRecord SessionSummaryRecord.id
 checkpoints : Table String SessionCheckpointRecord SessionCheckpointRecord.id
 reverts : Table String SessionRevertRecord SessionRevertRecord.id

namespace Database

def empty : Database where
 sessions := Table.empty
 workflowStates := Table.empty
 runtimeEvents := Table.empty
 summaries := Table.empty
 checkpoints := Table.empty
 reverts := Table.empty

variable (db : Database)

/-! ## The repositories

By `save`, an insertion under a fresh id, and by `saveRecord`, an upsert by id. -/

def saveSession (session : SessionState) : Database :=
 { db with sessions := db.sessions.upsert session }

variable (sessionId : String)

/-- `rowToSession` reads every lane as locked. -/
def findSession : Option SessionState :=
 (db.sessions.find sessionId).map fun row => { row with laneLocked := true }

def saveWorkflowState (workflow : WorkflowState) : Database :=
 { db with workflowStates := db.workflowStates.upsert workflow }

def saveRuntimeEvent (record : SessionRuntimeEventRecord) : Database :=
 { db with runtimeEvents := db.runtimeEvents.upsert record }

def listRuntimeEvents : List SessionRuntimeEventRecord :=
 newestFirst SessionRuntimeEventRecord.createdAt
  (db.runtimeEvents.rows.filter fun row => row.sessionId = sessionId)

def saveSummary (record : SessionSummaryRecord) : Database :=
 { db with summaries := db.summaries.upsert record }

def listSummaries : List SessionSummaryRecord :=
 newestFirst SessionSummaryRecord.updatedAt
  (db.summaries.rows.filter fun row => row.sessionId = sessionId)

def findLatestSummary : Option SessionSummaryRecord :=
 (db.listSummaries sessionId).head?

def saveCheckpoint (record : SessionCheckpointRecord) : Database :=
 { db with checkpoints := db.checkpoints.upsert record }

def findCheckpoint (checkpointId : String) : Option SessionCheckpointRecord :=
 db.checkpoints.find checkpointId

def listCheckpoints : List SessionCheckpointRecord :=
 newestFirst SessionCheckpointRecord.createdAt
  (db.checkpoints.rows.filter fun row => row.sessionId = sessionId)

def saveRevert (record : SessionRevertRecord) : Database :=
 { db with reverts := db.reverts.upsert record }

def listReverts : List SessionRevertRecord :=
 newestFirst SessionRevertRecord.createdAt
  (db.reverts.rows.filter fun row => row.sessionId = sessionId)

def findLatestRevert : Option SessionRevertRecord :=
 (db.listReverts sessionId).head?

end Database

def plainSession (id : String) : SessionState where
 sessionId := id
 repoRoot := "/repo"
 lane := .delivery
 laneLocked := true
 currentStage := "delivery_execute"
 status := .inProgress
 createdAt := "t"
 updatedAt := "t"
 activeWorkItemIds := []
 semanticMode := .auto
 toolEnforcementLevel := .veryHard

end DhKit.SessionRecords
