import Mathlib.Data.List.Sort
import Mathlib.Data.String.Basic
import DhKit.KeyedTables

/-!
# The tables of the session manager

Sessions, the stages they went through and the envelopes of their roles.
-/
namespace DhKit.Sessions
open KeyedTables List

inductive WorkflowLane where
 | quick | delivery | migration
deriving DecidableEq

inductive SessionStatus where
 | pending | active | paused | completed | failed | cancelled
deriving DecidableEq

inductive SemanticMode where
 | always | onDemand | off
deriving DecidableEq

inductive ToolEnforcementLevel where
 | veryHard | hard | soft | off
deriving DecidableEq

inductive StageStatus where
 | pending | inProgress | passed | failed | blocked | skipped
deriving DecidableEq

inductive GateStatus where
 | pending | passed | failed | waived
deriving DecidableEq

inductive AgentRole where
 | coordinator | productLead | solutionLead | implementer | codeReviewer | qaAgent | quickAgent
deriving DecidableEq

structure SessionState where
 id : String
 repoRoot : String
 lane : WorkflowLane
 laneLocked : Bool
 currentStage : String
 status : SessionStatus
 semanticMode : SemanticMode
 toolEnforcementLevel : ToolEnforcementLevel
 createdAtUnixMs : Int
 updatedAtUnixMs : Int
deriving DecidableEq

structure WorkflowStageState where
 sessionId : String
 lane : WorkflowLane
 stage : String
 stageStatus : StageStatus
 previousStage : Option String
 gateStatus : GateStatus
 updatedAtUnixMs : Int
deriving DecidableEq

structure StageRow where
 rowId : Nat
 state : WorkflowStageState
deriving DecidableEq

structure ExecutionEnvelope where
 id : String
 sessionId : String
 lane : WorkflowLane
 role : AgentRole
 agentId : String
 stage : String
 workItemId : Option String
 createdAtUnixMs : Int
deriving DecidableEq

structure Database where
 sessions : Table String SessionState SessionState.id
 workflowStages : List StageRow
 /-- The next value of the AUTOINCREMENT column. -/
 nextRowId : Nat
 ascending : (workflowStages.map StageRow.rowId).Pairwise (· < ·)
 issued : ∀ row ∈ workflowStages,row.rowId < nextRowId
 stageSessions : ∀ row ∈ workflowStages,row.state.sessionId ∈ sessions.rows.map SessionState.id
 envelopes : Table String ExecutionEnvelope ExecutionEnvelope.id

variable (db : Database) (sessionId stage : String) (status : StageStatus) (gate : GateStatus)
 (id : String) (nowMs : Int)

namespace Database

def empty : Database where
 sessions := Table.empty
 workflowStages := []
 nextRowId := 1
 ascending := by simp
 issued := by simp
 stageSessions := by simp
 envelopes := Table.empty

def getSession : Option SessionState := db.sessions.find id

def listStages (sessionId : String) : List StageRow :=
 db.workflowStages.filter fun row => row.state.sessionId = sessionId

def getCurrentStage (sessionId : String) : Option WorkflowStageState :=
 ((db.listStages sessionId).getLast?).map StageRow.state

theorem listStages_of_absent {db : Database} {sessionId : String}
 (h:db.getSession sessionId=none) : db.listStages sessionId=[] := by
 rw [listStages,filter_eq_nil_iff]
 intro row hrow hid
 have hme:=db.stageSessions row hrow
 rw [of_decide_eq_true hid,Table.mem_keys_iff_find] at hme
 exact absurd h (Option.isSome_iff_ne_none.mp hme)

theorem sessionId_of_mem_listStages {db : Database} {sessionId : String} {row : StageRow}
 (h:row∈db.listStages sessionId) : row.state.sessionId=sessionId := by
 simpa using (mem_filter.mp h).2

/-- `INSERT INTO sessions`, refused on a taken id. -/
def createSession (session : SessionState) : Option Database :=
 match h : db.sessions.insert session with
 | none => none
 | some sessions => some { db with
  sessions := sessions
  stageSessions := by
   intro row hrow
   rw [(Table.insert_eq_some.mp h).2,map_append]
   exact mem_append_left _ (db.stageSessions row hrow) }

def updateSession (f : SessionState → SessionState)
 (hf : ∀ session,(f session).id = session.id) : Database :=
 { db with
   sessions := db.sessions.modify id f hf
   stageSessions := by
    rw [Table.keys_modify]
    exact db.stageSessions }

def updateSessionStatus (status : SessionStatus) (nowMs : Int) :
 Database :=
 db.updateSession id (fun s => { s with status := status,updatedAtUnixMs := nowMs }) fun _ => rfl

def updateSessionStage (stage : String) (nowMs : Int) : Database :=
 db.updateSession id (fun s => { s with currentStage := stage,updatedAtUnixMs := nowMs })
  fun _ => rfl

/-- `INSERT INTO workflow_stages`, refused when the session does not exist. -/
def insertStage (state : WorkflowStageState) : Option Database :=
 if h : state.sessionId ∈ db.sessions.rows.map SessionState.id then
  some { db with
   workflowStages := db.workflowStages++[⟨db.nextRowId,state⟩]
   nextRowId := db.nextRowId+1
   ascending := by
    rw [map_append,pairwise_append]
    refine ⟨db.ascending,by simp,?_⟩
    intro a ha b hb
    obtain ⟨row,hrow,rfl⟩ := mem_map.mp ha
    rw [mem_singleton.mp hb]
    exact db.issued row hrow
   issued := by
    intro row hrow
    rcases mem_append.mp hrow with hrow | hrow
    · have := db.issued row hrow
      omega
    · rw [mem_singleton.mp hrow]
      exact Nat.lt_succ_self _
   stageSessions := by
    intro row hrow
    rcases mem_append.mp hrow with hrow | hrow
    · exact db.stageSessions row hrow
    · rw [mem_singleton.mp hrow]
      exact h }
 else none

/-- The row after `UPDATE workflow_stages ... WHERE session_id = ? AND stage = ?`. -/
def setStatus (row : StageRow) : StageRow :=
 if row.state.sessionId = sessionId ∧ row.state.stage = stage then
  { row with state := { row.state with
    stageStatus := status,gateStatus := gate,updatedAtUnixMs := nowMs } }
 else row

@[simp] theorem rowId_setStatus (row : StageRow) :
 (setStatus sessionId stage status gate nowMs row).rowId=row.rowId := by
 unfold setStatus
 split_ifs <;> rfl

@[simp] theorem sessionId_setStatus (row : StageRow) :
 (setStatus sessionId stage status gate nowMs row).state.sessionId=row.state.sessionId := by
 unfold setStatus
 split_ifs <;> rfl

def updateStageStatus : Database :=
 { db with
   workflowStages := db.workflowStages.map (setStatus sessionId stage status gate nowMs)
   ascending := by
    rw [map_map]
    simpa [Function.comp_def] using db.ascending
   issued := by
    intro row hrow
    obtain ⟨old,hold,rfl⟩ := mem_map.mp hrow
    simpa using db.issued old hold
   stageSessions := by
    intro row hrow
    obtain ⟨old,hold,rfl⟩ := mem_map.mp hrow
    simpa using db.stageSessions old hold }

def insertEnvelope (envelope : ExecutionEnvelope) : Option Database :=
 if envelope.sessionId ∈ db.sessions.rows.map SessionState.id then
  (db.envelopes.insert envelope).map fun envelopes => { db with envelopes := envelopes }
 else none

section
variable {db db' : Database}

theorem createSession_eq_some {session : SessionState} (h:db.createSession session=some db') :
 db.getSession session.id=none ∧
  (∀id,db'.getSession id=if id=session.id then some session else db.getSession id) ∧
  ∀id,db'.listStages id=db.listStages id := by
 unfold createSession at h
 split at h
 · cases h
 rename_i sessions hi
 cases h
 refine ⟨?_,Table.find_insert hi,fun _=>rfl⟩
 rw [←Option.not_isSome_iff_eq_none]
 exact fun hso=>(Table.insert_eq_some.mp hi).1 (Table.mem_keys_iff_find.mpr hso)

theorem createSession_isSome {session : SessionState} (h:db.getSession session.id=none) :
 ∃db',db.createSession session=some db' := by
 have hfr:session.id ∉ db.sessions.rows.map SessionState.id:=by
  rw [Table.mem_keys_iff_find]
  exact fun hso=>Option.isSome_iff_ne_none.mp hso h
 unfold createSession
 split
 · rename_i hi
   rw [Table.insert,dif_neg hfr] at hi
   cases hi
 · exact ⟨_,rfl⟩

theorem getSession_updateSession (f : SessionState → SessionState)
 (hf:∀session,(f session).id=session.id) (id' : String) :
 (db.updateSession id f hf).getSession id' =
  if id'=id then (db.getSession id).map f else db.getSession id' :=
 Table.find_modify db.sessions id f hf id'

@[simp] theorem getSession_updateSessionStatus (status : SessionStatus) (nowMs : Int)
 (id' : String) : (db.updateSessionStatus id status nowMs).getSession id' =
  if id'=id then
   (db.getSession id).map fun s=>{ s with status := status,updatedAtUnixMs := nowMs }
  else db.getSession id' :=
 getSession_updateSession id _ _ id'

@[simp] theorem getSession_updateSessionStage (id stage : String) (nowMs : Int) (id' : String) :
 (db.updateSessionStage id stage nowMs).getSession id' =
  if id'=id then
   (db.getSession id).map fun s=>{ s with currentStage := stage,updatedAtUnixMs := nowMs }
  else db.getSession id' :=
 getSession_updateSession id _ _ id'

@[simp] theorem listStages_updateSessionStatus (status : SessionStatus) (nowMs : Int)
 (id' : String) :
 (db.updateSessionStatus id status nowMs).listStages id'=db.listStages id' := rfl

@[simp] theorem listStages_updateSessionStage (id stage : String) (nowMs : Int) (id' : String) :
 (db.updateSessionStage id stage nowMs).listStages id'=db.listStages id' := rfl

theorem insertStage_eq_some {state : WorkflowStageState} (h:db.insertStage state=some db') :
 (∀id,db'.getSession id=db.getSession id) ∧
  ∀id,db'.listStages id=if id=state.sessionId then
   db.listStages id++[⟨db.nextRowId,state⟩] else db.listStages id := by
 unfold insertStage at h
 split_ifs at h with hme
 cases h
 refine ⟨fun _=>rfl,fun id=>?_⟩
 unfold listStages
 by_cases hid : id=state.sessionId
 · simp [hid]
 · simp [hid,Ne.symm hid]

theorem insertStage_isSome {state : WorkflowStageState}
 (h:(db.getSession state.sessionId).isSome) : ∃db',db.insertStage state=some db' := by
 unfold insertStage
 rw [dif_pos (Table.mem_keys_iff_find.mpr h)]
 exact ⟨_,rfl⟩

@[simp] theorem getSession_updateStageStatus (id : String) :
 (db.updateStageStatus sessionId stage status gate nowMs).getSession id=db.getSession id := rfl

@[simp] theorem listStages_updateStageStatus (id : String) :
 (db.updateStageStatus sessionId stage status gate nowMs).listStages id =
  (db.listStages id).map (setStatus sessionId stage status gate nowMs) := by
 unfold listStages updateStageStatus
 rw [filter_map]
 simp [Function.comp_def]

theorem setStatus_of_ne {sessionId stage : String} {status : StageStatus} {gate : GateStatus}
 {nowMs : Int} {row : StageRow}
 (h:row.state.sessionId≠sessionId ∨ row.state.stage≠stage) :
 setStatus sessionId stage status gate nowMs row=row := by
 rw [setStatus,if_neg]
 tauto

theorem listStages_updateStageStatus_other {sessionId id : String} (h:id≠sessionId)
 (stage : String) (status : StageStatus) (gate : GateStatus) (nowMs : Int) :
 (db.updateStageStatus sessionId stage status gate nowMs).listStages id =
  db.listStages id := by
 rw [listStages_updateStageStatus]
 conv_rhs => rw [←map_id (db.listStages id)]
 apply map_congr_left
 intro row hrow
 exact setStatus_of_ne (.inl (sessionId_of_mem_listStages hrow ▸ h))

theorem insertEnvelope_eq_some {envelope : ExecutionEnvelope}
 (h:db.insertEnvelope envelope=some db') :
 (∀id,db'.getSession id=db.getSession id) ∧
  ∀id,db'.listStages id=db.listStages id := by
 unfold insertEnvelope at h
 split_ifs at h
 obtain ⟨_,_,rfl⟩:=Option.map_eq_some_iff.mp h
 exact ⟨fun _=>rfl,fun _=>rfl⟩

end

end Database
end DhKit.Sessions
