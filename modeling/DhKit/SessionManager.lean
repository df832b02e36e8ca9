import DhKit.StatementFaults
import DhKit.SessionStore

/-!
# The session manager

Every operation is a sequence of statements without a transaction around them.
-/
namespace DhKit.Sessions
open KeyedTables CommitRules StatementFaults

/-! ## Stage chains -/

def quickStages : List String :=
 ["quick_intake","quick_plan","quick_execute","quick_verify","quick_complete"]

def deliveryStages : List String :=
 ["delivery_intake","delivery_analysis","delivery_solution","delivery_task_split",
  "delivery_execute","delivery_review","delivery_verify","delivery_complete"]

def migrationStages : List String :=
 ["migration_intake","migration_baseline","migration_strategy","migration_task_split",
  "migration_execute","migration_review","migration_verify","migration_complete"]

def stageChainFor : WorkflowLane → List String
 | .quick => quickStages
 | .delivery => deliveryStages
 | .migration => migrationStages

section
variable (lane : WorkflowLane)

theorem stageChainFor_ne_nil : stageChainFor lane≠[] := by
 cases lane <;> exact List.cons_ne_nil _ _

theorem nodup_stageChainFor : (stageChainFor lane).Nodup := by
 cases lane <;> decide +kernel

def initialStage : String :=
 (stageChainFor lane).head (stageChainFor_ne_nil lane)

def finalStage : String :=
 (stageChainFor lane).getLast (stageChainFor_ne_nil lane)

def isValidTransition (currentStage nextStage : String) : Bool :=
 match (stageChainFor lane).findIdx? (· = currentStage),
  (stageChainFor lane).findIdx? (· = nextStage) with
 | some curr,some next => next = curr+1
 | _,_ => false

end

/-! ## Operations -/

inductive SessionError where
 | statementFailed
 | constraintViolated
 | sessionNotFound
 | cannotActivate (status : SessionStatus)
 | cannotTransition (status : SessionStatus)
 | invalidTransition (currentStage nextStage : String) (lane : WorkflowLane)
 | gateNotPassed (stage : String) (gate : GateStatus)
 | notFinalStage (currentStage finalStage : String)
deriving DecidableEq

abbrev Operation (α : Type) := Commit (Connection Database) SessionError α

def query {α : Type} (f : Database → α) : Operation α := select .statementFailed f

def write (f : Database → Database) : Operation Unit := update .statementFailed f

def insertRow (f : Database → Option Database) : Operation Unit :=
 insert .statementFailed .constraintViolated f

def loadSession (sessionId : String) : Operation SessionState := do
 match ← query (·.getSession sessionId) with
 | none => fail .sessionNotFound
 | some session => return session

def createSession (sessionId repoRoot : String) (lane : WorkflowLane) (nowMs : Int) :
 Operation SessionState := do
 let firstStage := initialStage lane
 let session : SessionState :=
  { id := sessionId,repoRoot := repoRoot,lane := lane,laneLocked := true,
    currentStage := firstStage,status := .pending,semanticMode := .always,
    toolEnforcementLevel := .veryHard,createdAtUnixMs := nowMs,updatedAtUnixMs := nowMs }
 insertRow (·.createSession session)
 insertRow (·.insertStage
  { sessionId := sessionId,lane := lane,stage := firstStage,stageStatus := .pending,
    previousStage := none,gateStatus := .pending,updatedAtUnixMs := nowMs })
 return session

def resumeSession (sessionId : String) : Operation (Option SessionState) :=
 query (·.getSession sessionId)

section
variable (sessionId : String) (nowMs : Int)

def activateSession : Operation Unit := do
 let session ← loadSession sessionId
 if session.status≠.pending then fail (.cannotActivate session.status)
 else do
  write (·.updateSessionStatus sessionId .active nowMs)
  write (·.updateStageStatus sessionId (initialStage session.lane) .inProgress .pending nowMs)

def GateStatus.isOpen : GateStatus → Bool
 | .passed | .waived => true
 | .pending | .failed => false

def checkGate (current : Option WorkflowStageState) : Except SessionError Unit :=
 match current with
 | none => .ok ()
 | some cs => if cs.gateStatus.isOpen then .ok ()
   else .error (.gateNotPassed cs.stage cs.gateStatus)

def transitionStage (sessionId nextStage : String) (nowMs : Int) :
 Operation WorkflowStageState := do
 let session ← loadSession sessionId
 if session.status≠.active then fail (.cannotTransition session.status)
 else if !isValidTransition session.lane session.currentStage nextStage then
  fail (.invalidTransition session.currentStage nextStage session.lane)
 else do
  let current ← query (·.getCurrentStage sessionId)
  match checkGate current with
  | .error e => fail e
  | .ok () => do
   write (·.updateStageStatus sessionId session.currentStage .passed
    ((current.map WorkflowStageState.gateStatus).getD .passed) nowMs)
   let newStage : WorkflowStageState :=
    { sessionId := sessionId,lane := session.lane,stage := nextStage,
      stageStatus := .inProgress,previousStage := some session.currentStage,
      gateStatus := .pending,updatedAtUnixMs := nowMs }
   insertRow (·.insertStage newStage)
   write (·.updateSessionStage sessionId nextStage nowMs)
   return newStage

def setGate (gate : GateStatus) (sessionId : String) (nowMs : Int) : Operation Unit := do
 let session ← loadSession sessionId
 write (·.updateStageStatus sessionId session.currentStage .inProgress gate nowMs)

def passGate : Operation Unit := setGate .passed sessionId nowMs

def waiveGate : Operation Unit := setGate .waived sessionId nowMs

def completeSession : Operation Unit := do
 let session ← loadSession sessionId
 if session.currentStage≠finalStage session.lane then
  fail (.notFinalStage session.currentStage (finalStage session.lane))
 else do
  write (·.updateStageStatus sessionId (finalStage session.lane) .passed .passed nowMs)
  write (·.updateSessionStatus sessionId .completed nowMs)

def failSession (sessionId _reason : String) (nowMs : Int) : Operation Unit := do
 let session ← loadSession sessionId
 write (·.updateStageStatus sessionId session.currentStage .failed .failed nowMs)
 write (·.updateSessionStatus sessionId .failed nowMs)

def createEnvelope (sessionId agentId : String) (role : AgentRole) (workItemId : Option String)
 (nowMs : Int) : Operation ExecutionEnvelope := do
 let session ← loadSession sessionId
 let envelope : ExecutionEnvelope :=
  { id := "env-" ++ agentId ++ "-" ++ toString nowMs,sessionId := sessionId,
    lane := session.lane,role := role,agentId := agentId,stage := session.currentStage,
    workItemId := workItemId,createdAtUnixMs := nowMs }
 insertRow (·.insertEnvelope envelope)
 return envelope

def stageHistory : Operation (List WorkflowStageState) :=
 query fun db => (db.listStages sessionId).map StageRow.state

/-! ## Calls -/

inductive Request where
 | createSession (repoRoot : String) (lane : WorkflowLane)
 | resumeSession
 | activateSession
 | transitionStage (nextStage : String)
 | passGate
 | waiveGate
 | completeSession
 | failSession (reason : String)
 | createEnvelope (agentId : String) (role : AgentRole) (workItemId : Option String)
 | stageHistory

def runRequest : Request → Operation Unit
 | .createSession repoRoot lane => do
  let _ ← createSession sessionId repoRoot lane nowMs
 | .resumeSession => do
  let _ ← resumeSession sessionId
 | .activateSession => activateSession sessionId nowMs
 | .transitionStage nextStage => do
  let _ ← transitionStage sessionId nextStage nowMs
 | .passGate => passGate sessionId nowMs
 | .waiveGate => waiveGate sessionId nowMs
 | .completeSession => completeSession sessionId nowMs
 | .failSession reason => failSession sessionId reason nowMs
 | .createEnvelope agentId role workItemId => do
  let _ ← createEnvelope sessionId agentId role workItemId nowMs
 | .stageHistory => do
  let _ ← stageHistory sessionId

end

/-- A call, the time at which it is made, and the statement of it that fails, if one does. -/
structure Call where
 sessionId : String
 request : Request
 nowMs : Int
 fault : Option Nat

def Call.perform (call : Call) (db : Database) : Except SessionError Unit × Database :=
 let r := runRequest call.sessionId call.nowMs call.request ⟨db,call.fault⟩
 (r.1,r.2.store)

def performAll (db : Database) (calls : List Call) : Database :=
 calls.foldl (fun db call => (call.perform db).2) db

end DhKit.Sessions
