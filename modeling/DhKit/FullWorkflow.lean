import DhKit.RunConditions
import DhKit.SessionRecords

/-!
# The full workflow

A parent session goes through the stages of the full workflow.
-/
namespace DhKit.FullWorkflow
open KeyedTables JsonRpc SessionRecords RunConditions

inductive Role where
 | masterOrchestrator | productLead | solutionLead | fullstackAgent | codeReviewer | qaAgent
 | contextScout | summarizer
deriving DecidableEq

inductive Permission where
 | readOnly | writeWithPermission | boundedShell
deriving DecidableEq

/-- The permission of the role's contract in `FULL_WORKFLOW_ROLES`. -/
def Role.permission : Role → Permission
 | .fullstackAgent => .writeWithPermission
 | .qaAgent => .boundedShell
 | _ => .readOnly

def Role.text : Role → String
 | .masterOrchestrator => "master_orchestrator"
 | .productLead => "product_lead"
 | .solutionLead => "solution_lead"
 | .fullstackAgent => "fullstack_agent"
 | .codeReviewer => "code_reviewer"
 | .qaAgent => "qa_agent"
 | .contextScout => "context_scout"
 | .summarizer => "summarizer"

inductive Stage where
 | intake | product | solution | implementation | codeReview | qa | done
deriving DecidableEq

def Stage.text : Stage → String
 | .intake => "full_intake"
 | .product => "full_product"
 | .solution => "full_solution"
 | .implementation => "full_implementation"
 | .codeReview => "full_code_review"
 | .qa => "full_qa"
 | .done => "full_done"

def stages : List Stage :=
 [.intake,.product,.solution,.implementation,.codeReview,.qa,.done]

def nextStage (stage : Stage) : Option Stage := stages[stages.idxOf stage+1]?

def ownerForStage : Stage → Role
 | .product => .productLead
 | .solution => .solutionLead
 | .implementation => .fullstackAgent
 | .codeReview => .codeReviewer
 | .qa => .qaAgent
 | .intake | .done => .masterOrchestrator

inductive GateId where
 | productToSolution | solutionToFullstack | fullstackToCodeReview | codeReviewToQa | qaToDone
deriving DecidableEq

def GateId.text : GateId → String
 | .productToSolution => "product_to_solution"
 | .solutionToFullstack => "solution_to_fullstack"
 | .fullstackToCodeReview => "fullstack_to_code_review"
 | .codeReviewToQa => "code_review_to_qa"
 | .qaToDone => "qa_to_done"

structure ApprovalGate where
 id : GateId
 fromStage : Stage
 toStage : Stage
deriving DecidableEq

def approvalGates : List ApprovalGate :=
 [⟨.productToSolution,.product,.solution⟩,
  ⟨.solutionToFullstack,.solution,.implementation⟩,
  ⟨.fullstackToCodeReview,.implementation,.codeReview⟩,
  ⟨.codeReviewToQa,.codeReview,.qa⟩,
  ⟨.qaToDone,.qa,.done⟩]

inductive Decision where
 | approve | reject
deriving DecidableEq

structure Approval where
 gateId : GateId
 decision : Decision
 reason : Option String
 createdAt : String
deriving DecidableEq

inductive Status where
 | running | blocked | complete
deriving DecidableEq

inductive ChildStatus where
 | pending | running | complete | blocked
deriving DecidableEq

structure ChildSession where
 id : String
 role : Role
 stage : Stage
 status : ChildStatus
 permission : Permission
 summary : Option String := none

structure Artifact where
 id : String
 role : Role
 stage : Stage
 summary : String
 evidenceRefs : List String
 createdAt : String

structure RerouteIssue where
 id : String
 finding : String
 targetStage : Stage
 createdAt : String

inductive AuditEvent where
 | started | roleStarted | roleFinished | gateApproved | gateRejected | rerouted | closed
deriving DecidableEq

def AuditEvent.text : AuditEvent → String
 | .started => "full.started"
 | .roleStarted => "full.role.started"
 | .roleFinished => "full.role.finished"
 | .gateApproved => "full.gate.approved"
 | .gateRejected => "full.gate.rejected"
 | .rerouted => "full.rerouted"
 | .closed => "full.closed"

structure AuditRecord where
 id : String
 eventType : AuditEvent
 role : Role
 stage : Stage
 createdAt : String

def AuditRecord.json (record : AuditRecord) : Json :=
 .object [("id",.string record.id),("eventType",.string record.eventType.text),
  ("role",.string record.role.text),("stage",.string record.stage.text),
  ("createdAt",.string record.createdAt)]

structure FullWorkflowState where
 parentSessionId : String
 objective : String
 currentStage : Stage
 currentOwner : Role
 status : Status
 childSessions : List ChildSession
 approvals : List Approval
 artifacts : List Artifact
 rerouteIssues : List RerouteIssue
 evidenceLedgerRefs : List String
 audit : List AuditRecord
 maxReadOnlyWorkers : Nat
 createdAt : String
 updatedAt : String

/-- Random ids, the clock, and the functions of other components that a role task calls. -/
structure Surroundings where
 repoRoot : String
 createId : String → Nat → String
 nowIso : Nat → String
 trim : String → String
 truncateUtf8 : String → Nat → String
 /-- The id of the ledger that `inspectContext` returns for a query, or the error it throws. -/
 inspectContext : String → Nat → Except String String

/-- The three stores; `ticks` counts the ids and times drawn. -/
structure World where
 db : Database
 stateFiles : HashMap String FullWorkflowState
 ticks : Nat

section
variable (env : Surroundings)

def sessionStatus : Status → SessionStatus
 | .complete => .complete
 | .blocked => .blocked
 | .running => .inProgress

def stageStatus : Status → String
 | .complete => "passed"
 | .blocked => "blocked"
 | .running => "in_progress"

def sessionRow (state : FullWorkflowState) : SessionState where
 sessionId := state.parentSessionId
 repoRoot := env.repoRoot
 lane := .full
 laneLocked := true
 currentStage := state.currentStage.text
 status := sessionStatus state.status
 createdAt := state.createdAt
 updatedAt := state.updatedAt
 activeWorkItemIds :=
  (state.childSessions.filter fun child => child.status = .running).map ChildSession.id
 semanticMode := .auto
 toolEnforcementLevel := .veryHard

def workflowRow (state : FullWorkflowState) : WorkflowState where
 sessionId := state.parentSessionId
 lane := .string "full"
 stage := .string state.currentStage.text
 stageStatus := .string (stageStatus state.status)
 previousStage := none
 nextStage := (nextStage state.currentStage).map fun stage => .string stage.text
 gateStatus := .string "pending"
 blockers := .array (state.rerouteIssues.map fun issue => .string issue.finding)

variable (w : World)

def persistParentSession (state : FullWorkflowState) : World :=
 { w with db := (w.db.saveSession (sessionRow env state)).saveWorkflowState (workflowRow state) }

def recordAudit (state : FullWorkflowState) (eventType : AuditEvent) (role : Role)
 (stage : Stage) : World × FullWorkflowState :=
 let record : AuditRecord :=
  ⟨env.createId "audit" w.ticks,eventType,role,stage,env.nowIso w.ticks⟩
 let event : SessionRuntimeEventRecord :=
  ⟨env.createId "session-runtime-event" w.ticks,state.parentSessionId,eventType.text,
   record.json,record.createdAt⟩
 ({ w with db := w.db.saveRuntimeEvent event,ticks := w.ticks+1 },
  { state with audit := state.audit++[record] })

def writeState (state : FullWorkflowState) : World :=
 { w with stateFiles := w.stateFiles.upsert (state.parentSessionId,state) }

variable (parentSessionId : String)

def readState : Except String FullWorkflowState :=
 match HashMap.get w.stateFiles parentSessionId with
 | none => .error s!"Full workflow parent session '{parentSessionId}' was not found."
 | some state => .ok state

/-- A role task changes the state in place: an error leaves what it did to the database. -/
def runRoleTask (state : FullWorkflowState) (role : Role) (stage : Stage) :
 World × Except String FullWorkflowState :=
 let child : ChildSession :=
  ⟨env.createId "child-session" w.ticks,role,stage,.running,role.permission,none⟩
 let (w,started) := recordAudit env w
  { state with childSessions := state.childSessions++[child] } .roleStarted role stage
 let context : Except String (List String) :=
  if role = .contextScout then
   (env.inspectContext started.objective w.ticks).map fun ledger =>
    (started.evidenceLedgerRefs++[ledger]).eraseDups
  else .ok started.evidenceLedgerRefs
 match context with
 | .error error => (w,.error error)
 | .ok refs =>
  let summary := env.truncateUtf8
   s!"Subagent {role.text}: {stage.text}: {started.objective}" 2000
  let artifact : Artifact :=
   ⟨env.createId "artifact" w.ticks,role,stage,summary,refs,env.nowIso w.ticks⟩
  let worked : FullWorkflowState :=
   { started with
     childSessions :=
      state.childSessions++[{ child with status := .complete,summary := some summary }]
     evidenceLedgerRefs := refs
     artifacts := started.artifacts++[artifact] }
  let (w,finished) := recordAudit env w worked .roleFinished role stage
  (w,.ok { finished with updatedAt := env.nowIso w.ticks })

def initialState (objective : String) (maxReadOnlyWorkers : Option Nat) :
 FullWorkflowState where
 parentSessionId := env.createId "session" w.ticks
 objective := objective
 currentStage := .product
 currentOwner := .productLead
 status := .running
 childSessions := []
 approvals := []
 artifacts := []
 rerouteIssues := []
 evidenceLedgerRefs := []
 audit := []
 maxReadOnlyWorkers := maxReadOnlyWorkers.getD 3
 createdAt := env.nowIso w.ticks
 updatedAt := env.nowIso w.ticks

def startFullWorkflow (objective : String) (maxReadOnlyWorkers : Option Nat) :
 World × Except String FullWorkflowState :=
 let objective := env.trim objective
 if objective.isEmpty then (w,.error "full workflow objective is required.")
 else
  let state := initialState env w objective maxReadOnlyWorkers
  let w := persistParentSession env w state
  let (w,state) := recordAudit env w state .started .masterOrchestrator .intake
  match runRoleTask env w state .productLead .product with
  | (w,.error error) => (w,.error error)
  | (w,.ok state) => (writeState w state,.ok state)

section
variable (state : FullWorkflowState) (gate : ApprovalGate) (reason : Option String)

/-- A rejection is written to the state file only. -/
def rejectGate : World × Except String FullWorkflowState :=
 let timestamp := env.nowIso w.ticks
 let (w,state) := recordAudit env w
  { state with
    approvals := state.approvals++[⟨gate.id,.reject,reason,timestamp⟩]
    status := .blocked
    updatedAt := timestamp } .gateRejected state.currentOwner state.currentStage
 (writeState w state,.ok state)

def approveGate : World × Except String FullWorkflowState :=
 let timestamp := env.nowIso w.ticks
 let owner := ownerForStage gate.toStage
 let (w,state) := recordAudit env w
  { state with
    approvals := state.approvals++[⟨gate.id,.approve,reason,timestamp⟩]
    currentStage := gate.toStage
    currentOwner := owner
    status := if gate.toStage = .done then .complete else .running
    updatedAt := timestamp } .gateApproved owner gate.toStage
 let task := if gate.toStage≠.done then runRoleTask env w state owner gate.toStage
  else (w,.ok state)
 match task with
 | (w,.error error) => (w,.error error)
 | (w,.ok state) => (writeState (persistParentSession env w state) state,.ok state)

end

def advanceFullWorkflow (gateId : GateId)
 (decision : Decision) (reason : Option String) : World × Except String FullWorkflowState :=
 match readState w parentSessionId with
 | .error error => (w,.error error)
 | .ok state =>
  match approvalGates.find? fun gate => gate.id = gateId with
  | none => (w,.error s!"Unknown full workflow gate '{gateId.text}'.")
  | some gate =>
   if gate.fromStage≠state.currentStage then
    (w,.error
     s!"Gate '{gateId.text}' cannot advance current stage '{state.currentStage.text}'.")
   else
    match decision with
    | .reject => rejectGate env w state gate reason
    | .approve => approveGate env w state gate reason

def rerouteFullWorkflow (parentSessionId finding : String) (targetStage : Stage) :
 World × Except String FullWorkflowState :=
 match readState w parentSessionId with
 | .error error => (w,.error error)
 | .ok state =>
  if targetStage ∉ stages then
   (w,.error s!"Unknown full workflow stage '{targetStage.text}'.")
  else
   let timestamp := env.nowIso w.ticks
   let issue : RerouteIssue := ⟨env.createId "reroute" w.ticks,finding,targetStage,timestamp⟩
   let owner := ownerForStage targetStage
   let (w,state) := recordAudit env w
    { state with
      rerouteIssues := state.rerouteIssues++[issue]
      currentStage := targetStage
      currentOwner := owner
      status := if targetStage = .done then .complete else .running
      updatedAt := timestamp } .rerouted owner targetStage
   (writeState (persistParentSession env w state) state,.ok state)

def blockFullWorkflow (parentSessionId reason : String) :
 World × Except String FullWorkflowState :=
 match readState w parentSessionId with
 | .error error => (w,.error error)
 | .ok state =>
  let timestamp := env.nowIso w.ticks
  let issue : RerouteIssue :=
   ⟨env.createId "reroute" w.ticks,reason,state.currentStage,timestamp⟩
  let (w,state) := recordAudit env w
   { state with
     status := .blocked
     rerouteIssues := state.rerouteIssues++[issue]
     updatedAt := timestamp } .gateRejected state.currentOwner state.currentStage
  (writeState (persistParentSession env w state) state,.ok state)

inductive SupportRole where
 | contextScout | summarizer
deriving DecidableEq

def SupportRole.role : SupportRole → Role
 | .contextScout => .contextScout
 | .summarizer => .summarizer

def runFullWorkflowSupportRole (role : SupportRole)
 (stage : Option Stage) : World × Except String FullWorkflowState :=
 match readState w parentSessionId with
 | .error error => (w,.error error)
 | .ok state =>
  match runRoleTask env w state role.role (stage.getD state.currentStage) with
  | (w,.error error) => (w,.error error)
  | (w,.ok state) => (writeState w state,.ok state)

def closeFullWorkflow :
 World × Except String FullWorkflowState :=
 match readState w parentSessionId with
 | .error error => (w,.error error)
 | .ok state =>
  let (w,state) := recordAudit env w
   { state with
     currentStage := .done
     currentOwner := .masterOrchestrator
     status := .complete
     updatedAt := env.nowIso w.ticks } .closed .masterOrchestrator .done
  (writeState (persistParentSession env w state) state,.ok state)

end

inductive Call where
 | start (objective : String) (maxReadOnlyWorkers : Option Nat)
 | advance (parentSessionId : String) (gateId : GateId) (decision : Decision)
  (reason : Option String)
 | reroute (parentSessionId finding : String) (targetStage : Stage)
 | block (parentSessionId reason : String)
 | supportRole (parentSessionId : String) (role : SupportRole) (stage : Option Stage)
 | close (parentSessionId : String)

def perform (env : Surroundings) (w : World) : Call → World × Except String FullWorkflowState
 | .start objective maxReadOnlyWorkers => startFullWorkflow env w objective maxReadOnlyWorkers
 | .advance parentSessionId gateId decision reason =>
  advanceFullWorkflow env w parentSessionId gateId decision reason
 | .reroute parentSessionId finding targetStage =>
  rerouteFullWorkflow env w parentSessionId finding targetStage
 | .block parentSessionId reason => blockFullWorkflow env w parentSessionId reason
 | .supportRole parentSessionId role stage =>
  runFullWorkflowSupportRole env w parentSessionId role stage
 | .close parentSessionId => closeFullWorkflow env w parentSessionId

def World.step (env : Surroundings) (w : World) (call : Call) : World := (perform env w call).1

end DhKit.FullWorkflow
