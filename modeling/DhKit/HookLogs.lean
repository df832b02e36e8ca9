import DhKit.BridgeServer
import DhKit.SeparatedText
import DhKit.SessionStore

/-!
# The log of the runtime hooks

The bridge asks a hook before it runs the query of a command and before it answers.
-/
namespace DhKit.Hooks
open JsonRpc KeyedTables Sessions List
open Bridge (HookDecision HookResult Engine)

inductive HookName where
 | modelOverride | preToolExec | preAnswer | skillActivation | mcpRouting | sessionStateInjection
deriving DecidableEq

def HookName.asStr : HookName → String
 | .modelOverride => "model_override"
 | .preToolExec => "pre_tool_exec"
 | .preAnswer => "pre_answer"
 | .skillActivation => "skill_activation"
 | .mcpRouting => "mcp_routing"
 | .sessionStateInjection => "session_state_injection"

structure HookContext where
 session : SessionState
 agentId : String
 role : AgentRole
 lane : WorkflowLane

/-! ## The hooks -/

structure RuntimeHook where
 name : HookName
 evaluate : HookContext → Json → HookResult

def allow (reason : String) : HookResult := ⟨.allow,.null,reason⟩

def block (reason : String) : HookResult := ⟨.block,.null,reason⟩

def modify (reason : String) (output : Json) : HookResult := ⟨.modify,output,reason⟩

def passthrough (reason : String) : HookResult := ⟨.passthrough,.null,reason⟩

def modelOverrideHook : RuntimeHook where
 name := .modelOverride
 evaluate _ input :=
  if ((input.get "default_model").getD .null).isNull then
   passthrough "no model specified, passthrough to worker default"
  else passthrough "using worker-specified default model"

def blockedOsCommands : List String :=
 ["grep","find","cat","head","tail","sed","awk","wc"]

def levelName : ToolEnforcementLevel → String
 | .veryHard => "VeryHard"
 | .hard => "Hard"
 | .soft => "Soft"
 | .off => "Off"

def preToolExecHook : RuntimeHook where
 name := .preToolExec
 evaluate ctx input :=
  let toolName := ((input.get "tool_name").bind Json.asStr).getD ""
  let enforcement := ctx.session.toolEnforcementLevel
  if (enforcement = .veryHard ∨ enforcement = .hard) ∧
   blockedOsCommands.any (fun cmd => cmd.toList.isPrefixOf toolName.toList) then
   block ("tool '" ++ toolName ++ "' blocked by tool_enforcement_level=" ++ levelName enforcement ++
    " — use built-in tools instead")
  else if ctx.lane = .quick ∧ (toolName = "deploy" ∨ toolName = "publish") then
   block "deploy/publish blocked in quick lane"
  else if ctx.lane = .migration ∧ (toolName = "scaffold" ∨ toolName = "create_component") then
   block "new feature scaffolding blocked in migration lane"
  else allow "tool execution permitted"

def asBool : Json → Option Bool
 | .bool value => some value
 | _ => none

/-- Numbers are read from their text by `number`. -/
def asF64 (number : String → Rat) : Json → Option Rat
 | .unsigned value => some value
 | .number text => some (number text)
 | _ => none

def preAnswerHook (number : String → Rat) : RuntimeHook where
 name := .preAnswer
 evaluate ctx input :=
  let evidenceScore := ((input.get "evidence_score").bind (asF64 number)).getD 1
  let hasEvidence := ((input.get "has_evidence").bind asBool).getD true
  let requireEvidence := ((input.get "require_evidence").bind asBool).getD false
  match ctx.session.semanticMode with
  | .always =>
   if ¬ hasEvidence ∧ evidenceScore < 3/10 then
    block "answer blocked: insufficient evidence in semantic_mode=always"
   else allow "answer quality gate passed"
  | .onDemand =>
   if requireEvidence ∧ evidenceScore < 3/10 then
    block "answer blocked: evidence below threshold (on_demand mode)"
   else allow "answer quality gate passed"
  | .off => allow "answer quality gate passed"

def textItems (input : Json) (key : String) : List String :=
 match input.get key with
 | some (.array items) => items.filterMap Json.asStr
 | _ => []

def laneName : WorkflowLane → String
 | .quick => "Quick"
 | .delivery => "Delivery"
 | .migration => "Migration"

def skillAllowed (skill : String) : WorkflowLane → Bool
 | .quick => skill ∉ ["tdd-workflow","deployment-procedures","parallel-agents"]
 | .migration => skill ∉ ["game-development","mcp-builder"]
 | .delivery => true

def skillActivationHook : RuntimeHook where
 name := .skillActivation
 evaluate ctx input :=
  let availableSkills := textItems input "available_skills"
  if availableSkills = [] then passthrough "no skills declared, passthrough"
  else
   let activated := availableSkills.filter (skillAllowed · ctx.lane)
   modify ("activated " ++ toString activated.length ++ "/" ++ toString availableSkills.length ++
     " skills for " ++ laneName ctx.lane ++ " lane")
    (.object [("activated_skills",.array (activated.map .string))])

def roleName : AgentRole → String
 | .coordinator => "Coordinator"
 | .productLead => "ProductLead"
 | .solutionLead => "SolutionLead"
 | .implementer => "Implementer"
 | .codeReviewer => "CodeReviewer"
 | .qaAgent => "QaAgent"
 | .quickAgent => "QuickAgent"

def mcpAllowed (mcp : String) (role : AgentRole) : Bool :=
 ¬ (role = .coordinator ∨ role = .productLead) ∨ mcp ∉ ["chrome-devtools-mcp","filesystem-mcp"]

def mcpRoutingHook : RuntimeHook where
 name := .mcpRouting
 evaluate ctx input :=
  let availableMcps := textItems input "available_mcps"
  if availableMcps = [] then passthrough "no MCPs declared, passthrough"
  else
   let routed := availableMcps.filter (mcpAllowed · ctx.role)
   modify ("routed " ++ toString routed.length ++ "/" ++ toString availableMcps.length ++
     " MCPs for " ++ roleName ctx.role)
    (.object [("routed_mcps",.array (routed.map .string))])

def laneText : WorkflowLane → String
 | .quick => "quick"
 | .delivery => "delivery"
 | .migration => "migration"

def roleText : AgentRole → String
 | .coordinator => "coordinator"
 | .productLead => "product_lead"
 | .solutionLead => "solution_lead"
 | .implementer => "implementer"
 | .codeReviewer => "code_reviewer"
 | .qaAgent => "qa_agent"
 | .quickAgent => "quick_agent"

def statusName : SessionStatus → String
 | .pending => "Pending"
 | .active => "Active"
 | .paused => "Paused"
 | .completed => "Completed"
 | .failed => "Failed"
 | .cancelled => "Cancelled"

def semanticName : SemanticMode → String
 | .always => "Always"
 | .onDemand => "OnDemand"
 | .off => "Off"

def sessionStateInjectionHook : RuntimeHook where
 name := .sessionStateInjection
 evaluate ctx _ :=
  modify "session state injected into worker context"
   (.object [("session_id",.string ctx.session.id),
    ("lane",.string (laneText ctx.session.lane)),
    ("lane_locked",.bool ctx.session.laneLocked),
    ("current_stage",.string ctx.session.currentStage),
    ("status",.string (statusName ctx.session.status)),
    ("semantic_mode",.string (semanticName ctx.session.semanticMode)),
    ("tool_enforcement_level",.string (levelName ctx.session.toolEnforcementLevel)),
    ("agent_id",.string ctx.agentId),
    ("role",.string (roleText ctx.role))])

/-! ## The dispatcher -/

structure HookInvocationLog where
 id : String
 sessionId : String
 envelopeId : Option String
 hookName : HookName
 inputJson : Json
 outputJson : Json
 decision : HookDecision
 reason : String
 durationMs : Nat
 createdAtUnixMs : Int

structure HookDispatcher where
 hooks : List RuntimeHook

structure Dispatch where
 hookName : HookName
 ctx : HookContext
 input : Json
 sessionId : String
 envelopeId : Option String
 durationMs : Nat
 nowMs : Int

namespace HookDispatcher

def new (number : String → Rat) : HookDispatcher :=
 ⟨[modelOverrideHook,preToolExecHook,preAnswerHook number,skillActivationHook,mcpRoutingHook,
  sessionStateInjectionHook]⟩

def hookDebug : HookName → String
 | .modelOverride => "ModelOverride"
 | .preToolExec => "PreToolExec"
 | .preAnswer => "PreAnswer"
 | .skillActivation => "SkillActivation"
 | .mcpRouting => "McpRouting"
 | .sessionStateInjection => "SessionStateInjection"

def logId (hookName : HookName) (nowMs : Int) : String :=
 "hook-" ++ hookName.asStr ++ "-" ++ toString nowMs

variable (dispatcher : HookDispatcher)

def result (call : Dispatch) : HookResult :=
 match dispatcher.hooks.find? (·.name = call.hookName) with
 | some hook => hook.evaluate call.ctx call.input
 | none => passthrough ("no hook registered for " ++ hookDebug call.hookName)

def dispatch (call : Dispatch) : HookInvocationLog × HookResult :=
 let result := dispatcher.result call
 ({ id := logId call.hookName call.nowMs
    sessionId := call.sessionId
    envelopeId := call.envelopeId
    hookName := call.hookName
    inputJson := call.input
    outputJson := result.output
    decision := result.decision
    reason := result.reason
    durationMs := call.durationMs
    createdAtUnixMs := call.nowMs },result)

end HookDispatcher

abbrev HookLogs := Table String HookInvocationLog HookInvocationLog.id

def insertHookLog (logs : HookLogs) (log : HookInvocationLog) : Option HookLogs := logs.insert log

variable (dispatcher : HookDispatcher)

/-- `let _ = log_repo.insert_hook_log(&log)`. -/
def logInvocation (logs : HookLogs) (call : Dispatch) : HookLogs :=
 (insertHookLog logs (dispatcher.dispatch call).1).getD logs

variable (calls : List Dispatch)

def logAll : HookLogs :=
 calls.foldl (logInvocation dispatcher) Table.empty

/-! ## The hooks of the bridge -/

section
variable {δ : Type}

structure Host (δ : Type) where
 data : δ
 logs : HookLogs
 calls : List Dispatch

def hookNameOf : Bridge.HookName → HookName
 | .preToolExec => .preToolExec
 | .preAnswer => .preAnswer

def bridgeSession (workspace : String) (nowMs : Int) : SessionState where
 id := "bridge-session"
 repoRoot := workspace
 lane := .quick
 laneLocked := false
 currentStage := "runCommand"
 status := .active
 semanticMode := .onDemand
 toolEnforcementLevel := .hard
 createdAtUnixMs := nowMs
 updatedAtUnixMs := nowMs

def bridgeContext (workspace : String) (nowMs : Int) : HookContext where
 session := bridgeSession workspace nowMs
 agentId := "bridge"
 role := .coordinator
 lane := .quick

def bridgeCall (workspace : String) (name : Bridge.HookName) (input : Json) (clocks : Nat × Int) :
 Dispatch where
 hookName := hookNameOf name
 ctx := bridgeContext workspace clocks.2
 input := input
 sessionId := "bridge-session"
 envelopeId := none
 durationMs := clocks.1
 nowMs := clocks.2

def Host.call (dispatcher : HookDispatcher) (call : Dispatch) (s : Host δ) :
 HookResult × Host δ :=
 ((dispatcher.dispatch call).2,
  { s with logs := logInvocation dispatcher s.logs call,calls := s.calls++[call] })

def hooked (clocks : Nat → Nat × Int) (engine : Engine δ) :
 Engine (Host δ) where
 workspace := engine.workspace
 serverVersion := engine.serverVersion
 bridgeCodec := engine.bridgeCodec
 invalidTransport := engine.invalidTransport
 languageCapabilityMatrix := engine.languageCapabilityMatrix
 lifecycleContract := engine.lifecycleContract
 workerProtocolContract := engine.workerProtocolContract
 dispatch name input s :=
  s.call dispatcher (bridgeCall engine.workspace name input (clocks s.calls.length))
 query method params s :=
  let (outcome,data) := engine.query method params s.data
  (outcome,{ s with data := data })

def Host.start (data : δ) : Host δ := ⟨data,Table.empty,[]⟩

def runCommands (engine : Engine (Host δ)) (requests : List Bridge.RpcRequest) (s : Host δ) :
 Host δ :=
 requests.foldl (fun s request => (Bridge.runCommand engine request s).2) s

variable (dispatcher : HookDispatcher)

def Host.Kept (s : Host δ) : Prop := s.logs = logAll dispatcher s.calls

variable {dispatcher}

theorem Host.Kept.call {s : Host δ} (h:s.Kept dispatcher) (call : Dispatch) :
 (s.call dispatcher call).2.Kept dispatcher := by
 unfold Host.Kept at h
 simp [Host.call,Host.Kept,logAll,h]

variable {clocks : Nat → Nat × Int} {engine : Engine δ}

theorem Host.Kept.routeWorkerQuery {s : Host δ} (h:s.Kept dispatcher)
 (request : Bridge.RpcRequest) :
 (Bridge.routeWorkerQuery (hooked dispatcher clocks engine) request s).2.Kept dispatcher := by
 unfold Bridge.routeWorkerQuery
 split
 · exact h
 · exact h

theorem Host.Kept.answerCommand {s : Host δ} (h:s.Kept dispatcher) (id : Option Json)
 (queryMethod : String) (delegated : Json) :
 (Bridge.answerCommand (hooked dispatcher clocks engine) id queryMethod delegated
  s).2.Kept dispatcher := by
 unfold Bridge.answerCommand
 dsimp only
 split
 · exact h
 · split
   · exact h.call _
   · exact h.call _

theorem Host.Kept.runCommand {s : Host δ} (h:s.Kept dispatcher) (request : Bridge.RpcRequest) :
 (Bridge.runCommand (hooked dispatcher clocks engine) request s).2.Kept dispatcher := by
 unfold Bridge.runCommand
 dsimp only
 split
 · exact h
 split
 · exact h
 · split
   · exact h.call _
   · exact (h.call _).routeWorkerQuery _ |>.answerCommand _ _ _

theorem runCommands_kept (requests : List Bridge.RpcRequest) {s : Host δ}
 (h:s.Kept dispatcher) :
 (runCommands (hooked dispatcher clocks engine) requests s).Kept dispatcher := by
 induction requests generalizing s with
 | nil => exact h
 | cons request requests ih => exact ih (h.runCommand request)

end

/-! ## One row for each call -/

theorem dash_not_mem_asStr (name : HookName) : '-' ∉ name.asStr.toList := by
 cases name <;> decide

theorem asStr_injective : Function.Injective HookName.asStr := by
 intro name other h
 cases name <;> cases other <;> first | rfl | exact absurd h (by decide)

theorem takeWhile_asStr (name : HookName) (rest : List Char) :
 (name.asStr.toList ++ '-' :: rest).takeWhile (· ≠ '-')=name.asStr.toList := by
 rw [takeWhile_append_of_pos]
 · simp
 intro c hc
 simp only [decide_eq_true_eq]
 intro hda
 exact dash_not_mem_asStr name (hda ▸ hc)

theorem logId_inj {name other : HookName} {nowMs otherMs : Int} :
 HookDispatcher.logId name nowMs=HookDispatcher.logId other otherMs ↔
  (name,nowMs)=(other,otherMs) := by
 constructor
 · intro h
   have htext:=congrArg String.toList h
   simp only [HookDispatcher.logId,String.toList_append,append_assoc] at htext
   have hta:=append_cancel_left htext
   have hn:name.asStr.toList=other.asStr.toList:=by
    rw [←takeWhile_asStr name (toString nowMs).toList]
    rw [←takeWhile_asStr other (toString otherMs).toList]
    exact congrArg (List.takeWhile (· ≠ '-')) hta
   rw [hn] at hta
   have hcl:=append_cancel_left (append_cancel_left hta)
   rw [asStr_injective (String.toList_inj.mp hn),
    SeparatedText.intText_injective (String.toList_inj.mp hcl)]
 · intro h
   cases h
   rfl

def HookInvocationLog.account (log : HookInvocationLog) :
 String × Json × HookDecision × String :=
 (log.sessionId,log.inputJson,log.decision,log.reason)

def HookDispatcher.account (call : Dispatch) :
 String × Json × HookDecision × String :=
 (call.sessionId,call.input,(dispatcher.result call).decision,(dispatcher.result call).reason)

def Logged (logs : HookLogs) : Prop :=
 (logs.rows.map HookInvocationLog.account).Perm (calls.map dispatcher.account)

theorem logAll_eq :
 logAll dispatcher calls =
  (calls.map fun call=>(dispatcher.dispatch call).1).foldl Table.insertOrKeep Table.empty := by
 rw [foldl_map]
 rfl

theorem nodup_ids_iff :
 ((calls.map fun call=>(dispatcher.dispatch call).1).map HookInvocationLog.id).Nodup ↔
  (calls.map fun call=>(call.hookName,call.nowMs)).Nodup := by
 rw [map_map,List.Nodup,List.Nodup,pairwise_map,pairwise_map]
 constructor
 · intro h
   exact h.imp fun hne heq=>hne (logId_inj.mpr heq)
 · intro h
   exact h.imp fun hne heq=>hne (logId_inj.mp heq)

theorem logged_logAll_iff :
 Logged dispatcher calls (logAll dispatcher calls) ↔
  (calls.map fun call=>(call.hookName,call.nowMs)).Nodup := by
 rw [←nodup_ids_iff dispatcher,Logged,logAll_eq]
 constructor
 · intro h
   have hl:=h.length_eq
   rw [length_map,length_map] at hl
   apply Table.foldl_insertOrKeep_full (t := (Table.empty : HookLogs))
   rw [hl,length_map,Table.rows_empty,length_nil,Nat.zero_add]
 · intro h
   rw [Table.rows_foldl_insertOrKeep (by exact h),Table.rows_empty,nil_append,map_map]
   exact List.Perm.refl _

/-- Every sequence of calls is logged exactly when no two calls share hook and millisecond; what
 the commands of the bridge leave in the table is the log of the calls they made. -/
theorem hookLogs_complete_iff {δ : Type} :
 (∀ calls,Logged dispatcher calls (logAll dispatcher calls) ↔
  (calls.map fun call => (call.hookName,call.nowMs)).Nodup) ∧
 ∀ (clocks : Nat → Nat × Int) (engine : Engine δ) (data : δ)
  (requests : List Bridge.RpcRequest),
  let s := runCommands (hooked dispatcher clocks engine) requests (Host.start data)
  Logged dispatcher s.calls s.logs ↔
   (s.calls.map fun call => (call.hookName,call.nowMs)).Nodup := by
 refine ⟨logged_logAll_iff dispatcher,fun clocks engine data requests=>?_⟩
 have hkept:(Host.start data).Kept dispatcher:=rfl
 have hr:(runCommands (hooked dispatcher clocks engine) requests
  (Host.start data)).Kept dispatcher := runCommands_kept requests hkept
 dsimp only
 rw [hr]
 exact logged_logAll_iff dispatcher _

def quietEngine : Engine Unit where
 workspace := "/work"
 serverVersion := "0.1.0"
 bridgeCodec := none
 invalidTransport _ := ""
 languageCapabilityMatrix := .null
 lifecycleContract := .null
 workerProtocolContract := .null
 dispatch _ _ s := (passthrough "",s)
 query _ _ s := (.result (.object []),s)

def searchCommand (id : Nat) (text : String) : Bridge.RpcRequest where
 id := some (.unsigned id)
 method := "session.runCommand"
 params := .object [("query",.object [("method",.string "query.search"),
  ("params",.object [("query",.string text)])])]

def twoCommands : Host Unit :=
 runCommands (hooked (.new fun _ => 0) (fun _ => (0,1000)) quietEngine)
  [searchCommand 1 "a",searchCommand 2 "b"] (Host.start ())

/-- The hooks were called four times, and two of the calls are not in the log. -/
theorem hookLogs_incomplete : twoCommands.calls.length = 4 ∧ twoCommands.logs.rows.length = 2 ∧
 ¬ Logged (.new fun _ => 0) twoCommands.calls twoCommands.logs := by
 have hca:twoCommands.calls.length=4:=by decide +kernel
 have hr:twoCommands.logs.rows.length=2:=by decide +kernel
 refine ⟨hca,hr,fun h=>?_⟩
 have hl:=h.length_eq
 exact absurd hl (by decide)

end DhKit.Hooks
