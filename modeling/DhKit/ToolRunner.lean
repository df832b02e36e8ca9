import DhKit.FileTools

/-!
# The tool runner

`ToolRunner.run` writes an audit row before and after a tool and hands its result on.
-/
namespace DhKit.ToolRuns
open FileTools List

/-! ## Tools and their definitions -/

inductive ToolName where
 | read | write | edit | shell | glob | grep | applyPatch | todo | task
 | semanticSearch | graphFindSymbol | graphFindReferences | graphCallHierarchy
deriving DecidableEq

inductive ToolCategory where
 | read | write | shell | task | graph
deriving DecidableEq

inductive ToolPermissionLevel where
 | deny | ask | allow | autoApproveWithPolicy
deriving DecidableEq

inductive ToolResultStatus where
 | succeeded | failed | permissionRequired | unsupported
deriving DecidableEq

namespace ToolName

def text : ToolName → String
 | read => "read"
 | write => "write"
 | edit => "edit"
 | shell => "shell"
 | glob => "glob"
 | grep => "grep"
 | applyPatch => "apply_patch"
 | todo => "todo"
 | task => "task"
 | semanticSearch => "semantic_search"
 | graphFindSymbol => "graph_find_symbol"
 | graphFindReferences => "graph_find_references"
 | graphCallHierarchy => "graph_call_hierarchy"

def category : ToolName → ToolCategory
 | read | glob | grep | semanticSearch => .read
 | write | edit | applyPatch => .write
 | shell => .shell
 | todo | task => .task
 | graphFindSymbol | graphFindReferences | graphCallHierarchy => .graph

def defaultPermissionLevel : ToolName → ToolPermissionLevel
 | write | edit | shell | applyPatch | task => .ask
 | _ => .autoApproveWithPolicy

end ToolName

def toolDefinitions : List ToolName :=
 [.read,.write,.edit,.shell,.glob,.grep,.applyPatch,.todo,.task,.semanticSearch,
  .graphFindSymbol,.graphFindReferences,.graphCallHierarchy]

def getToolDefinition (toolName : String) : Option ToolName :=
 toolDefinitions.find? (·.text = toolName)

structure ToolPermission where
 allowed : Bool
 requiresPermission : Bool
 reason : String

def evaluateToolPermission (tool : ToolName) (permissionLevel : ToolPermissionLevel) :
 ToolPermission :=
 if permissionLevel = .deny then
  ⟨false,false,"Tool '" ++ tool.text ++ "' is denied by permission policy."⟩
 else if permissionLevel = .ask then
  ⟨false,true,"Tool '" ++ tool.text ++ "' requires permission before execution."⟩
 else if permissionLevel = .allow then ⟨true,false,"Tool explicitly allowed."⟩
 else if permissionLevel = .autoApproveWithPolicy ∨
   tool.defaultPermissionLevel = .autoApproveWithPolicy then
  ⟨true,false,"Tool auto-approved by policy."⟩
 else ⟨false,true,"Tool '" ++ tool.text ++ "' requires permission before automatic execution."⟩

/-! ## Inputs and results -/

structure ShellInput where
 command : String
 cwd : Option String := none
 timeoutMs : Option Nat := none
 maxOutputBytes : Option Nat := none

structure TaskInput where
 prompt : String
 agentId : Option String := none
 maxResultBytes : Option Nat := none

inductive TodoStatus where
 | pending | inProgress | completed

structure TodoItem where
 id : Option String
 content : String
 status : Option TodoStatus

/-- The inputs of the other tools are `ι`. -/
abbrev InputOf (ι : Type) : ToolName → Type
 | .shell => ShellInput
 | .task => TaskInput
 | .todo => List TodoItem
 | _ => ι

structure ToolResultMetadata where
 truncated : Bool
 bytesRead : Option Nat := none
 bytesReturned : Option Nat := none
 omittedBytes : Option Nat := none
 exitCode : Option (Option Int) := none

inductive ToolOutput (ω : Type) where
 | shell (command stdout stderr : String) (exitCode : Option Int)
 | task (result : String)
 | todo (items : List (String × String × TodoStatus))
 | other (value : ω)

structure ToolResultEnvelope (ω : Type) where
 toolName : String
 status : ToolResultStatus
 output : Option (ToolOutput ω) := none
 error : Option String := none
 metadata : ToolResultMetadata := { truncated := false }

inductive Ending (α : Type) where
 | resolves (value : α)
 | rejects (error : String)
 | pending

/-! ## The executors -/

abbrev Bytes := List UInt8

inductive ChildEvent where
 | stdout (chunk : Bytes)
 | stderr (chunk : Bytes)
 | timeout
 | error (message : String)
 | close (exitCode : Option Int)

def ChildEvent.ends : ChildEvent → Bool
 | .error _ | .close _ => true
 | _ => false

inductive Spawned where
 | throws (error : String)
 | child (events : List ChildEvent)

structure Behaviour (ι ω : Type) where
 attempt : ToolName → ι → Except String (ToolOutput ω × ToolResultMetadata)
 spawn : ShellInput → Spawned
 execute : TaskInput → Ending String

structure BashGuardDecision where
 allowed : Bool
 reason : String

/-- The options of a runner, and what the runtime supplies: `decode` is `toString("utf8")`. -/
structure ToolRunner (ρ ι : Type) where
 workingDirectory : WorkingDirectory
 repoRoot : String
 role : String
 agentId : String
 permissionOverrides : ToolName → Option ToolPermissionLevel := fun _ => none
 hasTaskExecutor : Bool
 parseToolInput : (tool : ToolName) → ρ → Except String (InputOf ι tool)
 bashGuard : String → Bool → BashGuardDecision
 encode : String → Bytes
 decode : Bytes → String

structure Call (ρ ι ω : Type) where
 toolName : String
 rawInput : ρ
 behaviour : Behaviour ι ω

def failedResult {ω : Type} (tool : ToolName) (error : String) : ToolResultEnvelope ω :=
 { toolName := tool.text,status := .failed,error := some error }

structure ShellState where
 stdout : String := ""
 stderr : String := ""
 bytesReturned : Nat := 0
 bytesSeen : Nat := 0
 timedOut : Bool := false

def ShellState.metadata (s : ShellState) (exitCode : Option Int) : ToolResultMetadata :=
 { truncated := s.bytesReturned < s.bytesSeen,bytesReturned := some s.bytesReturned,
   omittedBytes := some (s.bytesSeen-s.bytesReturned),exitCode := some exitCode }

namespace ToolRunner
variable {ρ ι ω : Type} (r : ToolRunner ρ ι)

def isWriteOwner : Bool :=
 r.role = "implementer" || r.agentId = "implementer" || r.agentId = "fullstack_agent"

def catching (tool : ToolName) (body : Except String (ToolOutput ω × ToolResultMetadata)) :
 ToolResultEnvelope ω :=
 match body with
 | .ok (output,metadata) =>
  { toolName := tool.text,status := .succeeded,output := some output,metadata := metadata }
 | .error error => failedResult tool error

def evaluateShellPermission (command : String) (permissionLevel : ToolPermissionLevel) :
 ToolPermission :=
 if permissionLevel = .deny then ⟨false,false,"Shell command denied by permission policy."⟩
 else if permissionLevel = .ask then
  ⟨false,true,"Shell command requires permission before execution."⟩
 else
  let guard := r.bashGuard command (permissionLevel = .autoApproveWithPolicy)
  ⟨guard.allowed,false,guard.reason⟩

/-- The output taken from a chunk, as far as there is room for it. -/
def append (maxOutputBytes : Nat) (s : ShellState) (chunk : Bytes) : String × ShellState :=
 let returned := chunk.take (maxOutputBytes-s.bytesReturned)
 (r.decode returned,{ s with bytesReturned := s.bytesReturned+returned.length
                             bytesSeen := s.bytesSeen+chunk.length })

/-- The promise of a child process, settled by the first `error` or `close`. -/
def awaitChild (input : ShellInput) : ShellState → List ChildEvent → Ending (ToolResultEnvelope ω)
 | _,[] => .pending
 | s,.stdout chunk::events =>
  let (text,s) := r.append (input.maxOutputBytes.getD 64000) s chunk
  awaitChild input { s with stdout := s.stdout++text } events
 | s,.stderr chunk::events =>
  let (text,s) := r.append (input.maxOutputBytes.getD 64000) s chunk
  awaitChild input { s with stderr := s.stderr++text } events
 | s,.timeout::events => awaitChild input { s with timedOut := true } events
 | s,.error message::_ =>
  .resolves { toolName := "shell",status := .failed,error := some message
              metadata := s.metadata none }
 | s,.close exitCode::_ =>
  .resolves
   { toolName := "shell"
     status := if s.timedOut ∨ exitCode≠some 0 then .failed else .succeeded
     output := some (.shell input.command s.stdout s.stderr exitCode)
     error :=
      if s.timedOut then
       some ("Shell command timed out after " ++ toString (input.timeoutMs.getD 30000) ++ "ms.")
      else if exitCode = some 0 then none
      else some ("Shell command exited with code " ++ (exitCode.map toString).getD "null" ++ ".")
     metadata := s.metadata exitCode }

def executeShellTool (input : ShellInput) (permissionLevel : ToolPermissionLevel)
 (spawn : ShellInput → Spawned) : Ending (ToolResultEnvelope ω) :=
 let permission := r.evaluateShellPermission input.command permissionLevel
 if !permission.allowed then
  .resolves { toolName := "shell",error := some permission.reason
              status := if permission.requiresPermission then .permissionRequired else .failed }
 else
  match input.cwd.map (resolveRepoPath r.workingDirectory r.repoRoot) with
  | some (.error (.message text)) => .rejects text
  | some (.error (.system _)) => .rejects ""
  | _ =>
   match spawn input with
   | .throws error => .rejects error
   | .child events => r.awaitChild input {} events

def executeTodoTool (items : List TodoItem) : ToolResultEnvelope ω :=
 { toolName := "todo",status := .succeeded
   output := some (.todo (items.mapIdx fun index item =>
    (item.id.getD ("todo-" ++ toString (index + 1)),item.content,
     item.status.getD .pending))) }

def executeTaskTool (input : TaskInput) (execute : TaskInput → Ending String) :
 Ending (ToolResultEnvelope ω) :=
 if !r.hasTaskExecutor then
  .resolves { toolName := "task",status := .unsupported
              error := some "Task tool requires an injected task executor." }
 else
  match execute input with
  | .rejects error => .rejects error
  | .pending => .pending
  | .resolves raw =>
   let buffer := r.encode raw
   let returned := buffer.take (input.maxResultBytes.getD 16000)
   .resolves
    { toolName := "task",status := .succeeded,output := some (.task (r.decode returned))
      metadata := { truncated := returned.length < buffer.length
                    bytesRead := some buffer.length,bytesReturned := some returned.length
                    omittedBytes := some (buffer.length-returned.length) } }

def dispatch (behaviour : Behaviour ι ω) (permissionLevel : ToolPermissionLevel) :
 (tool : ToolName) → InputOf ι tool → Ending (ToolResultEnvelope ω)
 | .shell,input => r.executeShellTool input permissionLevel behaviour.spawn
 | .task,input => r.executeTaskTool input behaviour.execute
 | .todo,items => .resolves (executeTodoTool items)
 | .read,input => .resolves (catching .read (behaviour.attempt .read input))
 | .write,input => .resolves (catching .write (behaviour.attempt .write input))
 | .edit,input => .resolves (catching .edit (behaviour.attempt .edit input))
 | .glob,input => .resolves (catching .glob (behaviour.attempt .glob input))
 | .grep,input => .resolves (catching .grep (behaviour.attempt .grep input))
 | .applyPatch,input => .resolves (catching .applyPatch (behaviour.attempt .applyPatch input))
 | tool,_ => .resolves
  { toolName := tool.text,status := .unsupported
    error := some ("Tool '" ++ tool.text ++
     "' is catalogued but not executable in this milestone.") }

end ToolRunner

/-! ## One call -/

inductive AuditStatus where
 | called | succeeded | failed
deriving DecidableEq

/-- Audit rows and events in their order; `dispatched` marks the call of `dispatch`. -/
inductive Entry where
 | row (toolName : String) (status : AuditStatus)
 | permissionRequested (tool : ToolName) (level : ToolPermissionLevel) (reason : String)
 | started (tool : ToolName)
 | dispatched (tool : ToolName)
 | finished (tool : ToolName) (status : ToolResultStatus) (metadata : ToolResultMetadata)

namespace ToolRunner
variable {ρ ι ω : Type} (r : ToolRunner ρ ι) {tool : ToolName} {call : Call ρ ι ω}
 {input : InputOf ι tool} {behaviour : Behaviour ι ω} {level : ToolPermissionLevel} {rawInput : ρ}
  {result : ToolResultEnvelope ω}

def permissionLevel (tool : ToolName) : ToolPermissionLevel :=
 (r.permissionOverrides tool).getD tool.defaultPermissionLevel

def permission (tool : ToolName) : ToolPermission :=
 evaluateToolPermission tool (r.permissionLevel tool)

/-- The end of a call that got through, by the promise of its dispatch. -/
def finish (tool : ToolName) :
 Ending (ToolResultEnvelope ω) → List Entry × Ending (ToolResultEnvelope ω)
 | .resolves result =>
  ([.finished tool result.status result.metadata,
    .row tool.text (if result.status = .succeeded then .succeeded else .failed)],
   .resolves result)
 | ending => ([],ending)

def writeRefusal : String :=
 "Only the Fullstack Agent can execute write tools; reviewer, tester, and read-only roles must " ++
  "report findings through artifacts."

/-- The checks before a tool is started: the input, or the events and the result of a refusal. -/
def accepts (tool : ToolName) (rawInput : ρ) :
 Except (List Entry × ToolResultEnvelope ω) (InputOf ι tool) :=
 match r.parseToolInput tool rawInput with
 | .error error => .error ([],failedResult tool error)
 | .ok input =>
  let permission := r.permission tool
  if !permission.allowed then
   .error
    (if permission.requiresPermission then
      [.permissionRequested tool (r.permissionLevel tool) permission.reason] else [],
     { toolName := tool.text,error := some permission.reason
       status := if permission.requiresPermission then .permissionRequired else .failed })
  else if tool.category = .write && !r.isWriteOwner then
   .error ([],failedResult tool writeRefusal)
  else .ok input

def run (call : Call ρ ι ω) : List Entry × Ending (ToolResultEnvelope ω) :=
 match getToolDefinition call.toolName with
 | none =>
  ([.row call.toolName .failed],.resolves
   { toolName := call.toolName,status := .failed
     error := some ("Unknown tool '" ++ call.toolName ++ "'.") })
 | some tool =>
  match r.accepts tool call.rawInput with
  | .error (asked,result) =>
   (.row tool.text .called::(asked++[.row tool.text .failed]),.resolves result)
  | .ok input =>
   let (entries,ending) :=
    finish tool (r.dispatch call.behaviour (r.permissionLevel tool) tool input)
   ([.row tool.text .called,.started tool,.dispatched tool]++entries,ending)

/-! ## The audit trail -/

structure Audited (call : Call ρ ι ω) (entries : List Entry) : Prop where
 resolves : ∃ result,(r.run call).2 = .resolves result
 rows : ∀ tool,getToolDefinition call.toolName = some tool → ∀ result,
  (r.run call).2 = .resolves result → entries.filter (fun e => e matches .row ..) =
   [.row tool.text .called,
    .row tool.text (if result.status = .succeeded then .succeeded else .failed)]
 events : ∀ tool,.started tool ∈ entries → ∃ status metadata,
  entries.filter (fun e => e matches .started .. | .finished ..) =
   [.started tool,.finished tool status metadata]
 writes : ∀ tool,.dispatched tool ∈ entries → tool.category = .write →
  (r.permission tool).allowed ∧ r.isWriteOwner

/-- The calls run side by side: each makes its own entries in their order. -/
def Interleaved (calls : List (Call ρ ι ω)) (log : List (Nat × Entry)) : Prop :=
 ∀ i call,calls[i]? = some call →
  (log.filter fun entry => entry.1 = i).map Prod.snd = (r.run call).1

def AuditTrail (calls : List (Call ρ ι ω)) (log : List (Nat × Entry)) : Prop :=
 ∀ i call,calls[i]? = some call →
  r.Audited call ((log.filter fun entry => entry.1 = i).map Prod.snd)

/-- The working directory of a shell command that is let through lies in the repository, and the
command is spawned and ends; the executor of a task returns. -/
def Returns (behaviour : Behaviour ι ω) (level : ToolPermissionLevel) :
 (tool : ToolName) → InputOf ι tool → Prop
 | .shell,input => (r.evaluateShellPermission input.command level).allowed →
  (∀ cwd ∈ input.cwd,∃ path,resolveRepoPath r.workingDirectory r.repoRoot cwd = .ok path) ∧
   ∃ events,behaviour.spawn input = .child events ∧ ∃ e ∈ events,e.ends
 | .task,input => r.hasTaskExecutor → ∃ text,behaviour.execute input = .resolves text
 | _,_ => True

def Ends (call : Call ρ ι ω) : Prop :=
 ∀ tool input,getToolDefinition call.toolName = some tool →
  r.parseToolInput tool call.rawInput = .ok input → (r.permission tool).allowed →
  (tool.category = .write → r.isWriteOwner) →
  r.Returns call.behaviour (r.permissionLevel tool) tool input

variable {r}

theorem awaitChild_resolves_iff {input : ShellInput} {events : List ChildEvent} {s : ShellState} :
 (∃result : ToolResultEnvelope ω,r.awaitChild input s events = .resolves result) ↔
  ∃e∈events,e.ends := by
 induction events generalizing s with
 | nil => simp [awaitChild]
 | cons e events ih => cases e <;> simp [awaitChild,ChildEvent.ends,ih]

theorem executeShellTool_resolves_iff {input : ShellInput} :
 (∃result : ToolResultEnvelope ω,
  r.executeShellTool input level behaviour.spawn = .resolves result) ↔
  r.Returns behaviour level .shell input := by
 have hsp:(∃result : ToolResultEnvelope ω,(match behaviour.spawn input with
   | .throws error => Ending.rejects error
   | .child events => r.awaitChild input {} events) = .resolves result) ↔
   ∃events,behaviour.spawn input = .child events ∧ ∃e∈events,e.ends := by
  cases behaviour.spawn input with
  | throws error => simp
  | child events => simp [awaitChild_resolves_iff]
 cases hal : (r.evaluateShellPermission input.command level).allowed with
 | false => simp [executeShellTool,Returns,hal]
 | true =>
  simp only [executeShellTool,Returns,hal]
  cases input.cwd with
  | none => simpa using hsp
  | some cwd =>
   cases hp : resolveRepoPath r.workingDirectory r.repoRoot cwd with
   | error e => cases e <;> simp [hp]
   | ok path => simpa [hp] using hsp

theorem dispatch_resolves_iff :
 (∃result,r.dispatch behaviour level tool input = .resolves result) ↔
  r.Returns behaviour level tool input := by
 cases tool with
 | shell => exact executeShellTool_resolves_iff
 | task =>
  cases hta : r.hasTaskExecutor with
  | false => simp [dispatch,executeTaskTool,Returns,hta]
  | true =>
   cases hr : behaviour.execute input with
   | _ => simp [dispatch,executeTaskTool,Returns,hta,hr]
 | _ => exact ⟨fun _=>trivial,fun _=>⟨_,rfl⟩⟩

theorem accepts_ok_iff :
 (r.accepts tool rawInput : Except (_ × ToolResultEnvelope ω) _) = .ok input ↔
 r.parseToolInput tool rawInput = .ok input ∧
  (r.permission tool).allowed ∧ (tool.category = .write → r.isWriteOwner) := by
 unfold accepts
 cases r.parseToolInput tool rawInput with
 | error error => simp
 | ok parsed =>
  cases hal : (r.permission tool).allowed <;> by_cases hwr : tool.category = .write <;>
   cases r.isWriteOwner <;> simp [hal,hwr]

theorem accepts_error {asked : List Entry} (h:r.accepts tool rawInput = .error (asked,result)) :
 result.status≠.succeeded ∧
  ∀e∈asked,∃level reason,e = .permissionRequested tool level reason := by
 unfold accepts at h
 cases hi : r.parseToolInput tool rawInput with
 | error error =>
  rw [hi] at h
  cases h
  exact ⟨by simp [failedResult],by simp⟩
 | ok input =>
  simp only [hi] at h
  split_ifs at h
  · cases h
    exact ⟨by simp,fun e he=>⟨_,_,mem_singleton.mp he⟩⟩
  · cases h
    exact ⟨by simp,by simp⟩
  · cases h
    exact ⟨by simp [failedResult],by simp⟩

theorem run_resolves_iff :
 (∃result,(r.run call).2 = .resolves result) ↔ r.Ends call := by
 unfold run Ends
 cases getToolDefinition call.toolName with
 | none => simp
 | some tool =>
  cases haccepts : (r.accepts tool call.rawInput : Except (_ × ToolResultEnvelope ω) _) with
  | error refusal =>
   refine ⟨?_,fun _=>⟨refusal.2,by simp [haccepts]⟩⟩
   rintro-_ input ⟨⟩ hi hal ho
   rw [accepts_ok_iff.mpr ⟨hi,hal,ho⟩] at haccepts
   cases haccepts
  | ok input =>
   obtain ⟨hi,hal,ho⟩:=accepts_ok_iff.mp haccepts
   have hf:(∃result,(finish tool (r.dispatch call.behaviour (r.permissionLevel tool) tool
     input)).2 = .resolves result) ↔
     r.Returns call.behaviour (r.permissionLevel tool) tool input := by
    rw [←dispatch_resolves_iff]
    cases r.dispatch call.behaviour (r.permissionLevel tool) tool input <;> simp [finish]
   simp only [haccepts,hf]
   constructor
   · rintro hr _ parsed ⟨⟩ hp - -
     cases hi.symm.trans hp
     exact hr
   · exact fun hen=>hen tool input rfl hi hal ho

theorem audited_of_resolves (h:(r.run call).2 = .resolves result) :
 r.Audited call (r.run call).1 := by
 cases hto : getToolDefinition call.toolName with
 | none =>
  have hru:(r.run call).1=[.row call.toolName .failed]:=by simp [run,hto]
  rw [hru]
  exact ⟨⟨result,h⟩,by simp [hto],by simp,by simp⟩
 | some tool =>
  cases haccepts : r.accepts tool call.rawInput with
  | error refusal =>
   obtain ⟨asked,refused⟩:=refusal
   obtain ⟨hstatus,hask⟩:=accepts_error haccepts
   have hru:r.run call=(.row tool.text .called::(asked++[.row tool.text .failed]),
    .resolves refused) := by simp [run,hto,haccepts]
   have hro:asked.filter (fun e=>e matches .row ..)=[]:=by
    apply filter_eq_nil_iff.mpr
    intro e he
    obtain ⟨level,reason,rfl⟩:=hask e he
    simp
   rw [hru]
   refine ⟨⟨result,h⟩,?_,?_,?_⟩
   · rintro _ hk done hdo
     rw [hru] at hdo
     cases hdo
     cases hto.symm.trans hk
     simp [hro,hstatus]
   · intro started hme
     simp only [mem_cons,mem_append,reduceCtorEq,not_mem_nil,or_false,false_or] at hme
     obtain ⟨level,reason,he⟩:=hask _ hme
     cases he
   · intro reached hme
     simp only [mem_cons,mem_append,reduceCtorEq,not_mem_nil,or_false,false_or] at hme
     obtain ⟨level,reason,he⟩:=hask _ hme
     cases he
  | ok input =>
   obtain ⟨-,hal,ho⟩:=accepts_ok_iff.mp haccepts
   cases hdi : r.dispatch call.behaviour (r.permissionLevel tool) tool input with
   | resolves done =>
    have hru:r.run call=([.row tool.text .called,.started tool,.dispatched tool,
     .finished tool done.status done.metadata,
     .row tool.text (if done.status = .succeeded then .succeeded else .failed)],
     .resolves done) := by simp [run,hto,haccepts,hdi,finish]
    rw [hru]
    refine ⟨⟨result,h⟩,?_,?_,?_⟩
    · rintro _ hk _ hdo
      rw [hru] at hdo
      cases hdo
      cases hto.symm.trans hk
      rfl
    · intro started hme
      have hst:started=tool:=by simpa using hme
      exact ⟨done.status,done.metadata,by rw [hst]; rfl⟩
    intro reached hme hwr
    have hr:reached=tool:=by simpa using hme
    rw [hr] at hwr ⊢
    exact ⟨hal,ho hwr⟩
   | _ => simp [run,hto,haccepts,hdi,finish] at h

theorem audited_iff : r.Audited call (r.run call).1 ↔ r.Ends call := by
 rw [←run_resolves_iff]
 constructor
 · exact fun h=>h.resolves
 · rintro ⟨result,h⟩
   exact audited_of_resolves h

theorem auditTrail_complete_iff (r : ToolRunner ρ ι) (calls : List (Call ρ ι ω))
 (log : List (Nat × Entry)) (hlog : r.Interleaved calls log) :
 r.AuditTrail calls log ↔ ∀ call ∈ calls,r.Ends call := by
 constructor
 · intro h call hca
   obtain ⟨i,hi⟩:=mem_iff_getElem?.mp hca
   have ho:=h i call hi
   rw [hlog i call hi] at ho
   exact audited_iff.mp ho
 · intro h i call hi
   rw [hlog i call hi]
   exact audited_iff.mpr (h call (mem_of_getElem? hi))

end ToolRunner

/-! ## A working directory outside of the repository -/

/-- The fullstack agent with the shell allowed; every input is the shell's. -/
def shellRunner : ToolRunner ShellInput Unit where
 workingDirectory := ⟨[],nofun⟩
 repoRoot := "/repo"
 role := "implementer"
 agentId := "fullstack_agent"
 permissionOverrides := fun _ => some .allow
 hasTaskExecutor := false
 parseToolInput := fun tool input => match tool with
  | .shell => .ok input
  | _ => .error "input is invalid"
 bashGuard := fun _ _ => ⟨true,""⟩
 encode := fun text => text.toList.map fun c => UInt8.ofNat c.toNat
 decode := fun bytes => String.ofList (bytes.map fun b => Char.ofNat b.toNat)

def shellCall (cwd : Option String) : Call ShellInput Unit Unit where
 toolName := "shell"
 rawInput := { command := "true",cwd := cwd }
 behaviour := ⟨fun _ _ => .error "",fun _ => .child [.close (some 0)],fun _ => .pending⟩

theorem interleaved_single (call : Call ShellInput Unit Unit) :
 shellRunner.Interleaved [call] ((shellRunner.run call).1.map (0,·)) := by
 intro i other h
 obtain ⟨rfl,rfl⟩ : i=0 ∧ call=other := by
  cases i with
  | zero => exact ⟨rfl,Option.some.inj h⟩
  | succ i => cases h
 simp [filter_map,Function.comp_def]

theorem auditTrail_complete_iff_shell :
 shellRunner.AuditTrail [shellCall none] ((shellRunner.run (shellCall none)).1.map (0,·)) := by
 apply (shellRunner.auditTrail_complete_iff _ _ (interleaved_single _)).mpr
 intro call hca tool input hto hi
 cases mem_singleton.mp hca
 obtain rfl : .shell=tool := Option.some.inj hto
 cases hi
 intro _ _ _
 exact ⟨nofun,_,rfl,_,mem_singleton_self _,rfl⟩

/-- The call rejects, and its start has neither an end nor a last row. -/
theorem auditTrail_incomplete :
 shellRunner.run (shellCall (some "..")) =
  ([.row "shell" .called,.started .shell,.dispatched .shell],
   .rejects "Path '..' is outside the repository.") ∧
 shellRunner.Interleaved [shellCall (some "..")]
  ((shellRunner.run (shellCall (some ".."))).1.map (0,·)) ∧
 ¬ shellRunner.AuditTrail [shellCall (some "..")]
  ((shellRunner.run (shellCall (some ".."))).1.map (0,·)) := by
 have hru:shellRunner.run (shellCall (some "..")) =
  ([.row "shell" .called,.started .shell,.dispatched .shell],
   .rejects "Path '..' is outside the repository.") := rfl
 refine ⟨hru,interleaved_single _,fun h=>?_⟩
 obtain ⟨result,hr⟩:=(h 0 _ rfl).resolves
 cases hr

end DhKit.ToolRuns
