import DhKit.JsonRpc

/-!
# The worker supervisor

The host talks to its worker process over a pair of pipes.
-/
namespace DhKit.Workers
open JsonRpc

/-! ## Reports and errors -/

inductive WorkerState where
 | notRunning | spawnedNotReady | ready | busy | degraded | shuttingDown | stopped
deriving DecidableEq

inductive HealthState where
 | unknown | healthy | degraded | blocked | unhealthy
deriving DecidableEq

inductive FailurePhase where
 | none | startup | request | health | shutdown
deriving DecidableEq

inductive TimeoutClass where
 | none | startupTimeout | readyTimeout | requestTimeout | healthTimeout | shutdownTimeout
deriving DecidableEq

inductive RecoveryOutcome where
 | notAttempted | attemptedSucceededDegraded | attemptedFailed | forbiddenReplayUnsafe
deriving DecidableEq

inductive CleanupOutcome where
 | graceful | forced | incomplete | notStarted
deriving DecidableEq

inductive FinalStatus where
 | cleanSuccess | recoveredDegradedSuccess | degradedSuccess | startupFailed | requestFailed
 | cancelled | cleanupIncomplete
deriving DecidableEq

inductive LaunchabilityIssue where
 | unsupportedPlatform | runtimeMissing | runtimeNotExecutable | runtimePrerequisiteMismatch
 | bundleMissing | bundleManifestMismatch | bundleCorrupt | protocolMismatch
deriving DecidableEq

structure HostLifecycleReport where
 platform : String
 workerState : WorkerState
 healthState : HealthState
 failurePhase : FailurePhase
 timeoutClass : TimeoutClass
 recoveryOutcome : RecoveryOutcome
 cleanupOutcome : CleanupOutcome
 launchabilityIssue : Option LaunchabilityIssue
 finalStatus : FinalStatus
 finalExitCode : Int
deriving DecidableEq

def deriveFinalExitCode (status : FinalStatus) (commandExitCode : Option Int) : Int :=
 match status with
 | .cleanSuccess => commandExitCode.getD 0
 | .recoveredDegradedSuccess | .degradedSuccess => 0
 | .startupFailed | .requestFailed | .cleanupIncomplete =>
  (commandExitCode.filter (· ≠ 0)).getD 1
 | .cancelled => 130

def reportFor (platform : String) (workerState : WorkerState) (healthState : HealthState)
 (failurePhase : FailurePhase) (timeoutClass : TimeoutClass)
 (recoveryOutcome : RecoveryOutcome) (cleanupOutcome : CleanupOutcome)
 (launchabilityIssue : Option LaunchabilityIssue) (finalStatus : FinalStatus)
 (commandExitCode : Option Int) : HostLifecycleReport :=
 { platform,workerState,healthState,failurePhase,timeoutClass,recoveryOutcome,
   cleanupOutcome,launchabilityIssue,finalStatus,
   finalExitCode := deriveFinalExitCode finalStatus commandExitCode }

def terminalStatusForPhase : FailurePhase → FinalStatus
 | .startup => .startupFailed
 | .request | .health => .requestFailed
 | .shutdown => .cleanupIncomplete
 | .none => .cleanSuccess

def startupFailureReport (platform : String) (issue : Option LaunchabilityIssue)
 (timeoutClass : TimeoutClass) : HostLifecycleReport :=
 reportFor platform .notRunning .blocked .startup timeoutClass .notAttempted .notStarted issue
  .startupFailed none

inductive ErrorKind where
 | launchabilityBlocked | spawnFailed | protocolMismatch | workerExited | workerProtocolError
 | requestFailed | timeout | io
deriving DecidableEq

structure WorkerSupervisorError where
 kind : ErrorKind
 message : String
 report : HostLifecycleReport
deriving DecidableEq

/-! ## The worker process -/

inductive WorkerMessage where
 | payload (value : Json)
 | readFailed (text : String)

/-- What the host sees of the worker. `inbox` is what the reader thread will have put into the
queue, with the time at which it does; `react` is what the worker sends upon a message that is
written to it at a given time. -/
structure Process where
 inbox : List (Nat × WorkerMessage) := []
 react : Nat → Json → List (Nat × WorkerMessage) := fun _ _ => []
 /-- The reader thread has ended and the queue is disconnected. -/
 readerGone : Bool := false
 exitAt : Option (Nat × String) := none
 stdinBrokenAt : Option (Nat × String) := none
 stderrExcerpt : String := ""
 killable : Bool := true

namespace Process
variable (process : Process)

def leaving (rest : List (Nat × WorkerMessage)) : Process := { process with inbox := rest }

def takeBy (limit : Nat) : Option (Nat × WorkerMessage × Process) :=
 match process.inbox with
 | [] => none
 | (time,message)::rest =>
  if time ≤ limit then
   some (time,message,match message with
    | .payload _ => process.leaving rest
    | .readFailed _ => { process.leaving rest with readerGone := true })
  else none

/-- `try_wait`: the exit status, once the child has exited. -/
def exitStatus (clock : Nat) : Option String :=
 match process.exitAt with
 | none => none
 | some (time,status) => if time ≤ clock then some status else none

def insertByTime (inbox : List (Nat × WorkerMessage)) (entry : Nat × WorkerMessage) :
 List (Nat × WorkerMessage) :=
 inbox.takeWhile (·.1 ≤ entry.1)++entry::inbox.dropWhile (·.1 ≤ entry.1)

def written (clock : Nat) (message : Json) : Process :=
 { process with inbox := (process.react clock message).foldl insertByTime process.inbox }

end Process

inductive ReceiveFailure where
 | timeout
 | heartbeatFailed
 | exited (status : Option String)
 | readFailed (text : String)
deriving DecidableEq

def pollInterval : Nat := 20000000

def postExitDrainTimeout : Nat := 100000000

def gracePeriod : Nat := 500000000

/-- The loop of `recv_message_before`. A turn that receives nothing waits for at least a tick, so
that `deadline - clock + 1` turns are enough. -/
def recvLoop (deadline : Nat) : Nat → Nat → Process → Nat × Process × Except ReceiveFailure Json
 | 0,clock,process => (clock,process,.error .timeout)
 | fuel+1,clock,process =>
  match process.takeBy clock with
  | some (_,.payload value,process) => (clock,process,.ok value)
  | some (_,.readFailed text,process) => (clock,process,.error (.readFailed text))
  | none =>
   if process.readerGone then
    (clock,process,.error (.readFailed "worker stdout reader disconnected"))
   else
    match process.exitStatus clock with
    | some status =>
     let drain := min (deadline-clock) postExitDrainTimeout
     if drain = 0 then (clock,process,.error (.exited (some status)))
     else
      match process.takeBy (clock+drain) with
      | some (time,.payload value,process) => (time,process,.ok value)
      | some (time,.readFailed _,process) =>
       (time,process,.error (.exited (some status)))
      | none => (clock+drain,process,.error (.exited (some status)))
    | none =>
     if deadline ≤ clock then (clock,process,.error .timeout)
     else
      let remaining := min (deadline-clock) pollInterval
      match process.takeBy (clock+remaining) with
      | some (time,.payload value,process) => (time,process,.ok value)
      | some (time,.readFailed text,process) =>
       (time,process,.error (.readFailed text))
      | none => recvLoop deadline fuel (clock+remaining) process

/-! ## The supervisor -/

/-- `showJson` is how values are printed in error messages. -/
structure WorkerSupervisorConfig where
 platform : String
 workspaceRoot : String
 expectedProtocolVersion : String
 readyTimeout : Nat
 requestTimeout : Nat
 healthTimeout : Nat
 shutdownTimeout : Nat
 showJson : Json → String

inductive Outgoing where
 | request (message : Json)
 | notification (message : Json)
 | reply (message : Json)

namespace Outgoing

def message : Outgoing → Json
 | request message | notification message | reply message => message

def reply? : Outgoing → Option Json
 | reply message => some message
 | _ => none

end Outgoing

/-- The fields of the supervisor, with the clock and a record of what it printed, of the worker's
calls it passed on and of the messages it wrote. -/
structure Supervisor where
 config : WorkerSupervisorConfig
 process : Option Process
 report : HostLifecycleReport
 nextRequestId : Nat
 requestPhaseStarted : Bool
 readySeen : Bool
 lastMessageReceivedAt : Nat
 lastPingSentAt : Option Nat
 missedHeartbeats : UInt8
 clock : Nat
 printed : List String := []
 handled : List Json := []
 written : List Outgoing := []

abbrev HostHandler := List Json → Json → Option Json

structure PendingCall where
 id : Nat
 method : String
 deadline : Nat
 failurePhase : FailurePhase
 timeoutClass : TimeoutClass

inductive Step where
 | again (s : Supervisor)
 | done (s : Supervisor) (outcome : Except WorkerSupervisorError Json)

def phaseText : FailurePhase → String
 | .none => "None"
 | .startup => "Startup"
 | .request => "Request"
 | .health => "Health"
 | .shutdown => "Shutdown"

namespace Supervisor
variable (s : Supervisor)

def recvMessageBefore (deadline : Nat) : Supervisor × Except ReceiveFailure Json :=
 match s.process with
 | none => (s,.error (.exited none))
 | some process =>
  let received := recvLoop deadline (deadline-s.clock+1) s.clock process
  ({ s with clock := received.1,process := some received.2.1 },received.2.2)

def writeMessage (payload : Outgoing) : Except String Supervisor :=
 let wrote (process : Process) : Supervisor :=
  { s with
    process := some (process.written s.clock payload.message)
    written := s.written++[payload] }
 match s.process with
 | none => .error "worker process is not running"
 | some process =>
  match process.stdinBrokenAt with
  | none => .ok (wrote process)
  | some (time,text) => if time ≤ s.clock then .error text else .ok (wrote process)

def ioError (failurePhase : FailurePhase) (timeoutClass : TimeoutClass) (text : String) :
 WorkerSupervisorError :=
 { kind := .io
   message := "worker protocol write failed: " ++ text
   report := reportFor s.report.platform s.report.workerState .unhealthy failurePhase timeoutClass
    s.report.recoveryOutcome s.report.cleanupOutcome s.report.launchabilityIssue
    (terminalStatusForPhase failurePhase) none }

section
variable (method : String) (params : Json) (failurePhase : FailurePhase)

def sendNotification :
 Except WorkerSupervisorError Supervisor :=
 (s.writeMessage (.notification (jsonrpcNotification method params))).mapError
  (s.ioError failurePhase .none)

def tryNotify : Supervisor :=
 (s.writeMessage (.notification (jsonrpcNotification method params))).toOption.getD s

def withWorkerStderrExcerpt (message : String) : String :=
 match s.process with
 | none => message
 | some process =>
  if process.stderrExcerpt = "" then message
  else message ++ "; worker stderr: " ++ process.stderrExcerpt

def actualFailurePhase : FailurePhase :=
 if s.requestPhaseStarted && (s.readySeen || s.report.workerState = .busy) then .request
 else failurePhase

def classify (failure : ReceiveFailure) (phase : FailurePhase) (timeoutClass : TimeoutClass) :
 ErrorKind × String × TimeoutClass :=
 match failure with
 | .timeout =>
  (.timeout,"worker response timed out during " ++ phaseText phase,timeoutClass)
 | .heartbeatFailed =>
  (.timeout,"worker missed 2 heartbeats during " ++ phaseText phase,timeoutClass)
 | .exited status =>
  (.workerExited,"worker exited before expected response: " ++
   (match status with | none => "None" | some status => "Some(" ++ status ++ ")"),.none)
 | .readFailed text => (.workerProtocolError,"worker protocol read failed: " ++ text,.none)

def classifyReceiveFailure (failure : ReceiveFailure) (failurePhase : FailurePhase)
 (timeoutClass : TimeoutClass) : Supervisor × WorkerSupervisorError :=
 let phase := s.actualFailurePhase failurePhase
 let classified := classify failure phase timeoutClass
 let report := reportFor s.report.platform s.report.workerState .unhealthy phase classified.2.2
  s.report.recoveryOutcome s.report.cleanupOutcome s.report.launchabilityIssue
  (terminalStatusForPhase phase) none
 ({ s with report },{ kind := classified.1
                      message := s.withWorkerStderrExcerpt classified.2.1
                      report })

def forceCleanup (timeoutClass : TimeoutClass) : Supervisor :=
 let outcome : CleanupOutcome := match s.process with
  | none => .incomplete
  | some process => if process.killable then .forced else .incomplete
 { s with
   process := none
   report := reportFor s.report.platform .stopped .unhealthy .shutdown timeoutClass
    s.report.recoveryOutcome outcome s.report.launchabilityIssue .cleanupIncomplete none }

/-- Neither a message nor a ping for longer than the health timeout. -/
def pingDue : Bool :=
 s.clock-s.lastMessageReceivedAt > s.config.healthTimeout &&
  match s.lastPingSentAt with
  | some lastPing => s.clock-lastPing > s.config.healthTimeout
  | none => true

/-- The check at the head of a turn: `none` when the second heartbeat is missed. The ping is a
notification, so that it carries no id to be answered to. -/
def heartbeat : Option Supervisor :=
 if s.pingDue then
  if s.missedHeartbeats+1 ≥ 2 then none
  else
   let pinged := { s with missedHeartbeats := s.missedHeartbeats+1 }.tryNotify
    "runtime.ping" (.object [("ts",.unsigned s.clock)])
   some { pinged with lastPingSentAt := some s.clock }
 else some s

def nextPingTime : Nat :=
 match s.lastPingSentAt with
 | some lastPing => lastPing+s.config.healthTimeout
 | none => s.lastMessageReceivedAt+s.config.healthTimeout

/-- The grace window: messages are dropped until one with the request's id comes. Each turn takes
a message, so that as many turns as there are messages are enough. -/
def graceLoop (graceDeadline id : Nat) : Nat → Supervisor → Supervisor × Option Json
 | 0,s => (s,none)
 | fuel+1,s =>
  if s.clock < graceDeadline then
   match s.recvMessageBefore graceDeadline with
   | (s,.ok message) =>
    if messageId message = some id then (s,some message)
    else graceLoop graceDeadline id fuel s
   | (s,.error _) => (s,none)
  else (s,none)

def pendingMessages : Nat :=
 match s.process with
 | none => 0
 | some process => process.inbox.length

def unhealthyReport : HostLifecycleReport :=
 reportFor s.report.platform s.report.workerState .unhealthy failurePhase .none
  s.report.recoveryOutcome s.report.cleanupOutcome none (terminalStatusForPhase failurePhase) none

end

def dispatch (call : PendingCall) (handler : HostHandler) (message : Json) : Step :=
 if messageMethod message = some "dh.ready" then .again { s with readySeen := true }
 else if messageMethod message = some "event.tool.outputChunk" then
  .again { s with printed := s.printed ++
   (((message.get "params").bind (·.get "chunk")).bind Json.asStr).toList }
 else if (messageId message).isSome && (messageMethod message).isSome then
  let called := { s with handled := s.handled++[message] }
  match handler s.handled message with
  | none => .again called
  | some response =>
   match called.writeMessage (.reply response) with
   | .ok s => .again s
   | .error text => .done called (.error (called.ioError call.failurePhase call.timeoutClass text))
 else if messageId message≠some call.id then .again s
 else
  match messageError message with
  | some error =>
   let report := s.unhealthyReport call.failurePhase
   .done { s with report } (.error
    { kind := .requestFailed
      message := "worker request '" ++ call.method ++ "' failed: " ++ s.config.showJson error
      report })
  | none =>
   match messageResult message with
   | some result => .done s (.ok result)
   | none =>
    let report := s.unhealthyReport call.failurePhase
    .done { s with report } (.error
     { kind := .workerProtocolError
       message := "worker response to '" ++ call.method ++
        "' did not include result or error"
       report })

def received : Supervisor :=
 { s with lastMessageReceivedAt := s.clock,missedHeartbeats := 0,lastPingSentAt := none }

def fail (call : PendingCall) (failure : ReceiveFailure) : Step :=
 let failed := s.classifyReceiveFailure failure call.failurePhase call.timeoutClass
 .done failed.1 (.error failed.2)

/-- The deadline has passed: the request is cancelled and the grace window opens. -/
def overdue (call : PendingCall) (handler : HostHandler) : Step :=
 let s := s.tryNotify "session.cancel" (.object [("reason",.string "timeout")])
 match graceLoop (gracePeriod+s.clock) call.id (s.pendingMessages+1) s with
 | (s,some message) => s.dispatch call handler message
 | (s,none) => (s.forceCleanup call.timeoutClass).fail call .timeout

def waitTurn (call : PendingCall) (handler : HostHandler) : Step :=
 match s.heartbeat with
 | none => { s with missedHeartbeats := s.missedHeartbeats+1 }.fail call .heartbeatFailed
 | some s =>
  match s.recvMessageBefore (min call.deadline s.nextPingTime) with
  | (s,.ok message) => s.received.dispatch call handler message
  | (s,.error .timeout) =>
   if call.deadline ≤ s.clock then s.overdue call handler
   else .again { s with clock := s.clock+1 }
  | (s,.error failure) => s.fail call failure

def waitLoop (call : PendingCall) (handler : HostHandler) :
 Nat → Supervisor → Option (Supervisor × Except WorkerSupervisorError Json)
 | 0,_ => none
 | fuel+1,s =>
  match s.waitTurn call handler with
  | .again s => waitLoop call handler fuel s
  | .done s outcome => some (s,outcome)

section
variable (method : String) (params : Json) (timeout : Nat) (failurePhase : FailurePhase)
 (timeoutClass : TimeoutClass) (handler : HostHandler) (fuel : Nat)

/-- The request is written, with the next number as its id, and waited for. -/
def sendRequestWait : Option (Supervisor × Except WorkerSupervisorError Json) :=
 let id := s.nextRequestId
 let s := { s with nextRequestId := id+1 }
 match s.writeMessage (.request (jsonrpcRequest id method params)) with
 | .error text => some (s,.error (s.ioError failurePhase timeoutClass text))
 | .ok s =>
  waitLoop { id,method,deadline := s.clock+timeout,failurePhase,timeoutClass } handler
   fuel s

structure WorkerRequestOutcome where
 result : Json
 report : HostLifecycleReport

def busy : Supervisor :=
 { s with
   requestPhaseStarted := true
   report := { s.report with workerState := .busy } }

def sendWorkerRequestWithHostHandler :
 Option (Supervisor × Except WorkerSupervisorError WorkerRequestOutcome) :=
 match s.busy.sendRequestWait method params s.config.requestTimeout .request .requestTimeout
  handler fuel with
 | none => none
 | some (s,.error error) => some (s,.error error)
 | some (s,.ok result) =>
  let report := reportFor s.report.platform .busy s.report.healthState .none .none
   s.report.recoveryOutcome s.report.cleanupOutcome none .cleanSuccess none
  some ({ s with report },.ok { result,report })

end

/-! ## Launching -/

def markReadySeen : Supervisor :=
 { s with
   readySeen := true
   report := reportFor s.report.platform .ready .unknown .none .none s.report.recoveryOutcome
    s.report.cleanupOutcome none .cleanSuccess none }

def startupFailure (failure : ReceiveFailure) : Supervisor × Except WorkerSupervisorError Unit :=
 let failed := s.classifyReceiveFailure failure .startup .readyTimeout
 (failed.1,.error failed.2)

/-- The loop of `wait_for_ready`; each turn takes a message. -/
def readyLoop (deadline : Nat) : Nat → Supervisor → Supervisor × Except WorkerSupervisorError Unit
 | 0,s => s.startupFailure .timeout
 | fuel+1,s =>
  match s.recvMessageBefore deadline with
  | (s,.ok message) =>
   if messageMethod message = some "dh.ready" then (s.markReadySeen,.ok ())
   else readyLoop deadline fuel s
  | (s,.error failure) => s.startupFailure failure

def waitForReady (timeout : Nat) : Supervisor × Except WorkerSupervisorError Unit :=
 readyLoop (s.clock+timeout) (s.pendingMessages+1) s

/-- The loop of `accept_queued_ready`: only what has arrived is looked at. -/
def acceptLoop : Nat → Supervisor → Supervisor × Bool
 | 0,s => (s,false)
 | fuel+1,s =>
  match s.process with
  | none => (s,false)
  | some process =>
   match process.takeBy s.clock with
   | some (_,.payload payload,process) =>
    let s := { s with process := some process }
    if messageMethod payload = some "dh.ready" then (s.markReadySeen,true)
    else acceptLoop fuel s
   | some (_,.readFailed _,process) => acceptLoop fuel { s with process := some process }
   | none => (s,false)

def acceptQueuedReady : Supervisor × Bool := acceptLoop (s.pendingMessages+1) s

def workerProtocolMatches (result : Json) (expected : String) : Bool :=
 ((result.get "protocolVersion").or (result.get "workerProtocolVersion")).bind Json.asStr =
  some expected

/-- How far the launch of the process itself gets: `spawned` with the time it took. -/
inductive Spawn where
 | blocked (report : HostLifecycleReport) (text : String)
 | failed (text : String)
 | noPipe (text : String)
 | spawned (process : Process) (ticks : Nat)

def initializeParams : Json :=
 .object [("protocolVersion",.string "1"),("topology",.string "rust_host_ts_worker"),
  ("supportBoundary",.string "knowledge_commands_first_wave"),
  ("workspaceRoot",.string s.config.workspaceRoot),("platform",.string s.config.platform),
  ("lifecycleAuthority",.string "rust")]

/-- The second half of the handshake: `dh.initialized` is sent and `dh.ready` waited for; when the
worker no longer reads, a `dh.ready` that has arrived will do. -/
def confirmReady : Supervisor × Except WorkerSupervisorError Unit :=
 match s.sendNotification "dh.initialized" (.object [("accepted",.bool true)]) .startup with
 | .ok s => s.waitForReady s.config.readyTimeout
 | .error error =>
  match s.acceptQueuedReady with
  | (s,true) => (s,.ok ())
  | (s,false) => (s,.error error)

def completeHandshake (result : Json) :
 Supervisor × Except WorkerSupervisorError HostLifecycleReport :=
 if !workerProtocolMatches result s.config.expectedProtocolVersion then
  let report := startupFailureReport s.config.platform (some .protocolMismatch) .none
  ({ s with report,process := none },.error
   { kind := .protocolMismatch
     message := "worker initialize result did not match the expected protocol version"
     report })
 else
  match s.confirmReady with
  | (s,.ok _) => (s,.ok s.report)
  | (s,.error error) => (s,.error error)

def handshake (fuel : Nat) :
 Option (Supervisor × Except WorkerSupervisorError HostLifecycleReport) :=
 match s.sendRequestWait "dh.initialize" s.initializeParams s.config.readyTimeout .startup
  .readyTimeout (fun _ _ => none) fuel with
 | none => none
 | some (s,.error error) => some (s,.error error)
 | some (s,.ok result) => some (s.completeHandshake result)

def launch (spawn : Spawn) (fuel : Nat) :
 Option (Supervisor × Except WorkerSupervisorError HostLifecycleReport) :=
 let s := { s with
  process := none,requestPhaseStarted := false,readySeen := false
  lastMessageReceivedAt := s.clock,lastPingSentAt := none,missedHeartbeats := 0 }
 let startup := startupFailureReport s.config.platform none .none
 match spawn with
 | .blocked report text => some ({ s with report },.error
  { kind := .launchabilityBlocked,message := text,report })
 | .failed text => some ({ s with report := startup },.error
  { kind := .spawnFailed,message := text,report := startup })
 | .noPipe text => some ({ s with report := startup },.error
  { kind := .io,message := text,report := startup })
 | .spawned process ticks =>
  { s with
    clock := s.clock+ticks
    process := some process
    report := reportFor s.config.platform .spawnedNotReady .unknown .none .none .notAttempted
     .notStarted none .cleanSuccess none }.handshake fuel

end Supervisor

def attending (process : Process) : Supervisor where
 config :=
  { platform := "linux",workspaceRoot := "/",expectedProtocolVersion := "1"
    readyTimeout := 5000000000,requestTimeout := 30000000000,healthTimeout := 5000000000
    shutdownTimeout := 5000000000,showJson := fun _ => "" }
 process := some process
 report := reportFor "linux" .ready .unknown .none .none .notAttempted .notStarted none
  .cleanSuccess none
 nextRequestId := 2
 requestPhaseStarted := false
 readySeen := true
 lastMessageReceivedAt := 0
 lastPingSentAt := none
 missedHeartbeats := 0
 clock := 0

end DhKit.Workers
