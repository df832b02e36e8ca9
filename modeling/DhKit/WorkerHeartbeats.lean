import DhKit.WorkerWaiting

/-!
# Heartbeats

While it waits, the supervisor pings a silent worker and gives up when a second ping falls due.
-/
namespace DhKit.Workers
open JsonRpc

/-- No heartbeat is missed but for a ping, which is sent after the last message. -/
structure Clocked (s : Supervisor) : Prop where
 last : s.lastMessageReceivedAt ≤ s.clock
 fresh : s.lastPingSentAt = none → s.missedHeartbeats = 0
 pinged : ∀ ping ∈ s.lastPingSentAt,s.lastMessageReceivedAt ≤ ping ∧ ping ≤ s.clock

/-- An outstanding ping is counted. The count is lost only when so many requests in a row have
failed that it wraps around. -/
structure Paced (s : Supervisor) : Prop extends Clocked s where
 counted : s.lastPingSentAt≠none → s.Missed

section
variable {s s' : Supervisor} {process : Process} {call : PendingCall} {handler : HostHandler}

theorem Clocked.later (h:Clocked s) (hcl:s.clock ≤ s'.clock)
 (hla:s'.lastMessageReceivedAt=s.lastMessageReceivedAt)
 (hp:s'.lastPingSentAt=s.lastPingSentAt)
 (hmi:s'.missedHeartbeats=s.missedHeartbeats) : Clocked s' := by
 constructor
 · rw [hla]
   exact Nat.le_trans h.last hcl
 · rw [hp,hmi]
   exact h.fresh
 rw [hp,hla]
 intro ping hm
 obtain ⟨hl,hc⟩:=h.pinged ping hm
 exact ⟨hl,Nat.le_trans hc hcl⟩

/-- What does not bear on the heartbeats may change. -/
theorem Clocked.now (h:Clocked s) (hs:(s'.clock,s'.lastMessageReceivedAt,s'.lastPingSentAt,
  s'.missedHeartbeats)=(s.clock,s.lastMessageReceivedAt,s.lastPingSentAt,s.missedHeartbeats)) :
 Clocked s' := by
 simp only [Prod.mk.injEq] at hs
 exact h.later (Nat.le_of_eq hs.1.symm) hs.2.1 hs.2.2.1 hs.2.2.2

theorem Clocked.recvMessageBefore (h:Clocked s) (deadline : Nat) :
 Clocked (s.recvMessageBefore deadline).1 := by
 unfold Supervisor.recvMessageBefore
 cases s.process with
 | none => exact h
 | some process => exact h.later (recvLoop_clock_le (Nat.lt_succ_self _)) rfl rfl rfl

theorem Clocked.tryNotify (h:Clocked s) (method : String) (params : Json) :
 Clocked (s.tryNotify method params) := by
 rcases tryNotify_cases method params with hl|⟨process,-,hwritten⟩
 · rw [hl]
   exact h
 · rw [hwritten]
   exact h.now rfl

theorem Clocked.heartbeat (h:Clocked s) (hb:s.heartbeat=some s') : Clocked s' := by
 unfold Supervisor.heartbeat at hb
 split_ifs at hb with hdu hmi
 · cases hb
   have hp:Clocked { s with
    missedHeartbeats:=s.missedHeartbeats+1,lastPingSentAt:=some s.clock } := by
    refine ⟨h.last,fun hnone=>(by cases hnone),fun ping hm=>?_⟩
    cases hm
    exact ⟨h.last,Nat.le_refl _⟩
   rcases tryNotify_cases "runtime.ping" (.object [("ts",.unsigned s.clock)]) with
    hl | ⟨process,-,hwritten⟩
   · rw [hl]
     exact hp
   · rw [hwritten]
     exact hp.now rfl
 · cases hb
   exact h

theorem clocked_received : Clocked s.received :=
 ⟨Nat.le_refl _,fun _=>rfl,fun _ hm=>by cases hm⟩

theorem Clocked.graceLoop {graceDeadline id fuel : Nat} (h:Clocked s) :
 Clocked (Supervisor.graceLoop graceDeadline id fuel s).1 := by
 induction fuel generalizing s with
 | zero => exact h
 | succ fuel ih =>
  unfold Supervisor.graceLoop
  split_ifs
  · have hr:=h.recvMessageBefore graceDeadline
    generalize s.recvMessageBefore graceDeadline=received at hr
    obtain ⟨s₁,_|message⟩:=received
    · exact hr
    dsimp only
    split_ifs
    · exact hr
    · exact ih hr
  · exact h

def Step.state : Step → Supervisor
 | .again s => s
 | .done s _ => s

theorem Clocked.dispatch (h:Clocked s) (message : Json) :
 Clocked (s.dispatch call handler message).state := by
 unfold Supervisor.dispatch
 split_ifs
 · exact h.now rfl
 · exact h.now rfl
 · cases handler s.handled message with
   | none => exact h.now rfl
   | some response =>
    dsimp only
    cases hwr : Supervisor.writeMessage { s with handled := s.handled++[message] }
     (.reply response) with
    | error text => exact h.now rfl
    | ok s₁ =>
     obtain ⟨process,-,rfl⟩:=writeMessage_eq_ok hwr
     exact h.now rfl
 · exact h
 cases messageError message with
 | some error => exact h.now rfl
 | none =>
  cases messageResult message with
  | some result => exact h
  | none => exact h.now rfl

theorem Clocked.overdue (h:Clocked s) : Clocked (s.overdue call handler).state := by
 have hn:=h.tryNotify "session.cancel" (.object [("reason",.string "timeout")])
 unfold Supervisor.overdue
 generalize s.tryNotify "session.cancel" (.object [("reason",.string "timeout")])=s₁
  at hn
 have hgr:=@Clocked.graceLoop s₁ (gracePeriod+s₁.clock) call.id (s₁.pendingMessages+1)
  hn
 dsimp only
 generalize Supervisor.graceLoop (gracePeriod+s₁.clock) call.id (s₁.pendingMessages+1) s₁ =
  found at hgr
 obtain ⟨s₂,_|message⟩:=found
 · exact hgr.now rfl
 · exact hgr.dispatch message

theorem Clocked.waitTurn (h:Clocked s) : Clocked (s.waitTurn call handler).state := by
 unfold Supervisor.waitTurn
 cases hb : s.heartbeat with
 | none =>
  -- a heartbeat is only missed for good after one that has been
  have hpi:s.lastPingSentAt≠none:=by
   intro hnone
   have hz:=h.fresh hnone
   unfold Supervisor.heartbeat at hb
   rw [hz] at hb
   split_ifs at hb with hdu hmi
   exact absurd hmi (by decide)
  exact ⟨h.last,fun hnone=>absurd hnone hpi,h.pinged⟩
 | some s₁ =>
  have hr:=(h.heartbeat hb).recvMessageBefore (min call.deadline s₁.nextPingTime)
  dsimp only
  generalize s₁.recvMessageBefore (min call.deadline s₁.nextPingTime)=received at hr
  obtain ⟨s₂,failure|message⟩:=received
  · cases failure with
    | timeout =>
     dsimp only
     split_ifs
     · exact hr.overdue
     · exact hr.later (Nat.le_succ _) rfl rfl rfl
    | heartbeatFailed | exited status | readFailed text => exact hr.now rfl
  · exact clocked_received.dispatch message

theorem Clocked.waitLoop {fuel : Nat} {outcome : Except WorkerSupervisorError Json} (h:Clocked s)
 (hr:s.waitLoop call handler fuel=some (s',outcome)) : Clocked s' := by
 induction fuel generalizing s with
 | zero => cases hr
 | succ fuel ih =>
  have htu:=@Clocked.waitTurn s call handler h
  unfold Supervisor.waitLoop at hr
  cases hst : s.waitTurn call handler with
  | again s₁ =>
   rw [hst] at hr htu
   exact ih htu hr
  | done s₁ outcome =>
   rw [hst] at hr htu
   cases hr
   exact htu

theorem Clocked.request {method : String} {params : Json} {fuel : Nat}
 (h:Clocked s) {outcome : Except WorkerSupervisorError Supervisor.WorkerRequestOutcome}
 (hr:s.sendWorkerRequestWithHostHandler method params handler fuel=some (s',outcome)) :
 Clocked s' := by
 have hwa:∀s₁ outcome,s.busy.sendRequestWait method params s.config.requestTimeout .request
  .requestTimeout handler fuel=some (s₁,outcome) → Clocked s₁ := by
  intro s₁ outcome hw
  unfold Supervisor.sendRequestWait at hw
  dsimp only at hw
  split at hw
  · cases hw
    exact h.now rfl
  · next s₂ hs =>
    obtain ⟨process,-,hs⟩:=writeMessage_eq_ok hs
    have hp:Clocked s₂:=h.now (by rw [hs]; rfl)
    exact hp.waitLoop hw
 unfold Supervisor.sendWorkerRequestWithHostHandler at hr
 split at hr
 · cases hr
 · next hw =>
   cases hr
   exact hwa _ _ hw
 · next hw =>
   cases hr
   exact (hwa _ _ hw).now rfl

end

def sessionMethods : List String := ["session.runCommand","session.runLane","session.runDirect"]

def jsonrpcSuccess (id result : Json) : Json :=
 .object [("jsonrpc",.string "2.0"),("id",id),("result",result)]

/-- The worker after its launch. A message with an id and a method is a request and is answered,
at once or, for a session, `ticks` after it came. No handler of a notification writes anything, and
there is none for `runtime.ping`. -/
def workerMain (work : Json → Json → Json) (ticks time : Nat) (message : Json) :
 List (Nat × WorkerMessage) :=
 match message.get "id",message.get "method" with
 | some id,some method =>
  let answer := jsonrpcSuccess id (work method ((message.get "params").getD .null))
  if method.asStr.any (· ∈ sessionMethods) then [(time+ticks,.payload answer)]
  else [(time,.payload answer)]
 | _,_ => []

/-- The worker is idle: nothing is under way in either direction. -/
structure WorkerIdle (work : Json → Json → Json) (ticks : Nat) (process : Process) : Prop where
 inbox : process.inbox = []
 react : process.react = workerMain work ticks
 reader : process.readerGone = false
 running : process.exitAt = none
 stdin : process.stdinBrokenAt = none

/-- The answer comes while the supervisor still listens. With no ping outstanding and `idle` ticks
since the last message the first ping falls due when `idle` exceeds the health timeout, the second
a health timeout after it; an outstanding ping leaves what is left of its own. -/
def InEarshot (s : Supervisor) (ticks : Nat) : Prop :=
 let health := s.config.healthTimeout
 match s.lastPingSentAt with
 | none =>
  let idle := s.clock-s.lastMessageReceivedAt
  if idle ≤ health then idle+ticks ≤ 2*health+1 else ticks ≤ health
 | some ping => s.clock-ping+ticks ≤ health

section
variable {s : Supervisor} {process : Process} {call : PendingCall} {handler : HostHandler}
 {time : Nat} {value : Json} {rest : List (Nat × WorkerMessage)}

theorem returns_from_pinged (hp:s.process=some process)
 (h:process.Arrives time value rest) {ping : Nat} (hpin:s.lastPingSentAt=some ping)
 (hpa:Paced s) (hn:s.clock ≤ time) (hti:time ≤ call.deadline) :
 HearsIf call handler s process time value rest (time ≤ ping+s.config.healthTimeout) := by
 obtain ⟨hl,hcl⟩:=hpa.pinged ping hpin
 have hmi:s.Missed:=hpa.counted (by simp [hpin])
 have hnex:s.nextPingTime=ping+s.config.healthTimeout:=by
  simp [Supervisor.nextPingTime,hpin]
 by_cases hdu : s.clock ≤ ping+s.config.healthTimeout
 · have hb:s.heartbeat=some s:=heartbeat_of_not_due (by
    have : ¬s.clock-ping > s.config.healthTimeout := by omega
    simp [Supervisor.pingDue,hpin,this])
   constructor
   · intro hh
     have htu:=@waitTurn_of_arrival _ _ _ call handler _ _ _ hb hp h (by omega)
     exact ⟨[],fun r=>by rw [returns_iff_turn,htu]⟩
   · intro hde
     have hsi:=@waitTurn_of_silence _ _ _ call handler _ _ _ hb hp h (by omega)
      hti
     refine returns_timeout_of_missed hsi ?_ hmi
     simp only [Supervisor.pingDue,hpin]
     refine Bool.and_eq_true_iff.mpr ⟨decide_eq_true ?_,decide_eq_true ?_⟩ <;> omega
 · have hpi:s.pingDue=true:=by
    simp only [Supervisor.pingDue,hpin]
    refine Bool.and_eq_true_iff.mpr ⟨decide_eq_true ?_,decide_eq_true ?_⟩ <;> omega
   obtain ⟨s',e,hk,hdo⟩:=
    @waitTurn_of_missed s call handler (heartbeat_of_missed hpi hmi)
   exact ⟨fun hh=>by omega,fun _=>⟨s',e,hk,fun r=>returns_iff_done hdo⟩⟩

variable {work : Json → Json → Json} {ticks : Nat} {method : String} {params : Json}

theorem quiet_of_workerMain (h:process.react=workerMain work ticks) : process.Quiet := by
 intro clock params
 rw [h]
 rfl

theorem dispatch_answer (hid:messageId value=some call.id)
 (hme:messageMethod value=none)
 (her:messageError value=none) {result : Json}
  (hr:messageResult value=some result) :
 s.dispatch call handler value = .done s (.ok result) := by
 simp [Supervisor.dispatch,hid,hme,her,hr]

/-- The state in which the waiting begins: the worker has the request. -/
def Supervisor.asked (s : Supervisor) (process : Process) (method : String) (params : Json) :
 Supervisor :=
 { s.busy with
   nextRequestId := s.nextRequestId+1
   process := some (process.written s.clock (jsonrpcRequest s.nextRequestId method params))
   written := s.written++[.request (jsonrpcRequest s.nextRequestId method params)] }

def Supervisor.sessionCall (s : Supervisor) (method : String) : PendingCall :=
 { id := s.nextRequestId,method,deadline := s.clock+s.config.requestTimeout
   failurePhase := .request,timeoutClass := .requestTimeout }

theorem sendRequestWait_busy (hp:s.process=some process)
 (hst:process.stdinBrokenAt=none) (fuel : Nat) :
 s.busy.sendRequestWait method params s.config.requestTimeout .request .requestTimeout handler
  fuel=(s.asked process method params).waitLoop (s.sessionCall method) handler fuel := by
 have hb:s.busy.process=some process:=hp
 simp only [Supervisor.sendRequestWait,Supervisor.writeMessage,hb,hst]
 rfl

theorem written_session (hi:WorkerIdle work ticks process) (hme:method∈sessionMethods)
 (clock id : Nat) :
 process.written clock (jsonrpcRequest id method params) =
  process.leaving [(clock+ticks,
   .payload (jsonrpcSuccess (.unsigned id) (work (.string method) params)))] := by
 have hr:process.react clock (jsonrpcRequest id method params)=[(clock+ticks,
  .payload (jsonrpcSuccess (.unsigned id) (work (.string method) params)))] := by
  rw [hi.react]
  exact if_pos (decide_eq_true hme)
 simp only [Process.written,hr,hi.inbox]
 rfl

theorem returns_session (hi:WorkerIdle work ticks process) (hp:Paced s)
 (hme:method∈sessionMethods)
 (hti:ticks < s.config.requestTimeout) :
 (InEarshot s ticks → ∃s',∀r,
  Returns (s.sessionCall method) handler (s.asked process method params) r ↔
   r=(s',.ok (work (.string method) params))) ∧
 (¬InEarshot s ticks → ∃s' e,e.kind=ErrorKind.timeout ∧ ∀r,
  Returns (s.sessionCall method) handler (s.asked process method params) r ↔
   r=(s',.error e)) := by
 have hask:(s.asked process method params).process=some (process.leaving
  [(s.clock+ticks,.payload (jsonrpcSuccess (.unsigned s.nextRequestId)
   (work (.string method) params)))]) :=
  congrArg some (written_session hi hme s.clock s.nextRequestId)
 have hqu:(process.leaving [(s.clock+ticks,.payload (jsonrpcSuccess
  (.unsigned s.nextRequestId) (work (.string method) params)))]).Quiet :=
  quiet_of_workerMain hi.react
 have hexi:∀e∈process.exitAt,s.clock+ticks ≤ e.1:=by
  rw [hi.running]
  intro e he
  cases he
 have htim:s.clock+ticks ≤ (s.sessionCall method).deadline:=by
  simp only [Supervisor.sessionCall]
  omega
 have hdi:∀s₁ : Supervisor,s₁.dispatch (s.sessionCall method) handler
  (jsonrpcSuccess (.unsigned s.nextRequestId) (work (.string method) params)) =
   .done s₁ (.ok (work (.string method) params)) :=
  fun s₁=>dispatch_answer rfl rfl rfl rfl
 have hl:=hp.last
 cases hpin : s.lastPingSentAt with
 | none =>
  have hf:=@returns_from_fresh (s.asked process method params) _ (s.sessionCall method)
   handler _ _ _ hask hqu ⟨rfl,hi.reader,hexi⟩ hpin (hp.fresh hpin) hl htim
  have hh:HeardBy s.config.healthTimeout s.lastMessageReceivedAt s.clock
   (s.clock+ticks) ↔ InEarshot s ticks := by
   simp only [HeardBy,InEarshot,hpin]
   split_ifs <;> omega
  rw [←hh]
  refine ⟨fun h=>?_,hf.2⟩
  obtain ⟨pings,hr⟩:=hf.1 h
  exact ⟨_,fun r=>by rw [hr r,hdi]; rfl⟩
 | some ping =>
  have hpi:=@returns_from_pinged (s.asked process method params) _ (s.sessionCall method)
   handler _ _ _ hask ⟨rfl,hi.reader,hexi⟩ ping hpin
   ⟨hp.now rfl,hp.counted⟩ (Nat.le_add_right _ _) htim
  obtain ⟨-,hcl⟩:=hp.pinged ping hpin
  have hh:s.clock+ticks ≤ ping+s.config.healthTimeout ↔ InEarshot s ticks:=by
   simp only [InEarshot,hpin]
   omega
  rw [←hh]
  refine ⟨fun h=>?_,hpi.2⟩
  obtain ⟨pings,hr⟩:=hpi.1 h
  exact ⟨_,fun r=>by rw [hr r,hdi]; rfl⟩

end

theorem sessionRequest_answered_iff (work : Json → Json → Json) (ticks : Nat) (s : Supervisor)
 (process : Process) (method : String) (params : Json) (handler : HostHandler)
 (hprocess : s.process = some process) (hidle : WorkerIdle work ticks process)
 (hpaced : Paced s) (hmethod : method ∈ sessionMethods)
 (hticks : ticks < s.config.requestTimeout) :
 ((∃ fuel s' outcome,s.sendWorkerRequestWithHostHandler method params handler fuel =
  some (s',.ok outcome) ∧ outcome.result = work (.string method) params) ∧
  ∀ fuel s' e,s.sendWorkerRequestWithHostHandler method params handler fuel =
   some (s',.error e) → e.kind≠.timeout) ↔
 InEarshot s ticks := by
 have hwa:∀fuel,s.busy.sendRequestWait method params s.config.requestTimeout .request
  .requestTimeout handler fuel=_ := sendRequestWait_busy hprocess hidle.stdin
 obtain ⟨hh,hde⟩:=@returns_session s process handler work ticks method params hidle hpaced
  hmethod hticks
 by_cases hear : InEarshot s ticks
 · obtain ⟨s',hr⟩:=hh hear
   refine ⟨fun _=>hear,fun _=>⟨?_,?_⟩⟩
   · obtain ⟨fuel,hf⟩:=(hr _).mpr rfl
     refine ⟨fuel,?_⟩
     simp only [Supervisor.sendWorkerRequestWithHostHandler,hwa,hf]
     exact ⟨_,_,rfl,rfl⟩
   · intro fuel s₁ e h
     simp only [Supervisor.sendWorkerRequestWithHostHandler,hwa] at h
     cases hl : (s.asked process method params).waitLoop (s.sessionCall method) handler fuel with
     | none => simp [hl] at h
     | some r =>
      obtain rfl := (hr r).mp ⟨fuel,hl⟩
      simp [hl] at h
 · obtain ⟨s',e,hk,hr⟩:=hde hear
   obtain ⟨fuel,hf⟩:=(hr _).mpr rfl
   refine ⟨fun h=>absurd hk (h.2 fuel s' e ?_),fun h=>absurd h hear⟩
   simp [Supervisor.sendWorkerRequestWithHostHandler,hwa,hf]

def listening (ticks : Nat) : Supervisor :=
 attending { react := workerMain (fun _ params => params) ticks }

theorem paced_listening (ticks : Nat) : Paced (listening ticks) :=
 ⟨⟨Nat.le_refl _,fun _=>rfl,fun _ hm=>by cases hm⟩,fun h=>absurd rfl h⟩

/-- A session of eight seconds is answered. -/
theorem sessionRequest_answered_iff_eight :
 ∃ fuel s' outcome,(listening 8000000000).sendWorkerRequestWithHostHandler
  "session.runCommand" .null (fun _ _ => none) fuel = some (s',.ok outcome) ∧
   outcome.result = .null :=
 ((sessionRequest_answered_iff (fun _ params=>params) 8000000000 (listening 8000000000) _
  "session.runCommand" .null (fun _ _=>none) rfl ⟨rfl,rfl,rfl,rfl,rfl⟩
  (paced_listening _) (by decide) (by decide)).mpr (by simp [InEarshot,listening,attending])).1

/-- A session of eleven seconds, well within the thirty that a request may take, is not. -/
theorem sessionRequest_unheard :
 ¬((∃ fuel s' outcome,(listening 11000000000).sendWorkerRequestWithHostHandler
  "session.runCommand" .null (fun _ _ => none) fuel = some (s',.ok outcome) ∧
   outcome.result = .null) ∧
  ∀ fuel s' e,(listening 11000000000).sendWorkerRequestWithHostHandler
   "session.runCommand" .null (fun _ _ => none) fuel = some (s',.error e) →
    e.kind≠.timeout) := by
 have hr:((listening 11000000000).sendWorkerRequestWithHostHandler "session.runCommand" .null
  (fun _ _=>none) 10).bind (fun r=>match r.2 with
   | .ok _ => none
   | .error e => some e.kind)=some .timeout := by decide +kernel
 rintro ⟨-,hk⟩
 obtain ⟨⟨s',e|_⟩,hso,he⟩:=Option.bind_eq_some_iff.mp hr
 · exact hk 10 s' e hso (Option.some.inj he)
 · cases he

def Supervisor.requestAll (s : Supervisor) (fuel : Nat)
 (requests : List (String × Json × HostHandler)) : Option Supervisor :=
 requests.foldlM (fun s request => (s.sendWorkerRequestWithHostHandler request.1 request.2.1
  request.2.2 fuel).map Prod.fst) s

theorem clocked_requestAll (s s' : Supervisor) (fuel : Nat)
 (requests : List (String × Json × HostHandler)) (hclocked : Clocked s)
 (hrun : s.requestAll fuel requests = some s') : Clocked s' := by
 induction requests generalizing s with
 | nil =>
  cases hrun
  exact hclocked
 | cons request requests ih =>
  obtain ⟨s₁,hs,hrun⟩:=Option.bind_eq_some_iff.mp hrun
  obtain ⟨⟨_,outcome⟩,hr,rfl⟩:=Option.map_eq_some_iff.mp hs
  exact ih _ (hclocked.request hr) hrun

/-- A request that is answered at once. -/
theorem clocked_requestAll_once : ∃ s',(listening 0).requestAll 1
 [("session.runCommand",.null,fun _ _ => none)] = some s' ∧ Clocked s' := by
 obtain ⟨s',hs⟩:=Option.isSome_iff_exists.mp (by decide +kernel : ((listening 0).requestAll 1
  [("session.runCommand",.null,fun _ _=>none)]).isSome)
 exact ⟨s',hs,clocked_requestAll _ _ _ _ (paced_listening 0).toClocked hs⟩

end DhKit.Workers
