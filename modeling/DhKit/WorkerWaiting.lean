import DhKit.WorkerSupervisor

/-!
# Waiting for a message

What a receive with a deadline returns, and when the waiting loop hears the next message before
it counts two missed heartbeats.
-/
namespace DhKit.Workers
open JsonRpc

section
variable {process : Process} {clock deadline fuel time : Nat} {value : Json}
 {rest : List (Nat × WorkerMessage)}

theorem takeBy_of_le (hi:process.inbox=(time,.payload value)::rest) {limit : Nat}
 (h:time ≤ limit) :
 process.takeBy limit=some (time,.payload value,process.leaving rest) := by
 simp [Process.takeBy,hi,h]

theorem takeBy_cases (process : Process) (limit : Nat) :
 (∃time value rest,process.inbox=(time,.payload value)::rest ∧ time ≤ limit ∧
  process.takeBy limit=some (time,.payload value,process.leaving rest)) ∨
 (∃time text rest process',process.inbox=(time,.readFailed text)::rest ∧ time ≤ limit ∧
  process.takeBy limit=some (time,.readFailed text,process')) ∨
 (process.takeBy limit=none ∧ ∀e∈process.inbox.head?,limit < e.1) := by
 unfold Process.takeBy
 cases hi : process.inbox with
 | nil => simp
 | cons e rest =>
  obtain ⟨time,message⟩:=e
  by_cases hti : time ≤ limit
  · cases message with
    | payload value => exact .inl ⟨time,value,rest,rfl,hti,by simp [hti]⟩
    | readFailed text => exact .inr (.inl ⟨time,text,rest,_,rfl,hti,if_pos hti⟩)
  · refine .inr (.inr ⟨by simp [hti],?_⟩)
    rintro e ⟨⟩
    exact Nat.not_le.mp hti

theorem exitStatus_eq_some {status : String} (h:process.exitStatus clock=some status) :
 ∃x∈process.exitAt,x.1 ≤ clock := by
 unfold Process.exitStatus at h
 cases hexi : process.exitAt with
 | none =>
  rw [hexi] at h
  cases h
 | some x =>
  rw [hexi] at h
  dsimp only at h
  split_ifs at h with hx
  exact ⟨x,rfl,hx⟩

/-- Why a receive fails before its deadline: the reader has ended, or the child has exited in
front of the first message. -/
def Process.Broken (process : Process) (limit : Nat) : Prop :=
 process.readerGone = true ∨
 (∃ time text rest,process.inbox = (time,.readFailed text)::rest ∧ time ≤ limit) ∨
 ∃ x ∈ process.exitAt,x.1 ≤ limit ∧ ∀ e ∈ process.inbox.head?,x.1 < e.1

theorem recvLoop_cases (hf:deadline-clock < fuel) :
 (∃time value rest,process.inbox=(time,.payload value)::rest ∧
  time ≤ max clock deadline ∧ recvLoop deadline fuel clock process =
   (max clock time,process.leaving rest,.ok value)) ∨
 (recvLoop deadline fuel clock process=(max clock deadline,process,.error .timeout) ∧
  ∀e∈process.inbox.head?,max clock deadline < e.1) ∨
 ∃clock' process' failure,failure≠.timeout ∧ clock ≤ clock' ∧
  recvLoop deadline fuel clock process=(clock',process',.error failure) ∧
  process.Broken (max clock deadline) := by
 induction fuel generalizing clock with
 | zero => omega
 | succ fuel ih =>
  unfold recvLoop
  rcases takeBy_cases process clock with ⟨time,value,rest,hi,hti,hta⟩ |
   ⟨time,text,rest,process',hi,hti,hta⟩ | ⟨hta,hl⟩
  · exact .inl ⟨time,value,rest,hi,by omega,by rw [hta,Nat.max_eq_left hti]⟩
  · exact .inr (.inr ⟨_,_,.readFailed text,by simp,Nat.le_refl _,by rw [hta],
     .inr (.inl ⟨time,text,rest,hi,by omega⟩)⟩)
  rw [hta]
  by_cases hr : process.readerGone=true
  · exact .inr (.inr ⟨_,_,.readFailed _,by simp,Nat.le_refl _,if_pos hr,.inl hr⟩)
  simp only [hr,Bool.false_eq_true]
  cases hexi : process.exitStatus clock with
  | some status =>
   obtain ⟨x,hx,hgo⟩:=exitStatus_eq_some hexi
   have hb:process.Broken (max clock deadline):=
    .inr (.inr ⟨x,hx,by omega,fun e he=>Nat.lt_of_le_of_lt hgo (hl e he)⟩)
   by_cases hdra : min (deadline-clock) postExitDrainTimeout=0
   · exact .inr (.inr ⟨_,_,.exited _,by simp,Nat.le_refl _,if_pos hdra,hb⟩)
   simp only [hdra,if_false]
   rcases takeBy_cases process (clock+min (deadline-clock) postExitDrainTimeout) with
    ⟨time,value,rest,hi,hti,hdr⟩ |
    ⟨time,text,rest,process',hi,hti,hdr⟩ | ⟨hdr,-⟩
   · have hla:clock < time:=hl _ (by rw [hi]; rfl)
     exact .inl ⟨time,value,rest,hi,by omega,
      by rw [hdr,Nat.max_eq_right (by omega)]⟩
   · have hla:clock < time:=hl _ (by rw [hi]; rfl)
     exact .inr (.inr ⟨_,_,.exited _,by simp,Nat.le_of_lt hla,by rw [hdr],hb⟩)
   · exact .inr (.inr ⟨_,_,.exited _,by simp,Nat.le_add_right _ _,by rw [hdr],hb⟩)
  | none =>
   by_cases hpa : deadline ≤ clock
   · refine .inr (.inl ⟨by rw [Nat.max_eq_left hpa]; exact if_pos hpa,?_⟩)
     rw [Nat.max_eq_left hpa]
     exact hl
   have hpo:0 < min (deadline-clock) pollInterval:=by
    unfold pollInterval
    omega
   have hma:max (clock+min (deadline-clock) pollInterval) deadline =
    max clock deadline := by omega
   simp only [hpa,if_false]
   rcases takeBy_cases process (clock+min (deadline-clock) pollInterval) with
    ⟨time,value,rest,hi,hti,hp⟩ |
    ⟨time,text,rest,process',hi,hti,hp⟩ | ⟨hp,hst⟩
   · have hla:clock < time:=hl _ (by rw [hi]; rfl)
     exact .inl ⟨time,value,rest,hi,by omega,
      by rw [hp,Nat.max_eq_right (by omega)]⟩
   · have hla:clock < time:=hl _ (by rw [hi]; rfl)
     exact .inr (.inr ⟨_,_,.readFailed text,by simp,Nat.le_of_lt hla,by rw [hp],
      .inr (.inl ⟨time,text,rest,hi,by omega⟩)⟩)
   -- nothing within the poll interval: the loop goes on from there
   rw [hp,←hma]
   rcases @ih (clock+min (deadline-clock) pollInterval) (by omega) with
    ⟨time,value,rest,hi,hti,hrec⟩ | hrec | ⟨clock',process',failure,hne,hle,hrec⟩
   · have hla:clock+min (deadline-clock) pollInterval < time:=
      hst _ (by rw [hi]; rfl)
     refine .inl ⟨time,value,rest,hi,hti,?_⟩
     rw [Nat.max_eq_right (by omega)] at hrec
     rw [Nat.max_eq_right (by omega)]
     exact hrec
   · exact .inr (.inl hrec)
   · exact .inr (.inr ⟨clock',process',failure,hne,by omega,hrec⟩)

theorem recvLoop_clock_le (hf:deadline-clock < fuel) :
 clock ≤ (recvLoop deadline fuel clock process).1 := by
 rcases recvLoop_cases hf with ⟨time,_,_,-,-,hr⟩|⟨hr,-⟩ |
  ⟨clock',process',failure,-,hle,hr,-⟩
 · rw [hr]
   exact Nat.le_max_left _ _
 · rw [hr]
   exact Nat.le_max_left _ _
 · rw [hr]
   exact hle

/-- The first message of a process that runs until it comes. -/
structure Process.Arrives (process : Process) (time : Nat) (value : Json)
 (rest : List (Nat × WorkerMessage)) : Prop where
 inbox : process.inbox = (time,.payload value)::rest
 reader : process.readerGone = false
 exit : ∀ x ∈ process.exitAt,time ≤ x.1

theorem Process.Arrives.not_broken {limit : Nat} (h:process.Arrives time value rest) :
 ¬process.Broken limit := by
 rintro (hr|⟨t,text,rest',hi,-⟩|⟨x,hx,-,hb⟩)
 · rw [h.reader] at hr
   cases hr
 · rw [h.inbox] at hi
   cases hi
 · have hlt:=hb (time,.payload value) (by rw [h.inbox]; rfl)
   have hle:=h.exit x hx
   exact absurd hle (Nat.not_le.mpr hlt)

theorem Process.Arrives.recv (h:process.Arrives time value rest)
 (hf:deadline-clock < fuel) :
 (time ≤ max clock deadline → recvLoop deadline fuel clock process =
  (max clock time,process.leaving rest,.ok value)) ∧
 (max clock deadline < time → recvLoop deadline fuel clock process =
  (max clock deadline,process,.error .timeout)) := by
 rcases recvLoop_cases hf with ⟨t,v,tail,hi,hti,hr⟩|⟨hr,hl⟩ |
  ⟨_,_,_,-,-,-,hb⟩
 · rw [h.inbox] at hi
   cases hi
   exact ⟨fun _=>hr,fun hlt=>by omega⟩
 · have hlt:=hl (time,.payload value) (by rw [h.inbox]; rfl)
   exact ⟨fun hle=>absurd hle (Nat.not_le.mpr hlt),fun _=>hr⟩
 · exact absurd hb h.not_broken

end

section
variable {s s₁ : Supervisor} {payload : Outgoing}

theorem writeMessage_eq_ok (h:s.writeMessage payload = .ok s₁) :
 ∃process,s.process=some process ∧ s₁={ s with
  process := some (process.written s.clock payload.message)
  written := s.written++[payload] } := by
 unfold Supervisor.writeMessage at h
 cases hprocess : s.process with
 | none =>
  rw [hprocess] at h
  cases h
 | some process =>
  rw [hprocess] at h
  refine ⟨process,rfl,?_⟩
  cases hb : process.stdinBrokenAt with
  | none =>
   simp only [hb] at h
   cases h
   rfl
  | some broken =>
   simp only [hb] at h
   split_ifs at h
   cases h
   rfl

theorem tryNotify_cases (method : String) (params : Json) :
 s.tryNotify method params=s ∨ ∃process,s.process=some process ∧
  s.tryNotify method params={ s with
   process := some (process.written s.clock (jsonrpcNotification method params))
   written := s.written++[.notification (jsonrpcNotification method params)] } := by
 unfold Supervisor.tryNotify
 cases h : s.writeMessage (.notification (jsonrpcNotification method params)) with
 | error text => exact .inl rfl
 | ok s₁ =>
  obtain ⟨process,hprocess,rfl⟩:=writeMessage_eq_ok h
  exact .inr ⟨process,hprocess,rfl⟩

end

section
variable {s s' : Supervisor} {call : PendingCall} {handler : HostHandler}
 {outcome : Except WorkerSupervisorError Json}
 {r r' : Supervisor × Except WorkerSupervisorError Json}

def Returns (call : PendingCall) (handler : HostHandler) (s : Supervisor)
 (r : Supervisor × Except WorkerSupervisorError Json) : Prop :=
 ∃ fuel,s.waitLoop call handler fuel = some r

def Step.Resolves (call : PendingCall) (handler : HostHandler) (step : Step)
 (r : Supervisor × Except WorkerSupervisorError Json) : Prop :=
 match step with
 | .again s => Returns call handler s r
 | .done s outcome => r = (s,outcome)

theorem returns_iff_turn :
 Returns call handler s r ↔ (s.waitTurn call handler).Resolves call handler r := by
 constructor
 · rintro ⟨fuel,h⟩
   cases fuel with
   | zero => cases h
   | succ fuel =>
    unfold Supervisor.waitLoop at h
    cases htu : s.waitTurn call handler with
    | again s₁ =>
     rw [htu] at h
     exact ⟨fuel,h⟩
    | done s₁ outcome =>
     rw [htu] at h
     cases h
     rfl
 · intro h
   cases htu : s.waitTurn call handler with
   | again s₁ =>
    rw [htu] at h
    obtain ⟨fuel,h⟩:=h
    exact ⟨fuel+1,by simp only [Supervisor.waitLoop,htu,h]⟩
   | done s₁ outcome =>
    rw [htu] at h
    cases h
    exact ⟨1,by simp only [Supervisor.waitLoop,htu]⟩

theorem returns_iff_again (h:s.waitTurn call handler = .again s') :
 Returns call handler s r ↔ Returns call handler s' r := by
 rw [returns_iff_turn,h]
 rfl

theorem returns_iff_done (h:s.waitTurn call handler = .done s' outcome) :
 Returns call handler s r ↔ r=(s',outcome) := by
 rw [returns_iff_turn,h]
 rfl

end

def Process.Quiet (process : Process) : Prop :=
 ∀ clock params,process.react clock (jsonrpcNotification "runtime.ping" params) = []

/-- The state in which the first message of the queue is dealt with. -/
def Supervisor.hearing (s : Supervisor) (process : Process)
 (rest : List (Nat × WorkerMessage)) (time : Nat) (pings : List Outgoing) : Supervisor :=
 { s with
   clock := max s.clock time
   process := some (process.leaving rest)
   lastMessageReceivedAt := max s.clock time
   missedHeartbeats := 0
   lastPingSentAt := none
   written := s.written++pings }

/-- A message that arrives at `time` is heard by a supervisor that last received one at `last` and
comes to wait at `now`: one ping may go unanswered, a second one may not fall due. -/
def HeardBy (health last now time : Nat) : Prop :=
 if now-last ≤ health then time ≤ last+health+1+health else time ≤ now+health

instance (health last now time : Nat) : Decidable (HeardBy health last now time) := by
 unfold HeardBy
 infer_instance

section
variable {s s₁ : Supervisor} {process : Process} {call : PendingCall} {handler : HostHandler}
 {time : Nat} {value : Json} {rest : List (Nat × WorkerMessage)}

theorem heartbeat_of_not_due (h:s.pingDue=false) : s.heartbeat=some s := by
 simp [Supervisor.heartbeat,h]

/-- A heartbeat has been missed, and the count of them does not wrap around at the next. -/
def Supervisor.Missed (s : Supervisor) : Prop :=
 1 ≤ s.missedHeartbeats ∧ s.missedHeartbeats < 255

theorem heartbeat_of_missed (h:s.pingDue=true) (hmissed:s.Missed) : s.heartbeat=none := by
 have hle:s.missedHeartbeats+1 ≥ 2:=by
  obtain ⟨hlo,hhi⟩:=hmissed
  rw [UInt8.le_iff_toNat_le] at hlo
  rw [UInt8.lt_iff_toNat_lt] at hhi
  rw [ge_iff_le,UInt8.le_iff_toNat_le,UInt8.toNat_add]
  have h1:(1:UInt8).toNat=1:=rfl
  have h2:(2:UInt8).toNat=2:=rfl
  have h3:(255:UInt8).toNat=255:=rfl
  omega
 simp [Supervisor.heartbeat,h,hle]

theorem written_of_quiet (hquiet:process.Quiet) (clock : Nat) (params : Json) :
 process.written clock (jsonrpcNotification "runtime.ping" params)=process := by
 simp [Process.written,hquiet clock params]

theorem heartbeat_of_due (h:s.pingDue=true) (hmissed:s.missedHeartbeats=0)
 (hprocess:s.process=some process) (hquiet:process.Quiet) :
 ∃pings,s.heartbeat=some { s with
  missedHeartbeats := 1,lastPingSentAt := some s.clock,written := s.written++pings } := by
 obtain ⟨config,p,report,next,phase,ready,last,ping,missed,clock,printed,handled,
  written⟩ := s
 cases hprocess
 cases hmissed
 unfold Supervisor.heartbeat
 rw [if_pos h]
 rcases @tryNotify_cases ⟨config,some process,report,next,phase,ready,last,ping,1,clock,
  printed,handled,written⟩ "runtime.ping" (.object [("ts",.unsigned clock)]) with
  hl | ⟨p,hp,hwritten⟩
 · exact ⟨[],by simp [hl]⟩
 · cases hp
   exact ⟨_,by simp [hwritten,written_of_quiet hquiet]; rfl⟩

section
variable (hbeat : s.heartbeat = some s₁) (hprocess : s₁.process = some process)
 (h : process.Arrives time value rest)
include hbeat hprocess h

theorem waitTurn_of_arrival (hti:time ≤ max s₁.clock (min call.deadline s₁.nextPingTime)) :
 s.waitTurn call handler =
  (s₁.hearing process rest time []).dispatch call handler value := by
 have hr:=(h.recv (Nat.lt_succ_self _)).1 hti
 unfold Supervisor.waitTurn
 rw [hbeat]
 simp only [Supervisor.recvMessageBefore,hprocess] at hr ⊢
 rw [hr]
 simp [Supervisor.received,Supervisor.hearing]

theorem waitTurn_of_silence (hl:max s₁.clock s₁.nextPingTime < time) (hti:time ≤ call.deadline) :
 s.waitTurn call handler = .again { s₁ with clock := max s₁.clock s₁.nextPingTime+1 } := by
 have hmi:min call.deadline s₁.nextPingTime=s₁.nextPingTime:=by omega
 have hr:=(h.recv (Nat.lt_succ_self _)).2 hl
 unfold Supervisor.waitTurn
 rw [hbeat]
 simp only [hmi,Supervisor.recvMessageBefore,hprocess] at hr ⊢
 rw [hr]
 have hea:¬call.deadline ≤ max s₁.clock s₁.nextPingTime:=by omega
 obtain ⟨config,p,report,next,phase,ready,last,ping,missed,clock,printed,handled,
  written⟩ := s₁
 simp [hea]

end

theorem waitTurn_of_missed (hbeat:s.heartbeat=none) :
 ∃s' e,e.kind=ErrorKind.timeout ∧ s.waitTurn call handler = .done s' (.error e) := by
 unfold Supervisor.waitTurn
 rw [hbeat]
 exact ⟨_,_,rfl,rfl⟩

theorem returns_timeout_of_missed (htu:s.waitTurn call handler = .again s₁)
 (hdu:s₁.pingDue=true) (hmissed:s₁.Missed) :
 ∃s' e,e.kind=ErrorKind.timeout ∧ ∀r,Returns call handler s r ↔ r=(s',.error e) := by
 obtain ⟨s',e,hk,hdo⟩:=
  @waitTurn_of_missed s₁ call handler (heartbeat_of_missed hdu hmissed)
 exact ⟨s',e,hk,fun r=>(returns_iff_again htu).trans (returns_iff_done hdo)⟩

/-- The first message is dealt with if it is heard; if not, the wait ends with a timeout. -/
def HearsIf (call : PendingCall) (handler : HostHandler) (s : Supervisor) (process : Process)
 (time : Nat) (value : Json) (rest : List (Nat × WorkerMessage)) (heard : Prop) : Prop :=
 (heard → ∃ pings,∀ r,Returns call handler s r ↔
  ((s.hearing process rest time pings).dispatch call handler value).Resolves call handler r) ∧
 (¬heard →
  ∃ s' e,e.kind = ErrorKind.timeout ∧ ∀ r,Returns call handler s r ↔ r = (s',.error e))

section
variable (hprocess : s.process = some process) (hquiet : process.Quiet)
 (h : process.Arrives time value rest) (hping : s.lastPingSentAt = none)
 (hmissed : s.missedHeartbeats = 0)
include hprocess hquiet h hping hmissed

theorem returns_after_ping (hdu:s.config.healthTimeout < s.clock-s.lastMessageReceivedAt)
 (hti:time ≤ call.deadline) :
 HearsIf call handler s process time value rest (time ≤ s.clock+s.config.healthTimeout) := by
 have hp:s.pingDue=true:=by simp [Supervisor.pingDue,hping,hdu]
 obtain ⟨pings,hbeat⟩:=heartbeat_of_due hp hmissed hprocess hquiet
 constructor
 · intro hh
   refine ⟨pings,fun r=>?_⟩
   rw [returns_iff_turn,waitTurn_of_arrival hbeat hprocess h
    (by simp only [Supervisor.nextPingTime]; omega)]
   simp [Supervisor.hearing]
 · intro hde
   have hsi:=@waitTurn_of_silence _ _ _ call handler _ _ _ hbeat hprocess h
    (by simp only [Supervisor.nextPingTime]; omega) hti
   refine returns_timeout_of_missed hsi ?_ ?_
   · refine Bool.and_eq_true_iff.mpr ⟨decide_eq_true ?_,decide_eq_true ?_⟩ <;>
     · simp only [Supervisor.nextPingTime]
       omega
   · exact (by decide : (1:UInt8) ≤ 1 ∧ (1:UInt8) < 255)

theorem returns_from_fresh (hl:s.lastMessageReceivedAt ≤ s.clock) (hti:time ≤ call.deadline) :
 HearsIf call handler s process time value rest
  (HeardBy s.config.healthTimeout s.lastMessageReceivedAt s.clock time) := by
 unfold HeardBy
 by_cases hdu : s.clock-s.lastMessageReceivedAt ≤ s.config.healthTimeout
 swap
 · rw [if_neg hdu]
   exact returns_after_ping hprocess hquiet h hping hmissed (by omega) hti
 rw [if_pos hdu]
 have hbeat:s.heartbeat=some s:=
  heartbeat_of_not_due (by simp [Supervisor.pingDue,Nat.not_lt.mpr hdu])
 have hn:s.nextPingTime=s.lastMessageReceivedAt+s.config.healthTimeout:=by
  simp [Supervisor.nextPingTime,hping]
 by_cases hso : time ≤ s.lastMessageReceivedAt+s.config.healthTimeout
 · have htu:=@waitTurn_of_arrival _ _ _ call handler _ _ _ hbeat hprocess h (by omega)
   refine ⟨fun _=>⟨[],fun r=>by rw [returns_iff_turn,htu]⟩,fun hla=>?_⟩
   omega
 · -- the first ping falls due, a tick after the health timeout
   have hsi:=@waitTurn_of_silence _ _ _ call handler _ _ _ hbeat hprocess h (by omega) hti
   have hcl:max s.clock s.nextPingTime+1 =
    s.lastMessageReceivedAt+s.config.healthTimeout+1 := by omega
   rw [hcl] at hsi
   have hping:=@returns_after_ping { s with
    clock := s.lastMessageReceivedAt+s.config.healthTimeout+1 } _ call handler _ _ _
    hprocess hquiet h hping hmissed (by dsimp only; omega) hti
   simp only [HearsIf,returns_iff_again hsi]
   refine ⟨fun hh=>?_,hping.2⟩
   obtain ⟨pings,hr⟩:=hping.1 hh
   refine ⟨pings,fun r=>(hr r).trans ?_⟩
   have hma:max (s.lastMessageReceivedAt+s.config.healthTimeout+1) time =
    max s.clock time := by omega
   simp [Supervisor.hearing,hma]

end

end

end DhKit.Workers
