import DhKit.WorkerCalls

/-!
# The launch of the worker

A launch is complete when the worker has answered `dh.initialize` and has sent `dh.ready`.
-/
namespace DhKit.Workers
open JsonRpc List

section
variable {s : Supervisor} {process : Process} {call : PendingCall} {handler : HostHandler}
 {emitted : List (Nat × Json)}

theorem process_of_dispatch_again {s₁ : Supervisor} {value : Json}
 (hprocess:s.process=some process) (hsc:process.Scripted)
 (h:s.dispatch call handler value = .again s₁) : s₁.process=some process := by
 rcases @dispatch_cases handler call s value process hprocess hsc with
  ⟨s₂,heq,-,hp,-⟩ | ⟨result,heq,-⟩ | ⟨s₂,e,heq⟩
 · rw [heq] at h
   cases h
   exact hp
 · rw [heq] at h
   cases h
 · rw [heq] at h
   cases h

theorem exists_returns (hprocess:s.process=some process) (hem:process.Emits emitted) :
 ∃r,Returns call handler s r := by
 induction hn : emitted.length using Nat.strongRecOn generalizing s process emitted with
 | _ n ihMessages =>
  induction ht : call.deadline-s.clock using Nat.strongRecOn generalizing s process with
  | _ t ihTime =>
   have htu:=@waitTurn_turnOf s process call handler emitted hprocess hem
   cases hst : s.waitTurn call handler with
   | done s₁ outcome => exact ⟨(s₁,outcome),(returns_iff_done hst).mpr rfl⟩
   | again s₁ =>
    simp only [returns_iff_again hst]
    rw [hst] at htu
    generalize hs : Step.again s₁=step at htu
    cases htu with
    | heard time value rest s₂ p₂ hsp _ hp hem' _ _ =>
     have hp₁:=process_of_dispatch_again hp hem'.scripted hs.symm
     exact ihMessages rest.length (by rw [←hn,hsp]; simp) hp₁ hem' rfl
    | spun s₂ p₂ _ hp hem' hl hea _ =>
     cases hs
     exact ihTime (call.deadline-s₁.clock) (by omega) hp hem' rfl
    | graced dropped time value rest s₂ p₂ hsp _ _ _ _ hp hem' _ =>
     have hp₁:=process_of_dispatch_again hp hem'.scripted hs.symm
     exact ihMessages rest.length
      (by rw [←hn,hsp,length_append,length_cons]; omega) hp₁ hem' rfl
    | failed s₂ e => cases hs

end

def IsNotification (message : Json) : Prop :=
 message.get "id" = none ∧ (messageMethod message).isSome = true

def IsReady (message : Json) : Prop :=
 IsNotification message ∧ messageMethod message = some "dh.ready"

def IsInitialized (id : Nat) (expected : String) (message : Json) : Prop :=
 IsAnswer id message ∧ messageError message = none ∧
  ∃ result,messageResult message = some result ∧
   Supervisor.workerProtocolMatches result expected = true

def HeardAll (health : Nat) : Nat → Nat → List Nat → Prop
 | _,_,[] => True
 | last,now,time::rest =>
  HeardBy health last now time ∧ HeardAll health (max now time) (max now time) rest

/-- A supervisor that listens with no ping outstanding, at `clock`, after a message at `last`. -/
structure Attentive (s₀ s : Supervisor) (process : Process) (last clock : Nat) : Prop where
 config : s.config = s₀.config
 report : s.report = s₀.report
 process : s.process = some process
 last : s.lastMessageReceivedAt = last
 clock : s.clock = clock
 ping : s.lastPingSentAt = none
 missed : s.missedHeartbeats = 0

section
variable {s₀ s : Supervisor} {process : Process} {call : PendingCall} {handler : HostHandler}
 {last clock time : Nat} {value : Json} {rest : List (Nat × WorkerMessage)}

theorem messageId_of_notification (h:IsNotification value) : messageId value=none := by
 simp [messageId,h.1]

theorem not_isAnswer_of_notification {id : Nat} (h:IsNotification value) :
 ¬IsAnswer id value := fun ha=>by
 have := h.2
 simp [ha.2] at this

theorem Attentive.notification (h:Attentive s₀ s process last clock)
 (hvalue:IsNotification value) :
 ∃s₁,s.dispatch call handler value = .again s₁ ∧ Attentive s₀ s₁ process last clock := by
 obtain ⟨hco,hr,hprocess,hl,hcl,hp,hmi⟩:=h
 unfold Supervisor.dispatch
 rw [messageId_of_notification hvalue]
 split_ifs with hre hch hca hid
 · exact ⟨_,rfl,hco,hr,hprocess,hl,hcl,hp,hmi⟩
 · exact ⟨_,rfl,hco,hr,hprocess,hl,hcl,hp,hmi⟩
 · exact absurd hca (by simp)
 · exact ⟨_,rfl,hco,hr,hprocess,hl,hcl,hp,hmi⟩
 · exact absurd hid (by simp)

theorem Attentive.hear (h:Attentive s₀ s process last clock)
 (hsc:process.Scripted) (har:process.Arrives time value rest)
 (hl:last ≤ clock) (hti:time ≤ call.deadline) :
 (HeardBy s₀.config.healthTimeout last clock time →
  ∃s₁,Attentive s₀ s₁ (process.leaving rest) (max clock time) (max clock time) ∧ ∀r,
   Returns call handler s r ↔ (s₁.dispatch call handler value).Resolves call handler r) ∧
 (¬HeardBy s₀.config.healthTimeout last clock time →
  ∃s' e,∀r,Returns call handler s r ↔ r=(s',.error e)) := by
 obtain ⟨hco,hre,hprocess,rfl,rfl,hp,hmi⟩:=h
 have hqu:process.Quiet:=fun clock params=>by rw [hsc]
 have hf:=@returns_from_fresh s process call handler time value rest hprocess hqu har
  hp hmi hl hti
 rw [hco] at hf
 refine ⟨fun hh=>?_,fun hde=>?_⟩
 · obtain ⟨pings,hr⟩:=hf.1 hh
   exact ⟨s.hearing process rest time pings,⟨hco,hre,rfl,rfl,rfl,rfl,rfl⟩,hr⟩
 · obtain ⟨s',e,-,hr⟩:=hf.2 hde
   exact ⟨s',e,hr⟩

theorem Attentive.answer {front : List (Nat × Json)} {tail : List (Nat × WorkerMessage)}
 {result : Json} (h:Attentive s₀ s process last clock) (hsc:process.Scripted)
 (hi:process.inbox=queued front++(time,.payload value)::tail)
 (hf:∀e∈front,IsNotification e.2) (hvalue:IsAnswer call.id value)
 (her:messageError value=none) (hres:messageResult value=some result)
 (hr:process.readerGone=false) (ho:∀e∈front,e.1 ≤ time)
 (hexi:∀x∈process.exitAt,time ≤ x.1) (hl:last ≤ clock)
 (hti:time ≤ call.deadline) :
 (HeardAll s₀.config.healthTimeout last clock (front.map Prod.fst++[time]) →
  ∃s₁,Attentive s₀ s₁ (process.leaving tail) (max clock time) (max clock time) ∧
   ∀r,Returns call handler s r ↔ r=(s₁,.ok result)) ∧
 (¬HeardAll s₀.config.healthTimeout last clock (front.map Prod.fst++[time]) →
  ∃s' e,∀r,Returns call handler s r ↔ r=(s',.error e)) := by
 induction front generalizing s process last clock with
 | nil =>
  obtain ⟨hhe,hde⟩:=@Attentive.hear _ _ _ call handler _ _ _ _ _ h hsc
   ⟨hi,hr,hexi⟩ hl hti
  simp only [map_nil,nil_append,HeardAll,and_true]
  refine ⟨fun hh=>?_,hde⟩
  obtain ⟨s₁,hs₁,hre⟩:=hhe hh
  refine ⟨s₁,hs₁,fun r=>(hre r).trans ?_⟩
  have hdi:s₁.dispatch call handler value = .done s₁ (.ok result):=by
   simp [Supervisor.dispatch,hvalue.1,hvalue.2,her,hres]
  rw [hdi]
  rfl
 | cons e front ih =>
  have hle:e.1 ≤ time:=ho e mem_cons_self
  obtain ⟨hhe,hde⟩:=@Attentive.hear _ _ _ call handler _ _ _ _ _ h hsc
   ⟨hi,hr,fun x hx=>Nat.le_trans hle (hexi x hx)⟩ hl (Nat.le_trans hle hti)
  simp only [map_cons,cons_append,HeardAll]
  by_cases hh : HeardBy s₀.config.healthTimeout last clock e.1
  swap
  · exact ⟨fun hal=>absurd hal.1 hh,fun _=>hde hh⟩
  obtain ⟨s₁,hs₁,hre⟩:=hhe hh
  obtain ⟨s₂,hdi,hs₂⟩:=@Attentive.notification _ _ _ call handler _ _ _ hs₁
   (hf e mem_cons_self)
  have hn:=ih hs₂ hsc rfl (fun e' he'=>hf e' (mem_cons_of_mem _ he'))
   hr (fun e' he'=>ho e' (mem_cons_of_mem _ he')) hexi (Nat.le_refl _)
  have hma:max (max clock e.1) time=max clock time:=by omega
  rw [hma] at hn
  have hsa:∀r,Returns call handler s r ↔ Returns call handler s₂ r:=fun r=>by
   rw [hre r,hdi]
   rfl
  simp only [hh,true_and,hsa]
  exact hn

end

def ReadySent (emitted : List (Nat × Json)) (limit : Nat) : Prop :=
 ∃ e ∈ emitted,messageMethod e.2 = some "dh.ready" ∧ e.1 ≤ limit

section
variable {s s₁ : Supervisor} {process : Process} {rest : List (Nat × Json)}
 {ending : List (Nat × WorkerMessage)} {fuel : Nat}

theorem ReadySent.head {e : Nat × Json} {limit : Nat} (h:ReadySent (e::rest) limit)
 (hf:∀e'∈rest,e.1 ≤ e'.1) :
 e.1 ≤ limit ∧ (messageMethod e.2 ≠ some "dh.ready" → ReadySent rest limit) := by
 obtain ⟨e',he',hm,ht⟩:=h
 rcases mem_cons.mp he' with rfl|he'
 · exact ⟨ht,fun hme=>absurd hm hme⟩
 · exact ⟨Nat.le_trans (hf e' he') ht,fun _=>⟨e',he',hm,ht⟩⟩

section
variable (hprocess : s.process = some process) {deadline : Nat} {s' : Supervisor}
include hprocess

theorem readyLoop_of_ready (hi:process.inbox=queued rest++ending) (hr:process.readerGone=false)
 (hexi:∀x∈process.exitAt,∀e∈rest,e.1 ≤ x.1)
 (hso:rest.Pairwise fun a b=>a.1 ≤ b.1) (hfu:rest.length < fuel)
 (hre:ReadySent rest (max s.clock deadline)) :
 ∃s',Supervisor.readyLoop deadline fuel s=(s',.ok ()) ∧ s'.report.workerState = .ready := by
 induction fuel generalizing s process rest with
 | zero => omega
 | succ fuel ih =>
  cases rest with
  | nil =>
   obtain ⟨e,he,-⟩:=hre
   cases he
  | cons e rest =>
   obtain ⟨hf,hso⟩:=pairwise_cons.mp hso
   obtain ⟨hti,hl⟩:=hre.head hf
   have hrecv:s.recvMessageBefore deadline=({ s with
    clock := max s.clock e.1,process := some (process.leaving (queued rest++ending)) },
    .ok e.2) := by
    have har:process.Arrives e.1 e.2 (queued rest++ending):=
     ⟨hi,hr,fun x hx=>hexi x hx e mem_cons_self⟩
    simp [Supervisor.recvMessageBefore,hprocess,(har.recv (Nat.lt_succ_self _)).1 hti]
   unfold Supervisor.readyLoop
   rw [hrecv]
   dsimp only
   split_ifs with hme
   · exact ⟨_,rfl,rfl⟩
   refine ih rfl rfl hr (fun x hx e' he'=>hexi x hx e' (mem_cons_of_mem _ he'))
    hso (by simpa using hfu) ?_
   obtain ⟨e',he',hm,ht⟩:=hl hme
   exact ⟨e',he',hm,by dsimp only; omega⟩

theorem ready_of_readyLoop (hem:process.Emits rest)
 (h:Supervisor.readyLoop deadline fuel s=(s',.ok ())) :
 ReadySent rest (max s.clock deadline) := by
 induction fuel generalizing s process rest with
 | zero => cases h
 | succ fuel ih =>
  unfold Supervisor.readyLoop at h
  rcases recvMessageBefore_cases hprocess deadline with
   ⟨time,value,tail,s₂,hi,hti,hr,-,hp,hcl⟩ | ⟨s₂,hr,-⟩ |
   ⟨s₂,failure,-,hr⟩
  · obtain ⟨later,rfl,hl⟩:=hem.take hi
    simp only [hr] at h
    split_ifs at h with hme
    · exact ⟨(time,value),mem_cons_self,hme,hti⟩
    · obtain ⟨e,he,hm,ht⟩:=ih hp hl h
      exact ⟨e,mem_cons_of_mem _ he,hm,by omega⟩
  · simp only [hr] at h
    cases h
  · simp only [hr] at h
    cases h

theorem acceptLoop_of_ready (hi:process.inbox=queued rest++ending)
 (hso:rest.Pairwise fun a b=>a.1 ≤ b.1) (hfu:rest.length < fuel)
 (hr:ReadySent rest s.clock) :
 ∃s',Supervisor.acceptLoop fuel s=(s',true) ∧ s'.report.workerState = .ready := by
 induction fuel generalizing s process rest with
 | zero => omega
 | succ fuel ih =>
  cases rest with
  | nil =>
   obtain ⟨e,he,-⟩:=hr
   cases he
  | cons e rest =>
   obtain ⟨hf,hso⟩:=pairwise_cons.mp hso
   obtain ⟨hti,hl⟩:=hr.head hf
   unfold Supervisor.acceptLoop
   rw [hprocess]
   simp only [takeBy_of_le hi hti]
   split_ifs with hme
   · exact ⟨_,rfl,rfl⟩
   · exact ih rfl rfl hso (by simpa using hfu) (hl hme)

theorem ready_of_acceptLoop (h:Supervisor.acceptLoop fuel s=(s',true)) :
 ∃time value,(time,.payload value)∈process.inbox ∧
  messageMethod value=some "dh.ready" ∧ time ≤ s.clock := by
 induction fuel generalizing s process with
 | zero => cases h
 | succ fuel ih =>
  unfold Supervisor.acceptLoop at h
  rw [hprocess] at h
  unfold Process.takeBy at h
  cases hi : process.inbox with
  | nil =>
   simp only [hi] at h
   cases h
  | cons e rest =>
   obtain ⟨time,message⟩:=e
   by_cases hti : time ≤ s.clock
   swap
   · simp only [hi,hti] at h
     cases h
   simp only [hi,hti,if_true] at h
   cases message with
   | payload value =>
    dsimp only at h
    split_ifs at h with hme
    · exact ⟨time,value,mem_cons_self,hme,hti⟩
    · obtain ⟨time',value',hmem,hm,ht⟩:=ih rfl h
      exact ⟨time',value',mem_cons_of_mem _ hmem,hm,ht⟩
   | readFailed text =>
    obtain ⟨time',value',hmem,hm,ht⟩:=ih rfl h
    exact ⟨time',value',mem_cons_of_mem _ hmem,hm,ht⟩

end

theorem mem_of_queued (hem:process.Emits rest) {time : Nat} {value : Json}
 (h:(time,.payload value)∈process.inbox) : (time,value)∈rest := by
 obtain ⟨ending,hi,hen⟩:=hem.inbox
 rw [hi] at h
 rcases mem_append.mp h with h|h
 · obtain ⟨e,he,heq⟩:=mem_map.mp h
   cases heq
   exact he
 · obtain ⟨text,htext⟩:=hen _ h
   cases htext

end

def Process.StdinOpen (process : Process) (clock : Nat) : Prop :=
 ∀ b ∈ process.stdinBrokenAt,clock < b.1

instance (process : Process) (clock : Nat) : Decidable (process.StdinOpen clock) := by
 unfold Process.StdinOpen
 infer_instance

/-- Until when a `dh.ready` is waited for after an answer heard at `clock`. -/
def readyBy (process : Process) (timeout clock : Nat) : Nat :=
 if process.StdinOpen clock then clock+timeout else clock

section
variable {s s' : Supervisor} {process : Process} {rest : List (Nat × Json)} {payload : Outgoing}

section
variable (hprocess : s.process = some process)
include hprocess

variable {method : String} {params : Json} {phase : FailurePhase}

theorem writeMessage_of_open (hsc:process.Scripted) (ho:process.StdinOpen s.clock) :
 s.writeMessage payload = .ok { s with written := s.written++[payload] } := by
 unfold Supervisor.writeMessage
 rw [hprocess]
 simp only [written_of_scripted hsc]
 cases hb : process.stdinBrokenAt with
 | none => rfl
 | some b =>
  have : ¬b.1 ≤ s.clock := Nat.not_le.mpr (ho b hb)
  simp [this]

theorem writeMessage_of_broken (hbr:¬process.StdinOpen s.clock) :
 ∃text,s.writeMessage payload = .error text := by
 unfold Supervisor.writeMessage
 rw [hprocess]
 unfold Process.StdinOpen at hbr
 cases hb : process.stdinBrokenAt with
 | none =>
  rw [hb] at hbr
  exact absurd (fun b hb=>by cases hb) hbr
 | some b =>
  have : b.1 ≤ s.clock := by
   by_contra hlt
   rw [hb] at hbr
   exact hbr fun b' hb'=>by cases hb'; exact Nat.not_le.mp hlt
  exact ⟨b.2,by simp only [hb,this,if_true]⟩

theorem sendNotification_of_open (hsc:process.Scripted)
 (ho:process.StdinOpen s.clock) :
 ∃s₁,s.sendNotification method params phase = .ok s₁ ∧ s₁.process=some process ∧
  s₁.clock=s.clock ∧ s₁.config=s.config := by
 unfold Supervisor.sendNotification
 rw [writeMessage_of_open hprocess hsc ho]
 exact ⟨_,rfl,hprocess,rfl,rfl⟩

theorem sendNotification_of_broken (hb:¬process.StdinOpen s.clock) :
 ∃e,s.sendNotification method params phase = .error e := by
 obtain ⟨text,htext⟩:=@writeMessage_of_broken s process
  (.notification (jsonrpcNotification method params)) hprocess hb
 unfold Supervisor.sendNotification
 rw [htext]
 exact ⟨_,rfl⟩

theorem length_le_pendingMessages (hem:process.Emits rest) : rest.length ≤ s.pendingMessages := by
 obtain ⟨ending,hi,-⟩:=hem.inbox
 simp only [Supervisor.pendingMessages,hprocess,hi,length_append,queued,length_map]
 exact Nat.le_add_right _ _

theorem ready_of_confirmReady (hem:process.Emits rest) (h:s.confirmReady=(s',.ok ())) :
 ReadySent rest (readyBy process s.config.readyTimeout s.clock) := by
 unfold Supervisor.confirmReady at h
 unfold readyBy
 by_cases ho : process.StdinOpen s.clock
 · obtain ⟨s₁,hse,hp,hcl,hco⟩:=
    sendNotification_of_open hprocess hem.scripted ho
   rw [hse] at h
   obtain ⟨e,he,hme,hti⟩:=ready_of_readyLoop hp hem h
   rw [hcl,hco] at hti
   rw [if_pos ho]
   exact ⟨e,he,hme,by omega⟩
 obtain ⟨error,hse⟩:=sendNotification_of_broken hprocess ho
 rw [hse] at h
 unfold Supervisor.acceptQueuedReady at h
 rw [if_neg ho]
 generalize hac : Supervisor.acceptLoop (s.pendingMessages+1) s=result at h
 obtain ⟨s₁,accepted⟩:=result
 cases accepted with
 | false => cases h
 | true =>
  obtain ⟨time,value,hmem,hme,hti⟩:=ready_of_acceptLoop hprocess hac
  exact ⟨(time,value),mem_of_queued hem hmem,hme,hti⟩

theorem confirmReady_of_ready (hem:process.Emits rest)
 (hre:process.readerGone=false) (hexi:∀x∈process.exitAt,∀e∈rest,e.1 ≤ x.1)
 (hr:ReadySent rest (readyBy process s.config.readyTimeout s.clock)) :
 ∃s',s.confirmReady=(s',.ok ()) ∧ s'.report.workerState = .ready := by
 obtain ⟨ending,hi,-⟩:=hem.inbox
 unfold Supervisor.confirmReady
 unfold readyBy at hr
 by_cases ho : process.StdinOpen s.clock
 · obtain ⟨s₁,hse,hp,hcl,hco⟩:=
    sendNotification_of_open hprocess hem.scripted ho
   rw [hse]
   rw [if_pos ho,←hcl,←hco] at hr
   obtain ⟨e,he,hme,hti⟩:=hr
   exact readyLoop_of_ready hp hi hre hexi hem.sorted
    (Nat.lt_succ_of_le (length_le_pendingMessages hp hem)) ⟨e,he,hme,by omega⟩
 obtain ⟨error,hse⟩:=sendNotification_of_broken hprocess ho
 rw [if_neg ho] at hr
 obtain ⟨s',hl,hst⟩:=acceptLoop_of_ready hprocess hi hem.sorted
  (Nat.lt_succ_of_le (length_le_pendingMessages hprocess hem)) hr
 refine ⟨s',?_,hst⟩
 rw [hse]
 unfold Supervisor.acceptQueuedReady
 rw [hl]

end

end

def initializeCall (s : Supervisor) (ticks : Nat) : PendingCall where
 id := s.nextRequestId
 method := "dh.initialize"
 deadline := s.clock+ticks+s.config.readyTimeout
 failurePhase := .startup
 timeoutClass := .readyTimeout

def concludeLaunch : Supervisor × Except WorkerSupervisorError Json →
 Supervisor × Except WorkerSupervisorError HostLifecycleReport
 | (s,.ok result) => s.completeHandshake result
 | (s,.error e) => (s,.error e)

section
variable (s : Supervisor) (process : Process) (ticks : Nat)

def LaunchReturns (r : Supervisor × Except WorkerSupervisorError HostLifecycleReport) : Prop :=
 ∃ fuel,s.launch (.spawned process ticks) fuel = some r

def LaunchReady : Prop :=
 ∃ s' report,LaunchReturns s process ticks (s',.ok report) ∧ report.workerState = .ready

def LaunchFails : Prop :=
 ∃ s' e,LaunchReturns s process ticks (s',.error e)

end

section
variable {s : Supervisor} {process : Process} {ticks : Nat} {emitted : List (Nat × Json)}
 {e : Nat × Json}

def Supervisor.initializing (s : Supervisor) : Supervisor :=
 { s with
   nextRequestId := s.nextRequestId+1
   written := s.written ++
    [.request (jsonrpcRequest s.nextRequestId "dh.initialize" s.initializeParams)] }

theorem handshake_eq (hprocess:s.process=some process) (hsc:process.Scripted)
 (ho:process.StdinOpen s.clock) (fuel : Nat) :
 s.handshake fuel =
  (s.initializing.waitLoop (initializeCall s 0) (fun _ _=>none) fuel).map concludeLaunch := by
 have hwr:=@writeMessage_of_open { s with nextRequestId := s.nextRequestId+1 } process
  (.request (jsonrpcRequest s.nextRequestId "dh.initialize" s.initializeParams))
  hprocess hsc ho
 have hask:s.sendRequestWait "dh.initialize" s.initializeParams s.config.readyTimeout .startup
  .readyTimeout (fun _ _=>none) fuel =
  s.initializing.waitLoop (initializeCall s 0) (fun _ _=>none) fuel := by
  unfold Supervisor.sendRequestWait
  dsimp only
  rw [hwr]
  rfl
 unfold Supervisor.handshake
 rw [hask]
 match s.initializing.waitLoop (initializeCall s 0) (fun _ _=>none) fuel with
 | none => rfl
 | some (_,.error _) => rfl
 | some (_,.ok _) => rfl

def Supervisor.launching (s : Supervisor) (process : Process) (ticks : Nat) : Supervisor :=
 { s with
   clock := s.clock+ticks,process := some process
   requestPhaseStarted := false,readySeen := false
   lastMessageReceivedAt := s.clock,lastPingSentAt := none,missedHeartbeats := 0
   report := reportFor s.config.platform .spawnedNotReady .unknown .none .none .notAttempted
    .notStarted none .cleanSuccess none : Supervisor }.initializing

theorem launching_attentive (s : Supervisor) (process : Process) (ticks : Nat) :
 Attentive (s.launching process ticks) (s.launching process ticks) process s.clock
  (s.clock+ticks) :=
 ⟨rfl,rfl,rfl,rfl,rfl,rfl,rfl⟩

theorem launchReturns_iff (hsc:process.Scripted)
 (ho:process.StdinOpen (s.clock+ticks))
 (r : Supervisor × Except WorkerSupervisorError HostLifecycleReport) :
 LaunchReturns s process ticks r ↔ ∃r₁,Returns (initializeCall s ticks) (fun _ _=>none)
  (s.launching process ticks) r₁ ∧ concludeLaunch r₁=r := by
 have hl:∀fuel,s.launch (.spawned process ticks) fuel =
  ((s.launching process ticks).waitLoop (initializeCall s ticks) (fun _ _=>none) fuel).map
   concludeLaunch := fun fuel=>handshake_eq rfl hsc ho fuel
 simp only [LaunchReturns,hl,Option.map_eq_some_iff]
 exact exists_comm.trans (exists_congr fun r₁=>exists_and_right)

theorem completeHandshake_cases (s : Supervisor) (result : Json) :
 (∃s',s.confirmReady=(s',.ok ()) ∧ s.completeHandshake result=(s',.ok s'.report)) ∨
 ∃s' e,s.completeHandshake result=(s',.error e) := by
 unfold Supervisor.completeHandshake
 split_ifs
 · exact .inr ⟨_,_,rfl⟩
 generalize s.confirmReady=confirmed
 match confirmed with
 | (s',.ok ()) => exact .inl ⟨s',rfl,rfl⟩
 | (s',.error e) => exact .inr ⟨s',e,rfl⟩

/-- The messages of a worker that is being launched: notifications, and answers to
`dh.initialize` with the expected version. -/
def Introduces (s : Supervisor) (emitted : List (Nat × Json)) : Prop :=
 ∀ e ∈ emitted,IsNotification e.2 ∨
  IsInitialized s.nextRequestId s.config.expectedProtocolVersion e.2

theorem Introduces.ready (h:Introduces s emitted) (he:e∈emitted)
 (hme:messageMethod e.2=some "dh.ready") : IsReady e.2 := by
 rcases h e he with hn|hi
 · exact ⟨hn,hme⟩
 · rw [hi.1.2] at hme
   cases hme

theorem Introduces.initialized (h:Introduces s emitted) (he:e∈emitted)
 (han:IsAnswer s.nextRequestId e.2) :
 IsInitialized s.nextRequestId s.config.expectedProtocolVersion e.2 :=
 (h e he).resolve_left fun hn=>not_isAnswer_of_notification hn han

theorem launch_fails (hem:process.Emits emitted)
 (ho:process.StdinOpen (s.clock+ticks)) (hal:Introduces s emitted)
 (hmi:(∀e∈emitted,
  ¬IsInitialized s.nextRequestId s.config.expectedProtocolVersion e.2) ∨
  ∀e∈emitted,¬IsReady e.2) :
 LaunchFails s process ticks := by
 have hre:=@launchReturns_iff s process ticks hem.scripted ho
 obtain ⟨⟨s₁,outcome⟩,hr⟩:=@exists_returns (s.launching process ticks) process
  (initializeCall s ticks) (fun _ _=>none) emitted rfl hem
 cases outcome with
 | error e => exact ⟨s₁,e,(hre _).mpr ⟨_,hr,rfl⟩⟩
 | ok result =>
  obtain ⟨fuel,hru⟩:=hr
  have hst:Progress (fun _ _=>none) (initializeCall s ticks).id
   (initializeCall s ticks).deadline (s.launching process ticks).clock
   (s.launching process ticks) (s.launching process ticks) [] emitted :=
   Progress.initially rfl hem (Nat.le_add_right _ _) rfl rfl
  obtain ⟨front,time,message,rest,heq,han⟩:=hst.run hru
  obtain rfl : emitted=front++(time,message)::rest := heq
  obtain ⟨p,hp,hres⟩:=han.process
  rcases completeHandshake_cases s₁ result with ⟨s₂,hco,-⟩|⟨s₂,e,hf⟩
  · -- the answer was there and so was a `dh.ready` behind it
    obtain ⟨e,he,hme,-⟩:=ready_of_confirmReady hp hres hco
    have hmem:e∈front++(time,message)::rest:=by simp [he]
    rcases hmi with hnone|hnone
    · exact absurd (hal.initialized (e := (time,message)) (by simp) han.answer)
       (hnone (time,message) (by simp))
    · exact absurd (hal.ready hmem hme) (hnone e hmem)
  · exact ⟨s₂,e,(hre _).mpr ⟨_,⟨fuel,hru⟩,hf⟩⟩

/-- With the first answer in time, what the launch needs: every message up to the answer heard
before a second ping falls due, and a `dh.ready` behind the answer. -/
theorem launchReady_iff {front rest : List (Nat × Json)} {answer : Nat × Json}
 (hem:process.Emits (front++answer::rest)) (hrea:process.readerGone=false)
 (hexi:∀x∈process.exitAt,∀e∈front++answer::rest,e.1 ≤ x.1)
 (ho:process.StdinOpen (s.clock+ticks)) (hal:Introduces s (front++answer::rest))
 (han:IsAnswer s.nextRequestId answer.2)
 (hf:∀e∈front,¬IsAnswer s.nextRequestId e.2)
 (hti:answer.1 ≤ s.clock+ticks+s.config.readyTimeout) :
 LaunchReady s process ticks ↔
  HeardAll s.config.healthTimeout s.clock (s.clock+ticks)
   (front.map Prod.fst++[answer.1]) ∧
  ∃e∈rest,IsReady e.2 ∧
   e.1 ≤ readyBy process s.config.readyTimeout (max (s.clock+ticks) answer.1) := by
 have hre:=@launchReturns_iff s process ticks hem.scripted ho
 have hn:∀e∈front,IsNotification e.2:=fun e he=>
  (hal e (by simp [he])).resolve_right fun hi=>hf e he hi.1
 obtain ⟨-,her,result,hres,hv⟩:=hal.initialized (e := answer) (by simp) han
 obtain ⟨ending,hin,hen⟩:=hem.inbox
 have hso:=pairwise_append.mp hem.sorted
 have hsp:process.inbox =
  queued front++(answer.1,.payload answer.2)::(queued rest++ending) := by
  rw [hin]
  simp [queued]
 obtain ⟨hhe,hde⟩:=@Attentive.answer _ _ _ (initializeCall s ticks) (fun _ _=>none) _ _ _
  _ _ _ _ (launching_attentive s process ticks) hem.scripted hsp hn han her
  hres hrea (fun e he=>hso.2.2 e he answer mem_cons_self)
  (fun x hx=>hexi x hx answer (by simp)) (Nat.le_add_right _ _) hti
 by_cases hh : HeardAll s.config.healthTimeout s.clock (s.clock+ticks)
  (front.map Prod.fst++[answer.1])
 swap
 · obtain ⟨s₁,e,hlo⟩:=hde hh
   refine ⟨fun h=>?_,fun h=>absurd h.1 hh⟩
   obtain ⟨s',report,hl,-⟩:=h
   obtain ⟨r,hr,hco⟩:=(hre _).mp hl
   rw [(hlo r).mp hr] at hco
   cases hco
 obtain ⟨s₁,hs₁,hans⟩:=hhe hh
 have hem₁:(process.leaving (queued rest++ending)).Emits rest:=
  ⟨hem.scripted,⟨ending,rfl,hen⟩,(pairwise_cons.mp hso.2.1).2⟩
 have hla:∀e∈rest,e∈front++answer::rest:=fun e he=>by simp [he]
 have hconf:s₁.config=s.config:=hs₁.config
 have hcomp:∀s',s₁.confirmReady=(s',.ok ()) →
  s₁.completeHandshake result=(s',.ok s'.report) := fun s' h=>by
  unfold Supervisor.completeHandshake
  rw [hconf,hv,h]
  rfl
 have hli:readyBy (process.leaving (queued rest++ending)) s₁.config.readyTimeout s₁.clock =
  readyBy process s.config.readyTimeout (max (s.clock+ticks) answer.1) := by
  rw [hs₁.clock,hconf]
  rfl
 rw [←hli]
 constructor
 · rintro ⟨s',report,hl,-⟩
   refine ⟨hh,?_⟩
   obtain ⟨r,hr,hco⟩:=(hre _).mp hl
   rw [(hans r).mp hr] at hco
   have hcom:s₁.completeHandshake result=(s',.ok report):=hco
   rcases completeHandshake_cases s₁ result with ⟨s₂,hcon,-⟩|⟨s₂,e,hfa⟩
   · obtain ⟨e,he,hme,ht⟩:=ready_of_confirmReady hs₁.process hem₁ hcon
     exact ⟨e,he,hal.ready (hla e he) hme,ht⟩
   · rw [hfa] at hcom
     cases hcom
 · rintro ⟨-,e,he,hready,ht⟩
   obtain ⟨s₂,hcon,hst⟩:=confirmReady_of_ready hs₁.process hem₁ hrea
    (fun x hx e' he'=>hexi x hx e' (hla e' he')) ⟨e,he,hready.2,ht⟩
   exact ⟨s₂,s₂.report,(hre _).mpr ⟨_,(hans _).mpr rfl,hcomp s₂ hcon⟩,hst⟩

def BothInTime (s : Supervisor) (ticks : Nat) (emitted : List (Nat × Json)) : Prop :=
 (∃ e ∈ emitted,IsInitialized s.nextRequestId s.config.expectedProtocolVersion e.2 ∧
  e.1 ≤ s.clock+ticks+s.config.readyTimeout) ∧
 ∃ e ∈ emitted,IsReady e.2 ∧ e.1 ≤ s.clock+ticks+s.config.readyTimeout

/-- A `dh.ready` follows the first answer, soon enough if the worker has stopped to read, and
everything up to the answer is heard before a second ping falls due. -/
def ReadyFollows (s : Supervisor) (process : Process) (ticks : Nat)
 (emitted : List (Nat × Json)) : Prop :=
 ∃ front answer rest,emitted = front++answer::rest ∧ IsAnswer s.nextRequestId answer.2 ∧
  (∀ e ∈ front,¬IsAnswer s.nextRequestId e.2) ∧
  HeardAll s.config.healthTimeout s.clock (s.clock+ticks)
   (front.map Prod.fst++[answer.1]) ∧
  ∃ e ∈ rest,IsReady e.2 ∧
   e.1 ≤ readyBy process s.config.readyTimeout (max (s.clock+ticks) answer.1)

theorem exists_first_answer {id : Nat} (h:∃e∈emitted,IsAnswer id e.2) :
 ∃front answer rest,emitted=front++answer::rest ∧ IsAnswer id answer.2 ∧
  ∀e∈front,¬IsAnswer id e.2 := by
 classical
 cases hfi : emitted.find? fun e=>decide (IsAnswer id e.2) with
 | none =>
  obtain ⟨e,he,han⟩:=h
  exact absurd (decide_eq_true han) (find?_eq_none.mp hfi e he)
 | some answer =>
  obtain ⟨han,front,rest,heq,hf⟩:=find?_eq_some_iff_append.mp hfi
  refine ⟨front,answer,rest,heq,of_decide_eq_true han,fun e he=>?_⟩
  simpa using hf e he

/-- A launch succeeds with every worker that sends both messages in time, and fails with every
worker that sends only one of them, exactly when a worker that sends both sends `dh.ready` behind
its answer and is heard in time. -/
theorem launch_ready_iff (s : Supervisor) (process : Process) (ticks : Nat)
 (emitted : List (Nat × Json)) (hemits : process.Emits emitted)
 (hreader : process.readerGone = false)
 (hexit : ∀ x ∈ process.exitAt,∀ e ∈ emitted,e.1 ≤ x.1)
 (hopen : process.StdinOpen (s.clock+ticks)) (hall : Introduces s emitted) :
 ((BothInTime s ticks emitted → LaunchReady s process ticks) ∧
  ((∀ e ∈ emitted,¬IsInitialized s.nextRequestId s.config.expectedProtocolVersion e.2) ∨
   (∀ e ∈ emitted,¬IsReady e.2) → LaunchFails s process ticks)) ↔
  (BothInTime s ticks emitted → ReadyFollows s process ticks emitted) := by
 rw [and_iff_left (launch_fails hemits hopen hall)]
 refine imp_congr_right fun hb=>?_
 obtain ⟨e,he,hi,hti⟩:=hb.1
 obtain ⟨front,answer,rest,rfl,han,hf⟩:=exists_first_answer ⟨e,he,hi.1⟩
 have hfi:answer.1 ≤ e.1:=by
  rcases mem_append.mp he with he|he
  · exact absurd hi.1 (hf e he)
  · rcases mem_cons.mp he with rfl|he
    · exact Nat.le_refl _
    · exact (pairwise_cons.mp (pairwise_append.mp hemits.sorted).2.1).1 e he
 rw [launchReady_iff hemits hreader hexit hopen hall han hf (Nat.le_trans hfi hti)]
 refine ⟨fun h=>⟨front,answer,rest,rfl,han,hf,h⟩,?_⟩
 rintro ⟨front',answer',rest',heq,han',hf',h⟩
 obtain ⟨rfl,rfl,rfl⟩:=first_answer_unique heq hf han hf' han'
 exact h

end

def initializedAt (time : Nat) : Nat × Json :=
 (time,.object [("id",.unsigned 2),
  ("result",.object [("protocolVersion",.string "1")])])

def readyAt (time : Nat) : Nat × Json := (time,jsonrpcNotification "dh.ready" .null)

def resting : Supervisor := { attending { inbox := [] } with process := none }

theorem isInitialized_initializedAt (time : Nat) :
 IsInitialized resting.nextRequestId resting.config.expectedProtocolVersion
  (initializedAt time).2 :=
 ⟨⟨rfl,rfl⟩,rfl,_,rfl,by decide⟩

theorem isReady_readyAt (time : Nat) : IsReady (readyAt time).2 := ⟨⟨rfl,rfl⟩,rfl⟩

/-- Answer first, then `dh.ready`. -/
theorem launch_ready_iff_in_order :
 LaunchReady resting { inbox := queued [initializedAt 1000,readyAt 2000] } 10 := by
 refine ((launch_ready_iff resting _ 10 _ (emits_queued (by decide)) rfl
  (fun x hx=>by cases hx) (fun b hb=>by cases hb) ?_).mpr fun _=>?_).1 ?_
 · intro e he
   rcases mem_pair.mp he with rfl|rfl
   · exact .inr (isInitialized_initializedAt 1000)
   · exact .inl (isReady_readyAt 2000).1
 · refine ⟨[],initializedAt 1000,[readyAt 2000],rfl,⟨rfl,rfl⟩,by simp,?_,
    readyAt 2000,mem_cons_self,isReady_readyAt 2000,by decide⟩
   simp [HeardAll,HeardBy,resting,attending,initializedAt]
 · exact ⟨⟨initializedAt 1000,by simp,isInitialized_initializedAt 1000,by decide⟩,
    readyAt 2000,by simp,isReady_readyAt 2000,by decide⟩

/-- The same two messages the other way round, and the launch times out. -/
theorem launch_not_ready :
 BothInTime resting 10 [readyAt 1000,initializedAt 2000] ∧
  ¬LaunchReady resting { inbox := queued [readyAt 1000,initializedAt 2000] } 10 ∧
  ∃ s' e,LaunchReturns resting { inbox := queued [readyAt 1000,initializedAt 2000] } 10
   (s',.error e) ∧ e.kind = .timeout := by
 refine ⟨⟨⟨initializedAt 2000,by simp,isInitialized_initializedAt 2000,by decide⟩,
  readyAt 1000,by simp,isReady_readyAt 1000,by decide⟩,?_,?_⟩
 · rw [@launchReady_iff resting { inbox := queued [readyAt 1000,initializedAt 2000] } 10
    [readyAt 1000] [] (initializedAt 2000) (emits_queued (by decide)) rfl
    (fun x hx=>by cases hx) (fun b hb=>by cases hb) ?_ ⟨rfl,rfl⟩ ?_ (by decide)]
   · rintro ⟨-,e,he,-⟩
     cases he
   · intro e he
     rcases mem_pair.mp he with rfl|rfl
     · exact .inl (isReady_readyAt 1000).1
     · exact .inr (isInitialized_initializedAt 2000)
   · intro e he
     rw [mem_singleton.mp he]
     exact not_isAnswer_of_notification (isReady_readyAt 1000).1
 · have hr:(resting.launch (.spawned { inbox:=queued [readyAt 1000,initializedAt 2000] } 10)
    10).bind (fun r=>match r.2 with
     | .ok _ => none
     | .error e => some e.kind)=some .timeout := by decide +kernel
   obtain ⟨⟨s',e|_⟩,hso,he⟩:=Option.bind_eq_some_iff.mp hr
   · exact ⟨s',e,⟨10,hso⟩,Option.some.inj he⟩
   · cases he

end DhKit.Workers
