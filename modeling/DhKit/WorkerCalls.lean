import DhKit.RunConditions
import DhKit.WorkerWaiting

/-!
# The worker's calls

While the host waits for an answer the worker may call it.
-/
namespace DhKit.Workers
open JsonRpc List

def Process.Scripted (process : Process) : Prop := process.react = fun _ _ => []

def queued (emitted : List (Nat × Json)) : List (Nat × WorkerMessage) :=
 emitted.map fun e => (e.1,.payload e.2)

/-- The worker sends `emitted`, in this order, and then at most the reader's failure. -/
structure Process.Emits (process : Process) (emitted : List (Nat × Json)) : Prop where
 scripted : process.Scripted
 inbox : ∃ ending,process.inbox = queued emitted++ending ∧
  ∀ e ∈ ending,∃ text,e.2 = .readFailed text
 sorted : emitted.Pairwise fun a b => a.1 ≤ b.1

def repliesOf (s : Supervisor) : List Json := s.written.filterMap Outgoing.reply?

structure Waits (s s₁ : Supervisor) : Prop where
 config : s₁.config = s.config
 report : s₁.report = s.report
 handled : s₁.handled = s.handled
 replies : repliesOf s₁ = repliesOf s

section
variable {s s₁ s₂ : Supervisor} {process : Process} {call : PendingCall} {handler : HostHandler}
 {emitted : List (Nat × Json)}

theorem Waits.refl (s : Supervisor) : Waits s s := ⟨rfl,rfl,rfl,rfl⟩

theorem Waits.trans (h:Waits s s₁) (h':Waits s₁ s₂) : Waits s s₂ :=
 ⟨h'.config.trans h.config,h'.report.trans h.report,h'.handled.trans h.handled,
  h'.replies.trans h.replies⟩

theorem written_of_scripted (h:process.Scripted) (clock : Nat) (message : Json) :
 process.written clock message=process := by
 have hnone:process.react clock message=[]:=by rw [h]
 simp [Process.written,hnone]

section
variable (hprocess : s.process = some process)
include hprocess

theorem tryNotify_waits (hsc:process.Scripted) (method : String) (params : Json) :
 Waits s (s.tryNotify method params) ∧ (s.tryNotify method params).process=some process ∧
  (s.tryNotify method params).clock=s.clock := by
 rcases tryNotify_cases method params with hl|⟨p,hp,hwritten⟩
 · rw [hl]
   exact ⟨.refl s,hprocess,rfl⟩
 obtain rfl : process=p := Option.some.inj (hprocess.symm.trans hp)
 rw [hwritten,written_of_scripted hsc]
 refine ⟨⟨rfl,rfl,rfl,?_⟩,rfl,rfl⟩
 simp [repliesOf,Outgoing.reply?]

theorem heartbeat_waits (hsc:process.Scripted) (hb:s.heartbeat=some s₁) :
 Waits s s₁ ∧ s₁.process=some process ∧ s₁.clock=s.clock := by
 unfold Supervisor.heartbeat at hb
 split_ifs at hb
 · cases hb
   obtain ⟨hwa,hp,hcl⟩:=@tryNotify_waits
    { s with missedHeartbeats := s.missedHeartbeats+1 } process hprocess hsc
    "runtime.ping" (.object [("ts",.unsigned s.clock)])
   exact ⟨⟨hwa.config,hwa.report,hwa.handled,hwa.replies⟩,hp,hcl⟩
 · cases hb
   exact ⟨.refl s,hprocess,rfl⟩

theorem recvMessageBefore_cases (deadline : Nat) :
 (∃time value rest s₁,process.inbox=(time,.payload value)::rest ∧
  time ≤ max s.clock deadline ∧ s.recvMessageBefore deadline=(s₁,.ok value) ∧
  Waits s s₁ ∧ s₁.process=some (process.leaving rest) ∧ s₁.clock=max s.clock time) ∨
 (∃s₁,s.recvMessageBefore deadline=(s₁,.error .timeout) ∧ Waits s s₁ ∧
  s₁.process=some process ∧ s₁.clock=max s.clock deadline ∧
  ∀e∈process.inbox.head?,max s.clock deadline < e.1) ∨
 ∃s₁ failure,failure≠.timeout ∧ s.recvMessageBefore deadline=(s₁,.error failure) := by
 have heq:∀clock p result,recvLoop deadline (deadline-s.clock+1) s.clock process =
  (clock,p,result) →
  s.recvMessageBefore deadline=({ s with clock,process := some p },result) := by
  intro clock p result h
  simp [Supervisor.recvMessageBefore,hprocess,h]
 rcases recvLoop_cases (Nat.lt_succ_self (deadline-s.clock)) with
  ⟨time,value,rest,hi,hti,hr⟩ | ⟨hr,hl⟩ |
  ⟨clock,p,failure,hne,-,hr,-⟩
 · exact .inl ⟨time,value,rest,_,hi,hti,heq _ _ _ hr,⟨rfl,rfl,rfl,rfl⟩,rfl,
    rfl⟩
 · exact .inr (.inl ⟨_,heq _ _ _ hr,⟨rfl,rfl,rfl,rfl⟩,rfl,rfl,hl⟩)
 · exact .inr (.inr ⟨_,failure,hne,heq _ _ _ hr⟩)

end

theorem Process.Emits.take (h:process.Emits emitted) {time : Nat} {value : Json}
 {rest : List (Nat × WorkerMessage)} (hi:process.inbox=(time,.payload value)::rest) :
 ∃later,emitted=(time,value)::later ∧ (process.leaving rest).Emits later := by
 obtain ⟨ending,heq,hen⟩:=h.inbox
 rw [hi] at heq
 cases emitted with
 | nil =>
  -- only a failure of the reader could be in front
  obtain ⟨text,htext⟩:=hen (time,.payload value) (by rw [←show _=ending from heq]; simp)
  cases htext
 | cons e later =>
  obtain ⟨rfl,rfl⟩ : (e.1=time ∧ e.2=value) := by
   simp only [queued,map_cons,cons_append,List.cons.injEq,Prod.mk.injEq,
    WorkerMessage.payload.injEq] at heq
   exact ⟨heq.1.1.symm,heq.1.2.symm⟩
  refine ⟨later,rfl,h.scripted,⟨ending,?_,hen⟩,(pairwise_cons.mp h.sorted).2⟩
  exact (List.cons.inj heq).2

theorem Process.Emits.head_lt (h:process.Emits emitted) {limit : Nat}
 (hl:∀e∈process.inbox.head?,limit < e.1) : ∀e∈emitted,limit < e.1 := by
 obtain ⟨ending,heq,-⟩:=h.inbox
 cases emitted with
 | nil => exact fun e he=>by cases he
 | cons e later =>
  have hf:limit < e.1:=hl (e.1,.payload e.2) (by rw [heq]; rfl)
  intro e' he'
  rcases mem_cons.mp he' with rfl|he'
  · exact hf
  · exact Nat.lt_of_lt_of_le hf ((pairwise_cons.mp h.sorted).1 e' he')

theorem graceLoop_found {graceDeadline id fuel : Nat} {message : Json}
 (hprocess:s.process=some process) (hem:process.Emits emitted)
 (hf:Supervisor.graceLoop graceDeadline id fuel s=(s₁,some message)) :
 ∃dropped time rest p₁,emitted=dropped++(time,message)::rest ∧
  (∀e∈dropped,messageId e.2≠some id) ∧ messageId message=some id ∧ Waits s s₁ ∧
  s₁.process=some p₁ ∧ p₁.Emits rest ∧ s₁.clock=max s.clock time := by
 induction fuel generalizing s process emitted with
 | zero => cases hf
 | succ fuel ih =>
  unfold Supervisor.graceLoop at hf
  split_ifs at hf
  swap
  · cases hf
  rcases recvMessageBefore_cases hprocess graceDeadline with
   ⟨time,value,rest,s₂,hi,-,hr,hwa,hp,hcl⟩ | ⟨s₂,hr,-⟩ |
   ⟨s₂,failure,-,hr⟩
  · obtain ⟨later,rfl,hl⟩:=hem.take hi
    simp only [hr] at hf
    split_ifs at hf with hid
    · cases hf
      exact ⟨[],time,later,_,rfl,fun e he=>(by cases he),hid,hwa,hp,hl,
       hcl⟩
    obtain ⟨dropped,time',rest',p₁,rfl,hdr,hid',hwa',hp',hem',hcl'⟩:=
     ih hp hl hf
    have hle:time ≤ time':=
     (pairwise_cons.mp hem.sorted).1 (time',message) (by simp)
    refine ⟨(time,value)::dropped,time',rest',p₁,rfl,?_,hid',hwa.trans hwa',hp',
     hem',by omega⟩
    intro e he
    rcases mem_cons.mp he with rfl|he
    · exact hid
    · exact hdr e he
  · simp [hr] at hf
  · simp [hr] at hf

inductive TurnOf (call : PendingCall) (handler : HostHandler) (s : Supervisor)
 (emitted : List (Nat × Json)) : Step → Prop
 /-- The next message comes in the loop itself. -/
 | heard (time : Nat) (value : Json) (rest : List (Nat × Json)) (s₁ : Supervisor) (p₁ : Process)
  (split : emitted = (time,value)::rest) (waits : Waits s s₁)
  (process : s₁.process = some p₁) (emits : p₁.Emits rest)
  (clock : s₁.clock = max s.clock time) (inTime : time ≤ max s.clock call.deadline) :
  TurnOf call handler s emitted (s₁.dispatch call handler value)
 | spun (s₁ : Supervisor) (p₁ : Process) (waits : Waits s s₁) (process : s₁.process = some p₁)
  (emits : p₁.Emits emitted) (later : s.clock < s₁.clock) (early : s₁.clock ≤ call.deadline)
  (ahead : ∀ e ∈ emitted,s₁.clock ≤ e.1) : TurnOf call handler s emitted (.again s₁)
 /-- The deadline has passed, and the awaited number comes in the grace window. -/
 | graced (dropped : List (Nat × Json)) (time : Nat) (value : Json) (rest : List (Nat × Json))
  (s₁ : Supervisor) (p₁ : Process) (split : emitted = dropped++(time,value)::rest)
  (others : ∀ e ∈ dropped,messageId e.2≠some call.id)
  (number : messageId value = some call.id)
  (late : ∀ e ∈ emitted,max s.clock call.deadline < e.1) (waits : Waits s s₁)
  (process : s₁.process = some p₁) (emits : p₁.Emits rest) (clock : s₁.clock = time) :
  TurnOf call handler s emitted (s₁.dispatch call handler value)
 | failed (s₁ : Supervisor) (e : WorkerSupervisorError) :
  TurnOf call handler s emitted (.done s₁ (.error e))

theorem turnOf_overdue (hprocess:s.process=some process) (hem:process.Emits emitted)
 (hb:Waits s₂ s) (hl:∀e∈emitted,s.clock < e.1)
 (hcl:max s₂.clock call.deadline ≤ s.clock) :
 TurnOf call handler s₂ emitted (s.overdue call handler) := by
 obtain ⟨hwa,hp,hsa⟩:=tryNotify_waits hprocess hem.scripted "session.cancel"
  (.object [("reason",.string "timeout")])
 unfold Supervisor.overdue
 generalize s.tryNotify "session.cancel" (.object [("reason",.string "timeout")])=s₁
  at hwa hp hsa
 dsimp only
 cases hgr : Supervisor.graceLoop (gracePeriod+s₁.clock) call.id (s₁.pendingMessages+1)
  s₁ with
 | mk s₃ found =>
  cases found with
  | none => exact .failed _ _
  | some message =>
   obtain ⟨dropped,time,rest,p₁,hsp,ho,hn,hwa',hp',hem',hcl'⟩:=
    graceLoop_found hp hem hgr
   have hti:s.clock < time:=hl (time,message) (by rw [hsp]; simp)
   exact .graced dropped time message rest s₃ p₁ hsp ho hn
    (fun e he=>Nat.lt_of_le_of_lt hcl (hl e he))
    (hb.trans (hwa.trans hwa')) hp' hem' (by omega)

theorem waitTurn_turnOf (hprocess:s.process=some process) (hem:process.Emits emitted) :
 TurnOf call handler s emitted (s.waitTurn call handler) := by
 unfold Supervisor.waitTurn
 cases hb : s.heartbeat with
 | none => exact .failed _ _
 | some s₁ =>
  obtain ⟨hwa,hp,hcl⟩:=heartbeat_waits hprocess hem.scripted hb
  dsimp only
  rcases recvMessageBefore_cases hp (min call.deadline s₁.nextPingTime) with
   ⟨time,value,rest,s₂,hi,hti,hre,hwa',hp',hcl'⟩ |
   ⟨s₂,hre,hwa',hp',hcl',hl⟩ | ⟨s₂,failure,hne,hre⟩
  · obtain ⟨later,hsp,hem'⟩:=hem.take hi
    rw [hre]
    have hr:Waits s₂ s₂.received:=⟨rfl,rfl,rfl,rfl⟩
    exact .heard time value later s₂.received _ hsp ((hwa.trans hwa').trans hr)
     hp' hem' (by rw [←hcl]; exact hcl') (by omega)
  · rw [hre]
    have hah:=hem.head_lt hl
    by_cases hde : call.deadline ≤ s₂.clock
    · simp only [hde]
      exact turnOf_overdue hp' hem (hwa.trans hwa')
       (fun e he=>by have := hah e he; omega) (by omega)
    simp only [hde]
    exact .spun _ process ((hwa.trans hwa').trans ⟨rfl,rfl,rfl,rfl⟩) hp' hem
     (by dsimp only; omega) (by dsimp only; omega)
     (fun e he=>by have := hah e he; dsimp only; omega)
  · rw [hre]
    cases failure with
    | timeout => exact absurd rfl hne
    | heartbeatFailed | exited status | readFailed text => exact .failed _ _

end

def IsAnswer (id : Nat) (message : Json) : Prop :=
 messageId message = some id ∧ messageMethod message = none

def isCall (message : Json) : Bool :=
 (message.get "id").isSome && (messageMethod message).isSome

/-- A call that the loop recognizes: its id is an unsigned number, and its method is not one of
the two that are taken for notifications. -/
def recognized (message : Json) : Bool :=
 (messageId message).isSome && (messageMethod message).isSome &&
  messageMethod message ≠ some "dh.ready" && messageMethod message ≠ some "event.tool.outputChunk"

/-- The message comes by the deadline, bears the awaited number, or comes together with an
earlier message that does. -/
def reaches (id deadline : Nat) (front : List (Nat × Json)) (e : Nat × Json) : Bool :=
 e.1 ≤ deadline || messageId e.2 = some id ||
  front.any fun b => b.1 = e.1 && messageId b.2 = some id

def passed (id deadline : Nat) : List (Nat × Json) → List (Nat × Json) → List Json
 | _,[] => []
 | front,e::rest =>
  (if recognized e.2 && reaches id deadline front e then [e.2] else []) ++
   passed id deadline (front++[e]) rest

/-- What the handler answers to calls, after those of `history`. -/
def responses (handler : HostHandler) : List Json → List Json → List Json
 | _,[] => []
 | history,message::rest =>
  (handler history message).toList++responses handler (history++[message]) rest

section
variable {id deadline : Nat} {front rest more : List (Nat × Json)} {e : Nat × Json}

theorem passed_append :
 passed id deadline front (rest++more) =
  passed id deadline front rest++passed id deadline (front++rest) more := by
 induction rest generalizing front with
 | nil => simp [passed]
 | cons e rest ih => simp [passed,ih]

theorem responses_append (handler:HostHandler) (history calls more : List Json) :
 responses handler history (calls++more) =
  responses handler history calls++responses handler (history++calls) more := by
 induction calls generalizing history with
 | nil => simp [responses]
 | cons call calls ih => simp [responses,ih]

theorem isCall_of_recognized {message : Json} (h:recognized message=true) :
 isCall message=true := by
 simp only [recognized,messageId,Bool.and_eq_true] at h
 simp only [isCall,Bool.and_eq_true]
 refine ⟨?_,h.1.1.2⟩
 cases hid : message.get "id" with
 | none => simp [hid] at h
 | some id => rfl

end

section
variable (handler : HostHandler) (id deadline start : Nat)

/-- Where a run has come to: `front` has been taken from the queue and `rest` is to come. -/
structure Progress (s₀ s : Supervisor)
 (front rest : List (Nat × Json)) : Prop where
 process : ∃ p,s.process = some p ∧ p.Emits rest
 sorted : (front++rest).Pairwise fun a b => a.1 ≤ b.1
 past : ∀ e ∈ front,e.1 ≤ s.clock
 ahead : ∀ e ∈ rest,s.clock ≤ max start e.1
 started : start ≤ s.clock
 /-- After the deadline the loop only runs on behind a message with the awaited number. -/
 late : deadline < s.clock → ∃ b ∈ front,b.1 = s.clock ∧ messageId b.2 = some id
 unanswered : ∀ e ∈ front,¬IsAnswer id e.2
 handled : s.handled = s₀.handled++passed id deadline [] front
 replies : repliesOf s = repliesOf s₀ ++
  responses handler s₀.handled (passed id deadline [] front)

/-- How a run ends that returns `value`: with the first answer among the messages. -/
structure Answered (s₀ s : Supervisor)
 (value : Json) (front : List (Nat × Json)) (time : Nat) (message : Json)
 (rest : List (Nat × Json)) : Prop where
 process : ∃ p,s.process = some p ∧ p.Emits rest
 answer : IsAnswer id message
 result : messageResult message = some value
 unanswered : ∀ e ∈ front,¬IsAnswer id e.2
 past : ∀ e ∈ front,e.1 ≤ s.clock
 clock : s.clock = max start time
 handled : s.handled = s₀.handled++passed id deadline [] front
 replies : repliesOf s = repliesOf s₀ ++
  responses handler s₀.handled (passed id deadline [] front)

/-- The run over `emitted` has gone on, has ended with an answer, or has failed. -/
def Proceeds (s₀ : Supervisor)
 (emitted : List (Nat × Json)) : Step → Prop
 | .again s => ∃ front rest,emitted = front++rest ∧
  Progress handler id deadline start s₀ s front rest
 | .done s (.ok value) => ∃ front time message rest,emitted = front++(time,message)::rest ∧
  Answered handler id deadline start s₀ s value front time message rest
 | .done _ (.error _) => True

end

section
variable {handler : HostHandler} {call : PendingCall} {start : Nat} {s₀ s s₁ s₂ : Supervisor}
 {front rest later dropped : List (Nat × Json)} {time id deadline : Nat} {value : Json}
 {process : Process}

theorem dispatch_cases (hprocess:s.process=some process) (hsc:process.Scripted) :
 (∃s₁,s.dispatch call handler value = .again s₁ ∧ ¬IsAnswer call.id value ∧
  s₁.process=some process ∧ s₁.clock=s.clock ∧
  s₁.handled=s.handled++(if recognized value then [value] else []) ∧
  repliesOf s₁=repliesOf s ++
   responses handler s.handled (if recognized value then [value] else [])) ∨
 (∃result,s.dispatch call handler value = .done s (.ok result) ∧ IsAnswer call.id value ∧
  messageResult value=some result) ∨
 ∃s₁ e,s.dispatch call handler value = .done s₁ (.error e) := by
 unfold Supervisor.dispatch
 by_cases hr : messageMethod value=some "dh.ready"
 · have hno:recognized value=false:=by simp [recognized,hr]
   exact .inl ⟨_,if_pos hr,fun h=>by simp [h.2] at hr,hprocess,rfl,
    by simp [hno],by simp [hno,responses,repliesOf]⟩
 rw [if_neg hr]
 by_cases hch : messageMethod value=some "event.tool.outputChunk"
 · have hno:recognized value=false:=by simp [recognized,hch]
   exact .inl ⟨_,if_pos hch,fun h=>by simp [h.2] at hch,hprocess,rfl,
    by simp [hno],by simp [hno,responses,repliesOf]⟩
 rw [if_neg hch]
 by_cases hca : ((messageId value).isSome && (messageMethod value).isSome)=true
 · have hy:recognized value=true:=by simp [recognized,hr,hch,hca]
   have hnone:¬IsAnswer call.id value:=fun h=>by simp [h.2] at hca
   rw [if_pos hca]
   cases hre : handler s.handled value with
   | none =>
    exact .inl ⟨_,rfl,hnone,hprocess,rfl,by simp [hy],
     by simp [hy,responses,hre,repliesOf]⟩
   | some response =>
    dsimp only
    cases hwr : Supervisor.writeMessage { s with handled := s.handled++[value] }
     (.reply response) with
    | error text => exact .inr (.inr ⟨_,_,rfl⟩)
    | ok s₁ =>
     obtain ⟨p,hp,rfl⟩:=writeMessage_eq_ok hwr
     obtain rfl : process=p := Option.some.inj (hprocess.symm.trans hp)
     refine .inl ⟨_,rfl,hnone,?_,rfl,by simp [hy],?_⟩
     · simp [written_of_scripted hsc]
     · simp [hy,responses,hre,repliesOf,Outgoing.reply?]
 rw [if_neg hca]
 have hno:recognized value=false:=by
  simp [recognized,Bool.not_eq_true _ ▸ hca]
 by_cases hid : messageId value=some call.id
 swap
 · rw [if_pos hid]
   exact .inl ⟨_,rfl,fun h=>hid h.1,hprocess,rfl,by simp [hno],
    by simp [hno,responses]⟩
 rw [if_neg (not_not.mpr hid)]
 have hme:messageMethod value=none:=by simpa [hid] using hca
 cases messageError value with
 | some error => exact .inr (.inr ⟨_,_,rfl⟩)
 | none =>
  cases hres : messageResult value with
  | none => exact .inr (.inr ⟨_,_,rfl⟩)
  | some result => exact .inr (.inl ⟨result,rfl,⟨hid,hme⟩,rfl⟩)

theorem passed_eq_nil (ho:∀e∈dropped,messageId e.2≠some id)
 (hl:∀e∈dropped,deadline < e.1)
 (hf:∀e∈dropped,∀b∈front,b.1=e.1 → messageId b.2≠some id) :
 passed id deadline front dropped=[] := by
 induction dropped generalizing front with
 | nil => rfl
 | cons e rest ih =>
  have hno:reaches id deadline front e=false:=by
   have hti:=hl e mem_cons_self
   have hid:=ho e mem_cons_self
   have han:(front.any fun b=>b.1=e.1 && messageId b.2=some id)=false:=by
    simpa using fun a b hb ht=>hf e mem_cons_self (a,b) hb ht
   simp [reaches,han,hid,Nat.not_le.mpr hti]
  rw [passed,hno,Bool.and_false,if_neg Bool.false_ne_true,nil_append]
  apply ih
  · exact fun e' he'=>ho e' (mem_cons_of_mem _ he')
  · exact fun e' he'=>hl e' (mem_cons_of_mem _ he')
  intro e' he' b hb
  rcases mem_append.mp hb with hb|hb
  · exact hf e' (mem_cons_of_mem _ he') b hb
  · rw [mem_singleton.mp hb]
    exact fun _=>ho e mem_cons_self

theorem Progress.dispatch (h:Progress handler call.id deadline start s₀ s front rest)
 (hsp:rest=dropped++(time,value)::later)
 (ho:∀e∈dropped,messageId e.2≠some call.id)
 (hdr:passed call.id deadline front dropped=[])
 (hre:reaches call.id deadline (front++dropped) (time,value)=true)
 (hwa:Waits s s₁) (hprocess:s₁.process=some process) (hem:process.Emits later)
 (hcl:s₁.clock=max s.clock time)
 (hl:deadline < s₁.clock →
  ∃b∈front++dropped++[(time,value)],b.1=s₁.clock ∧ messageId b.2=some call.id) :
 Proceeds handler call.id deadline start s₀ (front++rest) (s₁.dispatch call handler value) := by
 have hpa:passed call.id deadline [] (front++dropped) =
  passed call.id deadline [] front := by
  rw [passed_append,nil_append,hdr,append_nil]
 have hla:passed call.id deadline (front++dropped) [(time,value)] =
  if recognized value then [value] else [] := by
  cases hr : recognized value <;> simp [passed,hr,hre]
 have hu:∀e∈front++dropped,¬IsAnswer call.id e.2:=by
  intro e he
  rcases mem_append.mp he with he|he
  · exact h.unanswered e he
  · exact fun ha=>ho e he ha.1
 have hor:∀e∈front++dropped,e.1 ≤ time:=by
  intro e he
  have hs:=h.sorted
  rw [hsp,←append_assoc,pairwise_append] at hs
  exact hs.2.2 e he (time,value) mem_cons_self
 have hta:time ≤ s₁.clock:=by rw [hcl]; exact Nat.le_max_right _ _
 have hpas:∀e∈front++dropped,e.1 ≤ s₁.clock:=
  fun e he=>Nat.le_trans (hor e he) hta
 have hen:s₁.clock=max start time:=by
  have hah:s.clock ≤ max start time:=h.ahead (time,value) (by rw [hsp]; simp)
  have hst:=h.started
  clear hl
  omega
 rcases @dispatch_cases handler call s₁ value process hprocess hem.scripted with
  ⟨s₂,heq,han,hp,hc,hh,hrep⟩ | ⟨result,heq,han,hres⟩ |
  ⟨s₂,e,heq⟩
 · rw [heq,hsp]
   refine ⟨front++dropped++[(time,value)],later,by simp,⟨process,hp,hem⟩,?_,?_,?_,
    ?_,?_,?_,?_,?_⟩
   · have hs:=h.sorted
     rw [hsp] at hs
     simpa [append_assoc] using hs
   · intro e he
     rcases mem_append.mp he with he|he
     · rw [hc]
       exact hpas e he
     · rw [mem_singleton.mp he,hc]
       exact hta
   · intro e he
     have hti:time ≤ e.1:=by
      have hs:=hsp ▸ (pairwise_append.mp h.sorted).2.1
      exact (pairwise_cons.mp (pairwise_append.mp hs).2.1).1 e he
     omega
   · rw [hc,hen]
     exact Nat.le_max_left _ _
   · rw [hc]
     exact hl
   · intro e he
     rcases mem_append.mp he with he|he
     · exact hu e he
     · rw [mem_singleton.mp he]
       exact han
   · rw [hh,hwa.handled,h.handled,passed_append,hpa,nil_append,hla,append_assoc]
   · rw [hrep,hwa.replies,h.replies,hwa.handled,h.handled,passed_append,hpa,
      nil_append,hla,responses_append,append_assoc]
 · rw [heq,hsp]
   refine ⟨front++dropped,time,value,later,by simp,⟨process,hprocess,hem⟩,han,
    hres,hu,hpas,hen,?_,?_⟩
   · rw [hwa.handled,h.handled,hpa]
   · rw [hwa.replies,h.replies,hpa]
 · rw [heq]
   trivial

theorem Progress.turn (h:Progress handler call.id call.deadline start s₀ s front rest) :
 Proceeds handler call.id call.deadline start s₀ (front++rest) (s.waitTurn call handler) := by
 obtain ⟨process,hprocess,hem⟩:=h.process
 have htu:=@waitTurn_turnOf s process call handler rest hprocess hem
 generalize s.waitTurn call handler=step at htu
 cases htu with
 | heard time value later s₁ p₁ hsp hwa hp hem' hcl hti =>
  have hor:∀b∈front,b.1 ≤ time:=fun b hb=>
   (pairwise_append.mp h.sorted).2.2 b hb (time,value) (by rw [hsp]; simp)
  have hr:reaches call.id call.deadline (front++[]) (time,value)=true:=by
   by_cases hea : time ≤ call.deadline
   · simp [reaches,hea]
   · -- the loop has run on behind a message with the awaited number, at the same instant
     obtain ⟨b,hb,hbt,hid⟩:=h.late (by omega)
     have hsa:b.1=time:=by
      have := hor b hb
      omega
     have han:(front.any fun b=>b.1=time && messageId b.2=some call.id)=true:=
      any_eq_true.mpr ⟨b,hb,by simp [hsa,hid]⟩
     simp [reaches,han]
  have hla:call.deadline < s₁.clock → ∃b∈front++[]++[(time,value)],
   b.1=s₁.clock ∧ messageId b.2=some call.id := by
   intro hpa
   obtain ⟨b,hb,hbt,hid⟩:=h.late (by omega)
   exact ⟨b,by simp [hb],by omega,hid⟩
  exact h.dispatch hsp (fun e he=>by cases he) rfl hr hwa hp hem' hcl hla
 | spun s₁ p₁ hwa hp hem' hl hea hah =>
  refine ⟨front,rest,rfl,⟨p₁,hp,hem'⟩,h.sorted,?_,?_,?_,?_,h.unanswered,?_,?_⟩
  · exact fun e he=>Nat.le_trans (h.past e he) (Nat.le_of_lt hl)
  · exact fun e he=>Nat.le_trans (hah e he) (Nat.le_max_right _ _)
  · exact Nat.le_trans h.started (Nat.le_of_lt hl)
  · exact fun hpa=>absurd hpa (Nat.not_lt.mpr hea)
  · rw [hwa.handled,h.handled]
  · rw [hwa.replies,h.replies]
 | graced dropped time value later s₁ p₁ hsp ho hn hla hwa hp hem' hcl =>
  have hti:max s.clock call.deadline < time:=hla (time,value) (by rw [hsp]; simp)
  have hdr:passed call.id call.deadline front dropped=[]:=by
   apply passed_eq_nil ho
   · intro e he
     have := hla e (by rw [hsp]; simp [he])
     omega
   · intro e he b hb hbt
     have := hla e (by rw [hsp]; simp [he])
     have := h.past b hb
     omega
  exact h.dispatch hsp ho hdr (by simp [reaches,hn]) hwa hp hem'
   (by omega) (fun _=>⟨(time,value),by simp,hcl.symm,hn⟩)
 | failed s₁ e => trivial

theorem Progress.initially {id : Nat} {emitted : List (Nat × Json)}
 (hprocess:s.process=some process)
 (hem:process.Emits emitted) (hde:s.clock ≤ deadline)
 (hh:s.handled=s₀.handled) (hr:repliesOf s=repliesOf s₀) :
 Progress handler id deadline s.clock s₀ s [] emitted where
 process := ⟨process,hprocess,hem⟩
 sorted := hem.sorted
 past := fun e he=>by cases he
 ahead := fun e _=>Nat.le_max_left _ _
 started := Nat.le_refl _
 late := fun hl=>absurd hl (Nat.not_lt.mpr hde)
 unanswered := fun e he=>by cases he
 handled := by simp [passed,hh]
 replies := by simp [passed,responses,hr]

theorem Progress.run {s' : Supervisor} {fuel : Nat}
 (h:Progress handler call.id call.deadline start s₀ s front rest)
 (hr:s.waitLoop call handler fuel=some (s',.ok value)) :
 ∃front' time message rest',front++rest=front'++(time,message)::rest' ∧
  Answered handler call.id call.deadline start s₀ s' value front' time message rest' := by
 induction fuel generalizing s front rest with
 | zero => cases hr
 | succ fuel ih =>
  unfold Supervisor.waitLoop at hr
  have htu:=h.turn
  cases hst : s.waitTurn call handler with
  | again s₂ =>
   rw [hst] at hr htu
   obtain ⟨front',rest',hsp,hp⟩:=htu
   rw [hsp]
   exact ih hp hr
  | done s₂ outcome =>
   rw [hst] at hr htu
   cases hr
   exact htu

end

def callsUntil (clock : Nat) (emitted : List (Nat × Json)) : List Json :=
 (emitted.filter fun e => e.1 ≤ clock && isCall e.2).map Prod.snd

/-- Every call in front of the first answer is recognized and reaches the loop, and no call stands
behind the answer when it is taken. -/
def CallsReach (id deadline start : Nat) (emitted : List (Nat × Json)) : Prop :=
 ∃ front answer rest,emitted = front++answer::rest ∧ IsAnswer id answer.2 ∧
  (∀ e ∈ front,¬IsAnswer id e.2) ∧
  (∀ before e after,front = before++e::after → isCall e.2 = true →
   recognized e.2 = true ∧ reaches id deadline before e = true) ∧
  ∀ e ∈ rest,e.1 ≤ max start answer.1 → isCall e.2 = false

section
variable {id deadline : Nat} {pre front rest front' rest' : List (Nat × Json)}
 {answer answer' : Nat × Json} {clock : Nat}

theorem first_answer_unique (heq:front++answer::rest=front'++answer'::rest')
 (hf:∀e∈front,¬IsAnswer id e.2) (han:IsAnswer id answer.2)
 (hf':∀e∈front',¬IsAnswer id e.2) (han':IsAnswer id answer'.2) :
 front=front' ∧ answer=answer' ∧ rest=rest' := by
 induction front generalizing front' with
 | nil =>
  cases front' with
  | nil =>
   cases heq
   exact ⟨rfl,rfl,rfl⟩
  | cons e front' =>
   cases heq
   exact absurd han (hf' _ mem_cons_self)
 | cons e front ih =>
  cases front' with
  | nil =>
   cases heq
   exact absurd han' (hf _ mem_cons_self)
  | cons e' front' =>
   obtain ⟨rfl,hta⟩:=List.cons.inj heq
   obtain ⟨rfl,rfl,rfl⟩:=ih hta (fun e he=>hf e (mem_cons_of_mem _ he))
    (fun e he=>hf' e (mem_cons_of_mem _ he))
   exact ⟨rfl,rfl,rfl⟩

theorem length_passed_le :
 (passed id deadline pre front).length ≤ (front.filter fun e=>isCall e.2).length := by
 induction front generalizing pre with
 | nil => exact Nat.le_refl _
 | cons e front ih =>
  have hr:=@ih (pre++[e])
  by_cases hp : (recognized e.2 && reaches id deadline pre e)=true
  · have hca:=isCall_of_recognized (Bool.and_eq_true_iff.mp hp).1
    simpa [passed,hp,hca] using hr
  · by_cases hca : isCall e.2=true
    · simpa [passed,hp,hca] using Nat.le_succ_of_le hr
    · simpa [passed,hp,hca] using hr

theorem passed_eq_calls_iff :
 passed id deadline pre front=(front.filter fun e=>isCall e.2).map Prod.snd ↔
  ∀before e after,front=before++e::after → isCall e.2=true →
   recognized e.2=true ∧ reaches id deadline (pre++before) e=true := by
 induction front generalizing pre with
 | nil => simp [passed]
 | cons e front ih =>
  have hsp:(∀before e' after,e::front=before++e'::after → isCall e'.2=true →
   recognized e'.2=true ∧ reaches id deadline (pre++before) e'=true) ↔
   (isCall e.2=true → recognized e.2=true ∧ reaches id deadline pre e=true) ∧
   ∀before e' after,front=before++e'::after → isCall e'.2=true →
    recognized e'.2=true ∧ reaches id deadline (pre++[e]++before) e'=true := by
   have hco:=@RunConditions.eachStep_cons _ _ (fun pre e=>pre++[e]) (fun pre e'=>
    isCall e'.2=true → recognized e'.2=true ∧ reaches id deadline pre e'=true) pre e front
   simpa [RunConditions.EachStep,←flatMap_def] using hco
  rw [hsp,←ih]
  by_cases hp : (recognized e.2 && reaches id deadline pre e)=true
  · have hb:=Bool.and_eq_true_iff.mp hp
    have hca:=isCall_of_recognized hb.1
    simp [passed,hca,hb]
  by_cases hca : isCall e.2=true
  · -- a call that is not passed on: the lists differ in length
    have hle:=@length_passed_le id deadline (pre++[e]) front
    constructor
    · intro heq
      have hl:=congrArg List.length heq
      simp only [passed,hp,hca,filter_cons] at hl
      simp at hl
      omega
    · intro h
      exact absurd (Bool.and_eq_true_iff.mpr (h.1 hca)) hp
  · simp [passed,hp,hca]

theorem callsUntil_answered (hp:∀e∈front,e.1 ≤ clock) (han:IsAnswer id answer.2) :
 callsUntil clock (front++answer::rest) =
  (front.filter fun e=>isCall e.2).map Prod.snd++callsUntil clock rest := by
 have hno:isCall answer.2=false:=by simp [isCall,han.2]
 have hf:front.filter (fun e=>e.1 ≤ clock && isCall e.2) =
  front.filter fun e=>isCall e.2 := by
  apply filter_congr
  intro e he
  simp [hp e he]
 simp [callsUntil,hf,hno]

theorem callsUntil_eq_nil_iff :
 callsUntil clock rest=[] ↔ ∀e∈rest,e.1 ≤ clock → isCall e.2=false := by
 simp [callsUntil]

theorem passed_eq_callsUntil_iff (hp:∀e∈front,e.1 ≤ clock)
 (han:IsAnswer id answer.2) :
 passed id deadline [] front=callsUntil clock (front++answer::rest) ↔
  (∀before e after,front=before++e::after → isCall e.2=true →
   recognized e.2=true ∧ reaches id deadline before e=true) ∧
  ∀e∈rest,e.1 ≤ clock → isCall e.2=false := by
 have hca:passed id deadline [] front=(front.filter fun e=>isCall e.2).map Prod.snd ↔ _:=
  passed_eq_calls_iff
 simp only [nil_append] at hca
 rw [callsUntil_answered hp han,←hca,←callsUntil_eq_nil_iff]
 constructor
 · intro heq
   have hl:=@length_passed_le id deadline [] front
   have hn:callsUntil clock rest=[]:=by
    apply eq_nil_of_length_eq_zero
    have := congrArg List.length heq
    rw [length_append,length_map] at this
    omega
   rw [hn,append_nil] at heq
   exact ⟨heq,hn⟩
 · rintro ⟨heq,hn⟩
   rw [heq,hn,append_nil]

theorem sendRequestWait_answered {s s' : Supervisor} {process : Process}
 {emitted : List (Nat × Json)} {method : String} {params : Json} {timeout : Nat}
 {failurePhase : FailurePhase} {timeoutClass : TimeoutClass} {handler : HostHandler}
 {fuel : Nat} {value : Json} (hprocess:s.process=some process)
 (hem:process.Emits emitted)
 (hr:s.sendRequestWait method params timeout failurePhase timeoutClass handler fuel =
  some (s',.ok value)) :
 ∃front time message rest,emitted=front++(time,message)::rest ∧
  Answered handler s.nextRequestId (s.clock+timeout) s.clock s s' value front time message
   rest := by
 unfold Supervisor.sendRequestWait at hr
 dsimp only at hr
 cases hwr : Supervisor.writeMessage { s with nextRequestId := s.nextRequestId+1 }
  (.request (jsonrpcRequest s.nextRequestId method params)) with
 | error text =>
  rw [hwr] at hr
  cases hr
 | ok s₁ =>
  rw [hwr] at hr
  obtain ⟨p,hp,rfl⟩:=writeMessage_eq_ok hwr
  obtain rfl : process=p := Option.some.inj (hprocess.symm.trans hp)
  refine @Progress.run _ _ _ s _ [] emitted _ _ _ ?_ hr
  refine Progress.initially (congrArg some (written_of_scripted hem.scripted _ _)) hem
   (Nat.le_add_right _ _) rfl ?_
  simp [repliesOf,Outgoing.reply?]

end

theorem workerCalls_reach_iff (s s' : Supervisor) (process : Process)
 (emitted : List (Nat × Json)) (method : String) (params : Json) (timeout : Nat)
 (failurePhase : FailurePhase) (timeoutClass : TimeoutClass) (handler : HostHandler)
 (fuel : Nat) (value : Json) (hprocess : s.process = some process)
 (hemits : process.Emits emitted)
 (hrun : s.sendRequestWait method params timeout failurePhase timeoutClass handler fuel =
  some (s',.ok value)) :
 (s'.handled = s.handled++callsUntil s'.clock emitted ∧
  repliesOf s' = repliesOf s++responses handler s.handled (callsUntil s'.clock emitted) ∧
  ∃ e ∈ emitted,e.1 ≤ s'.clock ∧ IsAnswer s.nextRequestId e.2 ∧
   messageResult e.2 = some value) ↔
 CallsReach s.nextRequestId (s.clock+timeout) s.clock emitted := by
 obtain ⟨front,time,message,rest,rfl,han⟩:=
  sendRequestWait_answered hprocess hemits hrun
 have hca:passed s.nextRequestId (s.clock+timeout) [] front =
  callsUntil s'.clock (front++(time,message)::rest) ↔ _ :=
  passed_eq_callsUntil_iff han.past han.answer
 constructor
 · rintro ⟨hh,-,-⟩
   rw [han.handled] at hh
   obtain ⟨hf,hr⟩:=hca.mp (append_cancel_left hh)
   rw [han.clock] at hr
   exact ⟨front,(time,message),rest,rfl,han.answer,han.unanswered,hf,hr⟩
 · rintro ⟨front',answer,rest',heq,hans,hu,hf,hr⟩
   obtain ⟨rfl,rfl,rfl⟩:=first_answer_unique heq han.unanswered han.answer
    hu hans
   have hal:=hca.mpr ⟨hf,by rw [han.clock]; exact hr⟩
   refine ⟨?_,?_,(time,message),by simp,?_,han.answer,han.result⟩
   · rw [han.handled,hal]
   · rw [han.replies,hal]
   · rw [han.clock]
     exact Nat.le_max_right _ _

def callAt (time id : Nat) : Nat × Json := (time,jsonrpcRequest id "query.search" .null)

def answerAt (time id : Nat) : Nat × Json :=
 (time,.object [("id",.unsigned id),("result",.null)])

theorem emits_queued {emitted : List (Nat × Json)} (h:emitted.Pairwise fun a b=>a.1 ≤ b.1) :
 Process.Emits { inbox := queued emitted } emitted :=
 ⟨rfl,⟨[],(append_nil _).symm,fun e he=>by cases he⟩,h⟩

def shortSession (emitted : List (Nat × Json)) :
 Option (Supervisor × Except WorkerSupervisorError Json) :=
 (attending { inbox := queued emitted }).sendRequestWait "session.runCommand" .null 10 .request
  .requestTimeout (fun _ _ => some .null) 5

theorem exists_ok_of_any {run : Option (Supervisor × Except WorkerSupervisorError Json)}
 {p : Supervisor → Bool} (h:run.any (fun r=>r.2.toBool && p r.1)=true) :
 ∃s' value,run=some (s',.ok value) ∧ p s'=true := by
 obtain ⟨⟨s',_|value⟩,hr,hp⟩:=(Option.any_eq_true _ _).mp h
 · cases hp
 · exact ⟨s',value,hr,(Bool.and_eq_true_iff.mp hp).2⟩

/-- The worker calls, with the very number of the request, before it answers. -/
theorem workerCalls_reach_iff_once :
 ∃ s' value,shortSession [callAt 1 2,answerAt 2 2] = some (s',.ok value) ∧
  s'.handled = callsUntil s'.clock [callAt 1 2,answerAt 2 2] := by
 obtain ⟨s',value,hru,-⟩:=@exists_ok_of_any (shortSession [callAt 1 2,answerAt 2 2])
  (fun _=>true) (by decide +kernel)
 have hr:CallsReach 2 10 0 [callAt 1 2,answerAt 2 2]:=by
  refine ⟨[callAt 1 2],answerAt 2 2,[],rfl,⟨rfl,rfl⟩,?_,?_,fun e he=>by cases he⟩
  · intro e he h
    rw [mem_singleton.mp he] at h
    cases h.2
  · intro before e after heq _
    cases before with
    | nil =>
     cases heq
     exact ⟨rfl,rfl⟩
    | cons b before =>
     cases before <;> cases heq
 have hal:=(workerCalls_reach_iff _ s' _ _ "session.runCommand" .null 10 .request .requestTimeout
  (fun _ _=>some .null) 5 value rfl (emits_queued (by decide)) hru).mpr hr
 exact ⟨s',value,hru,hal.1⟩

/-- The deadline has passed, and the call in front of the answer is dropped. -/
theorem workerCalls_lost :
 ∃ s' value,shortSession [callAt 20 7,answerAt 30 2] = some (s',.ok value) ∧
  s'.handled≠callsUntil s'.clock [callAt 20 7,answerAt 30 2] := by
 obtain ⟨s',value,hr,hl⟩:=@exists_ok_of_any (shortSession [callAt 20 7,answerAt 30 2])
  (fun s=>s.handled.length≠(callsUntil s.clock [callAt 20 7,answerAt 30 2]).length)
  (by decide +kernel)
 exact ⟨s',value,hr,fun h=>of_decide_eq_true hl (congrArg List.length h)⟩

end DhKit.Workers
