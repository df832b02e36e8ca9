import Mathlib.Data.List.Nodup
import DhKit.BridgeClient

/-!
# Requests and their answers

Answers, timers, write errors, the child process and `close` all settle requests out of one map.
-/
namespace DhKit.Bridge
open JsonRpc StreamFrames List

/-- The client's books are right, and what was done by a certain time is still done. -/
structure Correlated (env : ClientEnv) (done : List Nat) (c : Client) : Prop where
 keys : ∀ id,id ∈ c.pending.map Prod.fst ↔ id ∈ c.issued ∧ id ∉ c.settled.map Prod.fst
 timers : c.timers.map Prod.fst = c.pending.map Prod.fst
 unique : (c.pending.map Prod.fst).Nodup
 once : (c.settled.map Prod.fst).Nodup
 known : ∀ id ∈ c.settled.map Prod.fst,id ∈ c.issued
 own : ∀ id response,(id,Settlement.resolved response) ∈ c.settled →
  response.get "id" = some (.unsigned id) ∧
   ∃ codec body,env.wire.decodeTs codec body = some response
 distinct : c.issued.Nodup
 fresh : ∀ id ∈ c.issued,id < c.nextRequestId
 kept : ∀ id ∈ done,id ∈ c.settled.map Prod.fst
 shut : c.closed = true → c.pending = []

section
variable (c : Client) (id : Nat) (settlement : Settlement)

@[simp] theorem settle_keys :
 (c.settle id settlement).pending.map Prod.fst =
  (c.pending.map Prod.fst).filter (· ≠ id) := by
 rw [filter_map]
 rfl

@[simp] theorem settle_timers :
 (c.settle id settlement).timers.map Prod.fst=(c.timers.map Prod.fst).filter (· ≠ id) := by
 rw [filter_map]
 rfl

@[simp] theorem settle_settled :
 (c.settle id settlement).settled.map Prod.fst=c.settled.map Prod.fst++[id] :=
 map_append

end

section
variable {env : ClientEnv} {done : List Nat} {c : Client} {c' : Client} {id : Nat} {c'' : Client}

def Answers (env : ClientEnv) (id : Nat) (settlement : Settlement) : Prop :=
 ∀ response,settlement = .resolved response → response.get "id" = some (.unsigned id) ∧
  ∃ codec body,env.wire.decodeTs codec body = some response

theorem answers_rejected (id : Nat) (e : DhBridgeError) : Answers env id (.rejected e) :=
 fun _ h=>by cases h

theorem Correlated.settle (h:Correlated env done c) {settlement : Settlement}
 (hp:id∈c.pending.map Prod.fst) (han:Answers env id settlement) :
 Correlated env done (c.settle id settlement) where
 keys := by
  intro k
  rw [settle_keys,settle_settled,mem_filter,h.keys k,mem_append,mem_singleton,decide_eq_true_eq,
   not_or,and_assoc]
  rfl
 timers := by rw [settle_timers,settle_keys,h.timers]
 unique := by
  rw [settle_keys]
  exact h.unique.filter _
 once := by
  have hn:=((h.keys id).mp hp).2
  rw [settle_settled]
  exact nodup_append.mpr ⟨h.once,nodup_singleton id,fun k hk x hx=>by
   rw [mem_singleton.mp hx]
   rintro rfl
   exact hn hk⟩
 known := by
  intro k hk
  rw [settle_settled,mem_append,mem_singleton] at hk
  rcases hk with hk|rfl
  · exact h.known k hk
  · exact ((h.keys k).mp hp).1
 own := by
  intro k response hk
  rcases mem_append.mp hk with hk|hk
  · exact h.own k response hk
  · cases mem_singleton.mp hk
    exact han response rfl
 distinct := h.distinct
 fresh := h.fresh
 kept := by
  intro k hk
  rw [settle_settled,mem_append]
  exact .inl (h.kept k hk)
 shut := by
  intro hcl
  have hni:=h.shut hcl
  rw [hni] at hp
  cases hp

theorem failAll_foldl (createError : Nat → BridgeFailurePhase → DhBridgeError)
 (entries : List (Nat × BridgeFailurePhase)) (h:Correlated env done c)
 (heq:c.pending=entries) (hn:(entries.map Prod.fst).Nodup) :
 Correlated env done (entries.foldl
  (fun c entry=>c.settle entry.1 (.rejected (createError entry.1 entry.2))) c) ∧
 (entries.foldl
  (fun c entry=>c.settle entry.1 (.rejected (createError entry.1 entry.2))) c).pending=[] := by
 induction entries generalizing c with
 | nil => exact ⟨h,heq⟩
 | cons entry entries ih =>
  obtain ⟨hno,hn⟩:=nodup_cons.mp hn
  have hp:entry.1∈c.pending.map Prod.fst:=by
   rw [heq]
   exact mem_cons_self
  refine ih (h.settle hp (answers_rejected _ _)) ?_ hn
  -- the entry is gone and the others are still there
  change c.pending.filter (·.1≠entry.1)=entries
  rw [heq,filter_cons_of_neg (by simp),filter_eq_self]
  intro e he
  rw [decide_eq_true_eq]
  exact fun hsa=>hno (hsa ▸ mem_map_of_mem he)

section
variable (h : Correlated env done c)
include h

theorem Correlated.failAllPending (createError : Nat → BridgeFailurePhase → DhBridgeError) :
 Correlated env done (c.failAllPending createError) ∧ (c.failAllPending createError).pending=[] :=
 failAll_foldl createError c.pending h rfl h.unique

theorem Correlated.next_notMem : c.nextRequestId ∉ c.issued :=
 fun hme=>Nat.lt_irrefl _ (h.fresh _ hme)

theorem Correlated.next_unsettled :
 c.nextRequestId ∉ c.settled.map Prod.fst :=
 fun hme=>h.next_notMem (h.known _ hme)

theorem Correlated.issued_next :
 (c.issued++[c.nextRequestId]).Nodup ∧
  ∀id∈c.issued++[c.nextRequestId],id < c.nextRequestId+1 := by
 refine ⟨nodup_append.mpr ⟨h.distinct,nodup_singleton _,fun k hk x hx=>?_⟩,?_⟩
 · rw [mem_singleton.mp hx]
   exact Nat.ne_of_lt (h.fresh k hk)
 · intro k hk
   rcases mem_append.mp hk with hk|hk
   · exact Nat.lt_succ_of_lt (h.fresh k hk)
   · rw [mem_singleton.mp hk]
     exact Nat.lt_succ_self _

theorem Correlated.issueSettled (e : DhBridgeError) :
 Correlated env done { c with
  nextRequestId := c.nextRequestId+1
  issued := c.issued++[c.nextRequestId]
  settled := c.settled++[(c.nextRequestId,.rejected e)] } where
 keys := by
  intro k
  have hk:=h.keys k
  simp only [map_append,map_cons,map_nil,mem_append,mem_singleton]
  rw [hk]
  constructor
  · rintro ⟨hi,ho⟩
    exact ⟨.inl hi,fun hor=>hor.elim ho fun heq=>h.next_notMem (heq ▸ hi)⟩
  · rintro ⟨hi|heq,ho⟩
    · exact ⟨hi,fun hs=>ho (.inl hs)⟩
    · exact absurd (.inr heq) ho
 timers := h.timers
 unique := h.unique
 once := by
  rw [map_append]
  refine nodup_append.mpr ⟨h.once,nodup_singleton _,fun k hk x hx=>?_⟩
  rw [mem_singleton.mp hx]
  rintro rfl
  exact h.next_unsettled hk
 known := by
  intro k hk
  rw [map_append] at hk
  exact mem_append.mpr ((mem_append.mp hk).imp_left (h.known k))
 own := by
  intro k response hk
  rcases mem_append.mp hk with hk|hk
  · exact h.own k response hk
  · cases mem_singleton.mp hk
 distinct := h.issued_next.1
 fresh := h.issued_next.2
 kept := by
  intro k hk
  rw [map_append]
  exact mem_append_left _ (h.kept k hk)
 shut := h.shut

theorem Correlated.issue (ho:c.closed=false)
 (phase : BridgeFailurePhase) (timer : RequestTimer) :
 Correlated env done { c with
  nextRequestId := c.nextRequestId+1
  issued := c.issued++[c.nextRequestId]
  timers := c.timers++[(c.nextRequestId,timer)]
  pending := c.pending++[(c.nextRequestId,phase)] } where
 keys := by
  intro k
  rw [map_append,mem_append,h.keys k,mem_append]
  constructor
  · rintro (⟨hi,hwa⟩|hk)
    · exact ⟨.inl hi,hwa⟩
    · rw [mem_singleton.mp hk]
      exact ⟨.inr mem_cons_self,h.next_unsettled⟩
  · rintro ⟨hi|hk,hwa⟩
    · exact .inl ⟨hi,hwa⟩
    · exact .inr hk
 timers := by
  rw [map_append,map_append,h.timers]
  rfl
 unique := by
  rw [map_append]
  refine nodup_append.mpr ⟨h.unique,nodup_singleton _,fun k hk x hx=>?_⟩
  rw [mem_singleton.mp hx]
  rintro rfl
  exact h.next_notMem ((h.keys _).mp hk).1
 once := h.once
 known := fun k hk=>mem_append_left _ (h.known k hk)
 own := h.own
 distinct := h.issued_next.1
 fresh := h.issued_next.2
 kept := h.kept
 shut := fun hcl=>absurd hcl (by rw [ho]; exact Bool.false_ne_true)

end

/-! ## The child processes

Most events leave the processes alone: they settle requests and make new ones. -/

structure SameProcesses (c c' : Client) : Prop where
 closed : c'.closed = c.closed
 child : c'.child = c.child
 children : c'.children = c.children

theorem SameProcesses.trans (h:SameProcesses c c') (h':SameProcesses c' c'') :
 SameProcesses c c'' :=
 ⟨h'.closed.trans h.closed,h'.child.trans h.child,h'.children.trans h.children⟩

theorem SameProcesses.failAllPending (c : Client)
 (createError : Nat → BridgeFailurePhase → DhBridgeError) :
 SameProcesses c (c.failAllPending createError) := by
 unfold Client.failAllPending
 generalize c.pending=entries
 induction entries generalizing c with
 | nil => exact ⟨rfl,rfl,rfl⟩
 | cons entry entries ih =>
  have hse:SameProcesses c
   (c.settle entry.1 (.rejected (createError entry.1 entry.2))) := ⟨rfl,rfl,rfl⟩
  exact hse.trans (ih _)

structure Moves (env : ClientEnv) (c c' : Client) : Prop where
 books : ∀ {done},Correlated env done c → Correlated env done c'
 processes : SameProcesses c c'

theorem mem_keys_of_any (h:c.pending.any (·.1=id)=true) :
 id∈c.pending.map Prod.fst := by
 obtain ⟨entry,hen,heq⟩:=any_eq_true.mp h
 exact mem_map.mpr ⟨entry,hen,of_decide_eq_true heq⟩

theorem applyNegotiatedTransport_eq {resultTransport : Option Json}
 {capabilitiesTransport : Option BridgeTransportSnapshot}
 (h:c.applyNegotiatedTransport env resultTransport capabilitiesTransport = .ok c') :
 ∃codec maxFrameBytes,isValidBridgeMaxFrameBytes maxFrameBytes=true ∧
  c'={ c with activeCodec := codec,maxFrameBytes } := by
 unfold Client.applyNegotiatedTransport at h
 dsimp only at h
 split at h
 · cases h
 rename_i maxFrameBytes _
 split at h
 · cases h
 rename_i hv
 split at h
 · cases h
 split at h
 · cases h
 · cases h
   exact ⟨_,maxFrameBytes,by simpa using hv,rfl⟩

theorem completeInitialize_eq {response : Json} (h:c.completeInitialize env response = .ok c') :
 ∃codec maxFrameBytes,isValidBridgeMaxFrameBytes maxFrameBytes=true ∧
  c'={ c with activeCodec := codec,maxFrameBytes,initialized := true } := by
 unfold Client.completeInitialize at h
 split at h
 · cases h
 dsimp only at h
 split at h
 · cases h
 split at h
 · cases h
 rename_i transport _
 generalize hap : c.applyNegotiatedTransport env _ transport=applied at h
 cases applied with
 | error e => cases h
 | ok c₁ =>
  obtain ⟨codec,maxFrameBytes,hv,rfl⟩:=applyNegotiatedTransport_eq hap
  cases h
  exact ⟨codec,maxFrameBytes,hv,rfl⟩

theorem mem_keys_of_find {α : Type} {entries : List (Nat × α)} {entry : Nat × α}
 (h:entries.find? (·.1=id)=some entry) : id∈entries.map Prod.fst := by
 have heq:entry.1=id:=by simpa using find?_some h
 exact heq ▸ mem_map_of_mem (mem_of_find?_eq_some h)

namespace Moves

theorem refl (c : Client) : Moves env c c := ⟨id,rfl,rfl,rfl⟩

theorem trans (h:Moves env c c') (h':Moves env c' c'') : Moves env c c'' :=
 ⟨fun hc=>h'.books (h.books hc),h.processes.trans h'.processes⟩

section
variable (c : Client)

theorem failAllPending (createError : Nat → BridgeFailurePhase → DhBridgeError) :
 Moves env c (c.failAllPending createError) :=
 ⟨fun h=>(h.failAllPending createError).1,.failAllPending c createError⟩

theorem nextRequest (method : String) (params : Option Json)
 (phase : BridgeFailurePhase) (timeoutMs : Nat) :
 Moves env c (c.nextRequest env method params phase timeoutMs) := by
 unfold Client.nextRequest Client.request
 dsimp only
 split
 · exact ⟨fun h=>h.issueSettled _,rfl,rfl,rfl⟩
 rename_i ho
 have ho:c.closed=false:=Bool.eq_false_iff.mpr ho
 split
 · exact ⟨fun h=>h.issueSettled _,rfl,rfl,rfl⟩
 split
 · refine ⟨fun h=>?_,rfl,rfl,rfl⟩
   exact (h.issue ho phase { method,phase,timeoutMs }).settle (by simp)
    (answers_rejected _ _)
 · exact ⟨fun h=>{ h.issue ho phase { method,phase,timeoutMs } with },rfl,rfl,rfl⟩

theorem receive (body : Bytes) : Moves env c (c.receive env body).1 := by
 unfold Client.receive
 split
 · exact failAllPending c fun _=>Client.decodeFailure c.activeCodec (env.decodeError body)
 rename_i parsed hde
 unfold Client.decodeRpcBody at hde
 split_ifs at hde
 unfold Client.deliver
 split
 · exact refl c
 split
 · exact refl c
 rename_i id hid
 split
 · rename_i han
   refine ⟨fun h=>h.settle (mem_keys_of_any han) fun response hr=>?_,
    rfl,rfl,rfl⟩
   cases hr
   exact ⟨get_id_of_messageId hid,_,body,hde⟩
 · exact refl c

theorem onData (chunk : Bytes) : Moves env c (c.onData env chunk) := by
 have hdr:Moves env c
  ((Client.frameReader env c.maxFrameBytes).feed (c.readBuffer,c) chunk).2 :=
  Reader.drain_invariant _ (fun c' body hc=>hc.trans (receive c' body))
   (fun c' fault hc=>hc.trans
    (failAllPending c' fun _=>Client.frameError c.maxFrameBytes fault)) _ _ _ (refl c)
 exact hdr.trans ⟨fun h=>{ h with },rfl,rfl,rfl⟩

theorem resume (n : Nat) : Moves env c (c.resume env n) := by
 unfold Client.resume
 split
 · exact refl c
 rename_i call state _
 have hca:Moves env c (c.resumeCall env call state).1:=by
  unfold Client.resumeCall
  split
  · split
    · exact refl c
    · exact refl c
    split
    · exact refl c
    · rename_i c' hok
      obtain ⟨codec,maxFrameBytes,-,rfl⟩:=completeInitialize_eq hok
      exact ⟨fun h=>{ h with },rfl,rfl,rfl⟩
  · unfold Client.proceed
    split
    · exact refl c
    · exact nextRequest c _ _ _ _
    · exact refl c
    · exact nextRequest c _ _ _ _
    · exact nextRequest c _ _ _ _
  · split <;> exact refl c
  · exact refl c
 exact hca.trans ⟨fun h=>{ h with },rfl,rfl,rfl⟩

theorem onTimer (id : Nat) : Moves env c (c.onTimer id) := by
 unfold Client.onTimer
 split
 · exact refl c
 rename_i number timer hf
 refine ⟨fun h=>?_,rfl,rfl,rfl⟩
 have hme:=mem_keys_of_find hf
 rw [h.timers] at hme
 exact h.settle hme (answers_rejected id (Client.timeoutError timer))

theorem onWriteError (id : Nat) (text : String) :
 Moves env c (c.onWriteError id text) := by
 unfold Client.onWriteError
 split
 · exact refl c
 · rename_i hf
   exact ⟨fun h=>h.settle (mem_keys_of_find hf) (answers_rejected id _),rfl,rfl,rfl⟩

end

end Moves

theorem Correlated.beginCall (h:Correlated env done c) (call : PublicCall) (repoRoot : String)
 (spawn : Client.SpawnOutcome) : Correlated env done (c.beginCall env call repoRoot spawn) := by
 have hi:Correlated env done (c.ensureInitialized env repoRoot spawn).1:=by
  unfold Client.ensureInitialized
  split
  · exact h
  split
  · exact h
  · have hch:Correlated env done (c.withChild spawn):={ h with }
    exact (Moves.nextRequest _ _ _ _ _).books hch
 exact { hi with }

theorem Correlated.onChildExit (h:Correlated env done c) (n : Nat) (text : String) :
 Correlated env done (c.onChildExit n text) := by
 unfold Client.onChildExit
 have hch:Correlated env done (c.setChild n fun child=>{ child with running:=false }) :=
  { h with }
 dsimp only
 split
 · exact hch
 · exact (hch.failAllPending _).1

theorem foldl_settle_close (createError : Nat → BridgeFailurePhase → DhBridgeError)
 (child : Option Nat) (entries : List (Nat × BridgeFailurePhase)) (c : Client) :
 entries.foldl (fun c entry=>c.settle entry.1 (.rejected (createError entry.1 entry.2)))
  { c with closed := true,child } =
 { entries.foldl (fun c entry=>c.settle entry.1 (.rejected (createError entry.1 entry.2))) c
   with closed := true,child } := by
 induction entries generalizing c with
 | nil => rfl
 | cons entry entries ih =>
  rw [foldl_cons,foldl_cons,←ih]
  rfl

theorem Correlated.close (h:Correlated env done c) : Correlated env done c.close := by
 unfold Client.close
 split
 · exact h
 dsimp only
 obtain ⟨hal,hnone⟩:=h.failAllPending Client.closeError
 have hcl:({ c with closed:=true,child := none } : Client).failAllPending
  Client.closeError =
  { c.failAllPending Client.closeError with closed := true,child := none } :=
  foldl_settle_close Client.closeError none c.pending c
 rw [hcl]
 split
 · exact { hal with shut := fun _=>hnone }
 · exact { hal with shut := fun _=>hnone }

theorem Correlated.step (h:Correlated env done c) (event : ClientEvent) :
 Correlated env done (c.step env event) := by
 cases event with
 | call call repoRoot spawn => exact h.beginCall call repoRoot spawn
 | resume n => exact (Moves.resume c n).books h
 | data chunk => exact (Moves.onData c chunk).books h
 | timer id => exact (Moves.onTimer c id).books h
 | writeError id text => exact (Moves.onWriteError c id text).books h
 | childError n text =>
  change Correlated env done (c.onChildError text)
  exact (h.failAllPending _).1
 | childExit n text => exact h.onChildExit n text
 | close => exact h.close

end

variable {env : ClientEnv} {done : List Nat} {c : Client}

theorem step_closed (h:c.closed=true) (event : ClientEvent) :
 (c.step env event).closed=true := by
 cases event with
 | call call repoRoot spawn =>
  change (c.ensureInitialized env repoRoot spawn).1.closed=true
  unfold Client.ensureInitialized
  split
  · exact h
  · split
    · exact h
    · exact (Moves.nextRequest (c.withChild spawn) _ _ _ _).processes.closed.trans h
 | resume n => exact (@Moves.resume env c n).processes.closed.trans h
 | data chunk => exact (@Moves.onData env c chunk).processes.closed.trans h
 | timer id => exact (@Moves.onTimer env c id).processes.closed.trans h
 | writeError id text => exact (@Moves.onWriteError env c id text).processes.closed.trans h
 | childError n text => exact (SameProcesses.failAllPending c _).closed.trans h
 | childExit n text =>
  change (if c.closed=true then _ else _ : Client).closed=true
  rw [if_pos h]
  exact h
 | close =>
  change c.close.closed=true
  rw [Client.close,if_pos h]
  exact h

theorem close_closed (c : Client) : c.close.closed=true := by
 unfold Client.close
 split
 · assumption
 dsimp only
 split
 · exact (SameProcesses.failAllPending _ _).closed
 · exact (SameProcesses.failAllPending _ _).closed

def Client.initial (startupTimeoutMs requestTimeoutMs : Nat) : Client :=
 { startupTimeoutMs,requestTimeoutMs }

theorem correlated_initial (env : ClientEnv) (startupTimeoutMs requestTimeoutMs : Nat) :
 Correlated env [] (.initial startupTimeoutMs requestTimeoutMs) := by
 constructor <;> simp [Client.initial]

theorem Correlated.run (h:Correlated env done c)
 (events : List ClientEvent) : Correlated env done (c.run env events) := by
 induction events generalizing c with
 | nil => exact h
 | cons event events ih => exact ih (h.step event)

theorem run_closed (h:c.closed=true)
 (events : List ClientEvent) : (c.run env events).closed=true := by
 induction events generalizing c with
 | nil => exact h
 | cons event events ih => exact ih (step_closed h event)

theorem closed_of_mem {events : List ClientEvent}
 (h:.close∈events) : (c.run env events).closed=true := by
 obtain ⟨before,after,rfl⟩:=append_of_mem h
 unfold Client.run
 rw [foldl_append,foldl_cons]
 exact run_closed (close_closed _) after

/-- A timer that fires settles its request, if nothing has settled it before. -/
theorem Correlated.timerFired (h:Correlated env done c) {id : Nat} (hi:id∈c.issued) :
 Correlated env [id] (c.onTimer id) := by
 have hm:=(@Moves.onTimer env c id).books h
 refine { hm with kept := fun k hk=>?_ }
 rw [mem_singleton.mp hk]
 unfold Client.onTimer
 split
 · next hf =>
   by_contra ho
   have hp:=(h.keys id).mpr ⟨hi,ho⟩
   rw [←h.timers] at hp
   obtain ⟨entry,hen,heq⟩:=mem_map.mp hp
   simpa [heq] using find?_eq_none.mp hf entry hen
 · rw [settle_settled]
   exact mem_append_right _ mem_cons_self

/-- In every run the map of pending requests holds exactly those made and not settled; none is
settled twice; a promise is resolved with a decoded message of its own id; requests whose timer
fires after they were made, and all requests of a client that was closed, are settled; ids are not
used again. -/
theorem requests_correlated (env : ClientEnv) (startupTimeoutMs requestTimeoutMs : Nat)
 (events : List ClientEvent) :
 let client := Client.initial startupTimeoutMs requestTimeoutMs
 let c := client.run env events
 (∀ id,id ∈ c.pending.map Prod.fst ↔ id ∈ c.issued ∧ id ∉ c.settled.map Prod.fst) ∧
 (c.settled.map Prod.fst).Nodup ∧
 (∀ id response,(id,Settlement.resolved response) ∈ c.settled →
  response.get "id" = some (.unsigned id) ∧
   ∃ codec body,env.wire.decodeTs codec body = some response) ∧
 (∀ before id after,events = before++.timer id::after → id ∈ (client.run env before).issued →
  id ∈ c.settled.map Prod.fst) ∧
 (.close ∈ events → ∀ id ∈ c.issued,id ∈ c.settled.map Prod.fst) ∧
 c.issued.Nodup ∧ ∀ id ∈ c.issued,id < c.nextRequestId := by
 intro client c
 have hin:Correlated env [] client:=correlated_initial env startupTimeoutMs requestTimeoutMs
 have h:Correlated env [] c:=hin.run events
 refine ⟨h.keys,h.once,h.own,?_,fun hcl id hi=>?_,h.distinct,h.fresh⟩
 · intro before id after he hi
   have hc:c=((client.run env before).onTimer id).run env after := by
    unfold c Client.run
    rw [he,foldl_append]
    rfl
   rw [hc]
   exact (((hin.run before).timerFired hi).run after).kept id mem_cons_self
 · by_contra ho
   have hp:=(h.keys id).mpr ⟨hi,ho⟩
   rw [h.shut (closed_of_mem hcl)] at hp
   cases hp

def deafEnv : ClientEnv where
 wire := ⟨fun _ _ => [],fun _ _ => [],fun _ _ => none,fun _ _ => none⟩
 bridgeCodec := none
 inFrameRange := fun _ => false
 decodeError := fun _ => ""

/-- A call whose timer fires before an answer came: its request is settled. -/
theorem requests_correlated_timer :
 1 ∈ ((Client.initial 10000 10000).run deafEnv
  [.call .getRuntimePing "/" .started,.timer 1]).settled.map Prod.fst :=
 (requests_correlated deafEnv 10000 10000 [.call .getRuntimePing "/" .started,.timer 1]).2.2.2.1
  [.call .getRuntimePing "/" .started] 1 [] rfl (mem_singleton.mpr rfl)

end DhKit.Bridge
