import DhKit.SessionHistories

/-!
# How a session ends

Only activation and transition look at the status of a session, and completion does not look at the
last gate.
-/
namespace DhKit.Sessions
open KeyedTables CommitRules StatementFaults Database List

def SessionStatus.isFinished : SessionStatus → Bool
 | .completed | .failed => true
 | .pending | .active | .paused | .cancelled => false

inductive StatusMove : SessionStatus → SessionStatus → Prop
 | stay (status : SessionStatus) : StatusMove status status
 | activate : StatusMove .pending .active
 | complete : StatusMove .active .completed
 | fail : StatusMove .active .failed
 | failPending : StatusMove .pending .failed

section
variable (db : Database) (sessionId : String) (calls : List Call)

/-- The gate of a stage was passed or waived by one of the calls. -/
def GateSet (stage : String) : Prop :=
 ∃ before call after,calls = before++call::after ∧ call.sessionId = sessionId ∧
  (call.request = .passGate ∨ call.request = .waiveGate) ∧
  (call.perform (performAll db before)).1 = .ok () ∧
  ∃ session,(performAll db before).getSession sessionId = some session ∧
   session.currentStage = stage

structure Lawful (earlier : List Call) (call : Call) :
 Prop where
 starts : (performAll db earlier).getSession sessionId = none →
  ∀ session',(call.perform (performAll db earlier)).2.getSession sessionId = some session' →
   session'.status = .pending
 moves : ∀ session,(performAll db earlier).getSession sessionId = some session →
  ∃ session',(call.perform (performAll db earlier)).2.getSession sessionId = some session' ∧
   StatusMove session.status session'.status
 keeps : ∀ session,(performAll db earlier).getSession sessionId = some session →
  session.status.isFinished = true →
  (call.perform (performAll db earlier)).2.view sessionId =
   (performAll db earlier).view sessionId
 completes : ∀ session session',
  (performAll db earlier).getSession sessionId = some session →
  (call.perform (performAll db earlier)).2.getSession sessionId = some session' →
  session.status≠.completed → session'.status = .completed →
  session.status = .active ∧
   ∀ stage ∈ stageChainFor session.lane,GateSet db sessionId earlier stage

/-- No gate is set and no end declared once a session has ended, and none is completed before
its last gate is open. -/
def Orderly (v : View) (request : Request) : Prop :=
 ∀ session,v.session = some session → match request with
  | .passGate | .waiveGate | .failSession _ => session.status.isFinished = false
  | .completeSession => session.currentStage = finalStage session.lane →
   session.status.isFinished = false ∧
    ∃ current,currentState v.stages = some current ∧ current.gateStatus.isOpen = true
  | _ => True

/-- The rows of a session after some calls: it stands on the track of its lane, and until it
ends an open gate was set by one of the calls. -/
structure Tracked (v : View)
 (session : SessionState) (k : Nat) : Prop where
 onTrack : OnTrack sessionId session.lane v session k
 status : session.status = .pending ∨ session.status = .active ∨
  session.status.isFinished = true
 gates : session.status.isFinished = false → ∀ row ∈ v.stages,
  row.state.gateStatus.isOpen = true → GateSet db sessionId calls row.state.stage

end

section
variable {db : Database} {sessionId : String} {calls : List Call} {nowMs : Int} {v v' : View}
 {call : Call} {request : Request} {session : SessionState} {k : Nat}

theorem GateSet.concat {stage : String} (h:GateSet db sessionId calls stage) (call : Call) :
 GateSet db sessionId (calls++[call]) stage := by
 obtain ⟨before,gateCall,after,rfl,hr⟩:=h
 exact ⟨before,gateCall,after++[call],by simp,hr⟩

theorem Tracked.concat (h:Tracked db sessionId calls v session k) (call : Call) :
 Tracked db sessionId (calls++[call]) v session k :=
 ⟨h.onTrack,h.status,fun ho row hrow hgate=>(h.gates ho row hrow hgate).concat call⟩

theorem mem_map_setStatus {rows : List StageRow} {stage : String} {status : StageStatus}
 {gate : GateStatus} {row : StageRow}
 (h:row∈rows.map (setStatus sessionId stage status gate nowMs)) :
 row.state.stage=stage ∧ row.state.gateStatus=gate ∨ row∈rows := by
 obtain ⟨old,ho,rfl⟩:=mem_map.mp h
 unfold setStatus
 split_ifs with hrow
 · exact .inl ⟨hrow.2,rfl⟩
 · exact .inr ho

theorem initialStage_ne_finalStage (lane : WorkflowLane) : initialStage lane≠finalStage lane := by
 cases lane <;> decide +kernel

theorem Tracked.advances (h:Tracked db sessionId calls v session k)
 (hv:(performAll db calls).view sessionId=v) (hid:call.sessionId=sessionId)
 (hok:(call.perform (performAll db calls)).1 = .ok ())
 (hmo:Advances sessionId nowMs v call.request v') :
 ∃session' k',Tracked db sessionId (calls++[call]) v' session' k' := by
 have hf:=h.onTrack.found
 obtain ⟨session',k',htr'⟩:=h.onTrack.advances hmo
 have hga:=fun ho row hrow hgate=>(h.gates ho row hrow hgate).concat call
 generalize hr : call.request=request at hmo
 -- the gate that this call sets
 have hse:request = .passGate ∨ request = .waiveGate →
  GateSet db sessionId (calls++[call]) session.currentStage := by
  intro hgate
  refine ⟨calls,call,[],rfl,hid,hr ▸ hgate,hok,session,?_,rfl⟩
  rw [←hv] at hf
  exact hf
 cases hmo with
 | create repoRoot lane rowId => cases hf
 | resume | history | envelope => exact ⟨session,k,h.concat call⟩
 | activate s rows hstatus =>
  cases hf
  cases htr'.found
  refine ⟨{ session with status := .active,updatedAtUnixMs := nowMs },k',htr',
   .inr (.inl rfl),?_⟩
  intro _ row hrow hgate
  rcases mem_map_setStatus hrow with ⟨-,hp⟩|hol
  · rw [hp] at hgate
    cases hgate
  · exact hga (by rw [hstatus]; rfl) row hol hgate
 | move s rows nextStage rowId hma =>
  cases hf
  cases htr'.found
  have ho:session.status.isFinished=false:=by
   rw [hma.active]
   rfl
  refine ⟨{ session with currentStage := nextStage,updatedAtUnixMs := nowMs },k',htr',
   .inr (.inl hma.active),?_⟩
  intro _ row hrow hgate
  rcases mem_append.mp hrow with hrow|hrow
  · rcases mem_map_setStatus hrow with ⟨hstage,hsa⟩|hol
    · -- the gate that is written back is that of the newest row
      obtain ⟨newest,hme,hn,hst⟩:=h.onTrack.atStage.newest
      rw [AtStage.leavingGate_eq hst] at hsa
      rw [hstage,←hn]
      exact hga ho newest hme (hsa ▸ hgate)
    · exact hga ho row hol hgate
  · rw [mem_singleton.mp hrow] at hgate
    cases hgate
 | passGate s rows | waiveGate s rows =>
  cases hf
  cases htr'.found
  refine ⟨session,k',htr',h.status,?_⟩
  intro ho row hrow hgate
  rcases mem_map_setStatus hrow with ⟨hstage,-⟩|hol
  · rw [hstage]
    exact hse (by simp)
  · exact hga ho row hol hgate
 | complete s rows hfi =>
  cases hf
  cases htr'.found
  exact ⟨{ session with status := .completed,updatedAtUnixMs := nowMs },k',htr',
   .inr (.inr rfl),nofun⟩
 | fail s rows reason =>
  cases hf
  cases htr'.found
  exact ⟨{ session with status := .failed,updatedAtUnixMs := nowMs },k',htr',
   .inr (.inr rfl),nofun⟩

def AbsentOrTracked (db : Database) (sessionId : String) (calls : List Call) : Prop :=
 (performAll db calls).view sessionId = ⟨none,[]⟩ ∨
  ∃ session k,Tracked db sessionId calls ((performAll db calls).view sessionId) session k

theorem tracked_created {rowId : Nat} {repoRoot : String} {lane : WorkflowLane} :
 Tracked db sessionId calls ⟨some (newSession sessionId repoRoot lane nowMs),
  [⟨rowId,firstStage sessionId lane nowMs⟩]⟩ (newSession sessionId repoRoot lane nowMs) 0 := by
 refine ⟨⟨rfl,rfl,AtStage.start sessionId lane rowId nowMs,fun _=>rfl⟩,.inl rfl,?_⟩
 intro _ row hrow hgate
 rw [mem_singleton.mp hrow] at hgate
 cases hgate

theorem absentOrTracked_run {C : View → Request → Prop}
 (hab:db.getSession sessionId=none) (h:Heeds C db sessionId calls) :
 AbsentOrTracked db sessionId calls := by
 refine @run_invariant _ (fun calls v=>v=⟨none,[]⟩ ∨
  ∃session k,Tracked db sessionId calls v session k) db sessionId ?_ ?_ ?_ calls h
 · left
   rw [Database.view,hab,Database.listStages_of_absent hab]
 · rintro calls call v (hnone|⟨session,k,h⟩)
   · exact .inl hnone
   · exact .inr ⟨session,k,h.concat call⟩
 rintro calls call v' (hnone|⟨session,k,h⟩) hid hok _ hmo
 · rw [hnone] at hmo
   generalize call.request=request at hmo
   cases hmo with
   | create repoRoot lane rowId => exact .inr ⟨_,0,tracked_created⟩
   | resume | history => exact .inl rfl
 · exact .inr (h.advances rfl hid hok hmo)

theorem Tracked.gates_of_final (h:Tracked db sessionId calls v session k)
 (hf:session.currentStage=finalStage session.lane)
 (ho:session.status.isFinished=false) {state : WorkflowStageState}
 (hst:currentState v.stages=some state) (hgate:state.gateStatus.isOpen=true) :
 ∀stage∈stageChainFor session.lane,GateSet db sessionId calls stage := by
 have hat:=h.onTrack.atStage
 -- the current stage is the last one, so the rows hold every stage of the chain
 have hl:=index_finalStage hat.current hf
 intro stage hstage
 have hme:stage∈v.stages.map fun row=>row.state.stage:=by
  rw [hat.stages,hl,take_length]
  exact hstage
 obtain ⟨row,hrow,rfl⟩:=mem_map.mp hme
 apply h.gates ho row hrow
 obtain ⟨newest,hr,-⟩:=hat.stage_newest
 rw [hr] at hrow hst
 rcases mem_append.mp hrow with hrow|hrow
 · exact (hat.passed row hrow).2
 · rw [currentState,getLast?_append,getLast?_singleton] at hst
   rw [mem_singleton.mp hrow,Option.some.inj hst]
   exact hgate

theorem Tracked.lawful (h:Tracked db sessionId calls v session k)
 (ho:Orderly v request) (hmo:Advances sessionId nowMs v request v') :
 ∃session',v'.session=some session' ∧ StatusMove session.status session'.status ∧
  (session.status.isFinished=true → v'=v) ∧
  (session.status≠.completed → session'.status = .completed →
   session.status = .active ∧
    ∀stage∈stageChainFor session.lane,GateSet db sessionId calls stage) := by
 have hf:=h.onTrack.found
 have ho:=ho session hf
 have hsa:∀s : SessionState,s.status≠.completed → s.status = .completed →
  s.status = .active ∧
   ∀stage∈stageChainFor s.lane,GateSet db sessionId calls stage :=
  fun _ hne he=>absurd he hne
 cases hmo with
 | create repoRoot lane rowId => cases hf
 | resume | history | envelope => exact ⟨session,hf,.stay _,fun _=>rfl,hsa session⟩
 | activate s rows hstatus =>
  cases hf
  refine ⟨_,rfl,?_,?_,nofun⟩
  · rw [hstatus]
    exact .activate
  · rw [hstatus]
    exact nofun
 | move s rows nextStage rowId hma =>
  cases hf
  refine ⟨_,rfl,.stay _,?_,hsa _⟩
  rw [hma.active]
  exact nofun
 | passGate s rows | waiveGate s rows =>
  cases hf
  refine ⟨_,rfl,.stay _,?_,hsa _⟩
  rw [ho]
  exact nofun
 | complete s rows hfin =>
  cases hf
  obtain ⟨hop,state,hst,hgate⟩:=ho hfin
  have hac:session.status = .active:=by
   rcases h.status with hp|hac|hfi
   · exact absurd ((h.onTrack.currentStage_of_pending hp).symm.trans hfin)
      (initialStage_ne_finalStage _)
   · exact hac
   · rw [hop] at hfi
     cases hfi
  refine ⟨_,rfl,?_,?_,fun _ _=>⟨hac,h.gates_of_final hfin hop hst hgate⟩⟩
  · rw [hac]
    exact .complete
  · rw [hop]
    exact nofun
 | fail s rows reason =>
  refine ⟨_,rfl,?_,?_,nofun⟩
  · rcases h.status with hp|hac|hfi
    · rw [hp]
      exact .failPending
    · rw [hac]
      exact .fail
    · rw [ho] at hfi
      cases hfi
  · rw [ho]
    exact nofun

theorem Lawful.of_same (hsa:(call.perform (performAll db calls)).2.view sessionId =
 (performAll db calls).view sessionId) : Lawful db sessionId calls call := by
 have hge:(call.perform (performAll db calls)).2.getSession sessionId =
  (performAll db calls).getSession sessionId := congrArg View.session hsa
 refine ⟨?_,?_,fun _ _ _=>hsa,?_⟩
 · intro hnone session' hso
   rw [hge,hnone] at hso
   cases hso
 · intro session hso
   exact ⟨session,hge.trans hso,.stay _⟩
 intro session session' hso hso' hne he
 rw [hge,hso] at hso'
 rw [Option.some.inj hso'] at hne
 exact absurd he hne

theorem status_created (hmo:Advances sessionId nowMs ⟨none,[]⟩ request v')
 (hf:v'.session=some session) : session.status = .pending := by
 cases hmo with
 | create repoRoot lane rowId =>
  cases hf
  rfl
 | resume | history => cases hf

theorem Lawful.of_absent (hab:(performAll db calls).view sessionId=⟨none,[]⟩)
 (hmo:Advances sessionId nowMs ((performAll db calls).view sessionId) request
  ((call.perform (performAll db calls)).2.view sessionId)) :
 Lawful db sessionId calls call := by
 have hnone:(performAll db calls).getSession sessionId=none:=congrArg View.session hab
 rw [hab] at hmo
 refine ⟨fun _ session' hso=>status_created hmo hso,?_,?_,?_⟩
 · intro session hso
   cases hnone.symm.trans hso
 · intro session hso
   cases hnone.symm.trans hso
 · intro session session' hso
   cases hnone.symm.trans hso

theorem Tracked.lawful_call
 (h:Tracked db sessionId calls ((performAll db calls).view sessionId) session k)
 (ho:Orderly ((performAll db calls).view sessionId) request)
 (hmov:Advances sessionId nowMs ((performAll db calls).view sessionId) request
  ((call.perform (performAll db calls)).2.view sessionId)) :
 Lawful db sessionId calls call := by
 have hf:(performAll db calls).getSession sessionId=some session:=h.onTrack.found
 obtain ⟨session',hf',hmo,hk,hco⟩:=h.lawful ho hmov
 refine ⟨?_,?_,?_,?_⟩
 · intro hnone
   cases hf.symm.trans hnone
 · intro s hs
   obtain rfl := Option.some.inj (hf.symm.trans hs)
   exact ⟨session',hf',hmo⟩
 · intro s hs hfi
   obtain rfl := Option.some.inj (hf.symm.trans hs)
   exact hk hfi
 intro s s' hs hs'
 obtain rfl := Option.some.inj (hf.symm.trans hs)
 obtain rfl := Option.some.inj (Eq.trans (Eq.symm hf') hs')
 exact hco

theorem AbsentOrTracked.lawful (h:AbsentOrTracked db sessionId calls)
 (hst:call.sessionId=sessionId →
  ¬Torn ((performAll db calls).view sessionId) call ∧
   Orderly ((performAll db calls).view sessionId) call.request) :
 Lawful db sessionId calls call := by
 by_cases hid : call.sessionId=sessionId
 · have hca:=perform_whole (hid ▸ (hst hid).1)
   rw [hid] at hca
   rcases hca with ⟨-,hmo⟩|⟨-,hsa⟩
   · rcases h with hab|⟨session,k,h⟩
     · exact Lawful.of_absent hab hmo
     · exact h.lawful_call (hst hid).2 hmo
   · exact Lawful.of_same hsa
 · exact Lawful.of_same (perform_other call _ (Ne.symm hid))

end

/-- In every run whose calls on the session are orderly and not torn, every call keeps the law
of the session. -/
theorem session_lawful (db : Database) (sessionId : String) (calls : List Call)
 (habsent : db.getSession sessionId = none) (hsteps : Heeds Orderly db sessionId calls) :
 ∀ earlier call later,calls = earlier++call::later →
  Lawful db sessionId earlier call := by
 rintro earlier call later rfl
 have htr:=absentOrTracked_run habsent hsteps.of_append
 exact htr.lawful (hsteps earlier call later rfl)

/-- A session that is created, activated and failed. -/
theorem session_lawful_failed :
 Lawful Database.empty "s"
  [⟨"s",.createSession "/repo" .quick,0,none⟩,⟨"s",.activateSession,1,none⟩]
  ⟨"s",.failSession "stopped",2,none⟩ := by
 have hac:((performAll Database.empty [⟨"s",.createSession "/repo" .quick,0,none⟩,
  ⟨"s",.activateSession,1,none⟩]).getSession "s").map SessionState.status =
   some .active := by decide +kernel
 refine session_lawful Database.empty "s" [⟨"s",.createSession "/repo" .quick,0,none⟩,
  ⟨"s",.activateSession,1,none⟩,⟨"s",.failSession "stopped",2,none⟩] rfl ?_ _ _ [] rfl
 intro earlier call later he _
 rcases earlier with _|⟨a,_|⟨b,_|⟨c,earlier⟩⟩⟩
 · cases he
   exact ⟨not_torn_of_fault_eq_none rfl,fun _ _=>trivial⟩
 · cases he
   exact ⟨not_torn_of_fault_eq_none rfl,fun _ _=>trivial⟩
 · cases he
   refine ⟨not_torn_of_fault_eq_none rfl,fun session hse=>?_⟩
   have hse:(performAll Database.empty [⟨"s",.createSession "/repo" .quick,0,none⟩,
    ⟨"s",.activateSession,1,none⟩]).getSession "s" = some session := hse
   rw [hse,Option.map_some,Option.some.injEq] at hac
   rw [hac]
   rfl
 · simp at he

def quickCalls : List Call :=
 [⟨"s",.createSession "/repo" .quick,0,none⟩,⟨"s",.activateSession,1,none⟩,
  ⟨"s",.passGate,2,none⟩,⟨"s",.transitionStage "quick_plan",3,none⟩,
  ⟨"s",.passGate,4,none⟩,⟨"s",.transitionStage "quick_execute",5,none⟩,
  ⟨"s",.passGate,6,none⟩,⟨"s",.transitionStage "quick_verify",7,none⟩,
  ⟨"s",.passGate,8,none⟩,⟨"s",.transitionStage "quick_complete",9,none⟩]

/-- A session is completed although its last gate is pending; a completed session fails; and
a gate of a failed session is passed. -/
theorem session_unlawful :
 let completed := performAll Database.empty (quickCalls ++ [⟨"s",.completeSession,10,none⟩])
 let failed := performAll completed [⟨"s",.failSession "late",11,none⟩]
 let passed := performAll failed [⟨"s",.passGate,12,none⟩]
 ((performAll Database.empty quickCalls).getCurrentStage "s").map
  WorkflowStageState.gateStatus = some .pending ∧
  (completed.getSession "s").map SessionState.status = some .completed ∧
  (failed.getSession "s").map SessionState.status = some .failed ∧
  passed.view "s" ≠ failed.view "s" := by
 decide +kernel

end DhKit.Sessions
