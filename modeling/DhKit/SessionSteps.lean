import DhKit.SessionManager

/-!
# What one call does to the rows of its session

A call that succeeds makes one of the moves of `Advances`.
-/
namespace DhKit.Sessions
open KeyedTables CommitRules StatementFaults

structure View where
 session : Option SessionState
 stages : List StageRow
deriving DecidableEq

def Database.view (db : Database) (sessionId : String) : View :=
 ⟨db.getSession sessionId,db.listStages sessionId⟩

def newSession (sessionId repoRoot : String) (lane : WorkflowLane) (nowMs : Int) : SessionState :=
 { id := sessionId,repoRoot := repoRoot,lane := lane,laneLocked := true,
   currentStage := initialStage lane,status := .pending,semanticMode := .always,
   toolEnforcementLevel := .veryHard,createdAtUnixMs := nowMs,updatedAtUnixMs := nowMs }

def firstStage (sessionId : String) (lane : WorkflowLane) (nowMs : Int) : WorkflowStageState :=
 { sessionId := sessionId,lane := lane,stage := initialStage lane,stageStatus := .pending,
   previousStage := none,gateStatus := .pending,updatedAtUnixMs := nowMs }

def nextStageState (session : SessionState) (sessionId nextStage : String) (nowMs : Int) :
 WorkflowStageState :=
 { sessionId := sessionId,lane := session.lane,stage := nextStage,stageStatus := .inProgress,
   previousStage := some session.currentStage,gateStatus := .pending,updatedAtUnixMs := nowMs }

def currentState (rows : List StageRow) : Option WorkflowStageState :=
 rows.getLast?.map StageRow.state

def leavingGate (rows : List StageRow) : GateStatus :=
 ((currentState rows).map WorkflowStageState.gateStatus).getD .passed

structure MayMove (session : SessionState) (rows : List StageRow) (nextStage : String) : Prop where
 active : session.status = .active
 valid : isValidTransition session.lane session.currentStage nextStage = true
 gate : checkGate (currentState rows) = .ok ()

section
variable (sessionId : String) (nowMs : Int)

def activated (rows : List StageRow) (lane : WorkflowLane) : List StageRow :=
 rows.map (Database.setStatus sessionId (initialStage lane) .inProgress .pending nowMs)

def left (session : SessionState) (rows : List StageRow) : List StageRow :=
 rows.map (Database.setStatus sessionId session.currentStage .passed (leavingGate rows) nowMs)

inductive Advances : View → Request → View → Prop
 | create (repoRoot : String) (lane : WorkflowLane) (rowId : Nat) :
  Advances ⟨none,[]⟩ (.createSession repoRoot lane)
   ⟨some (newSession sessionId repoRoot lane nowMs),[⟨rowId,firstStage sessionId lane nowMs⟩]⟩
 | resume (v : View) : Advances v .resumeSession v
 | history (v : View) : Advances v .stageHistory v
 | envelope (session : SessionState) (rows : List StageRow) (agentId : String) (role : AgentRole)
  (workItemId : Option String) :
  Advances ⟨some session,rows⟩ (.createEnvelope agentId role workItemId) ⟨some session,rows⟩
 | activate (session : SessionState) (rows : List StageRow) (h : session.status = .pending) :
  Advances ⟨some session,rows⟩ .activateSession
   ⟨some { session with status := .active,updatedAtUnixMs := nowMs },
    activated sessionId nowMs rows session.lane⟩
 | move (session : SessionState) (rows : List StageRow) (nextStage : String) (rowId : Nat)
  (h : MayMove session rows nextStage) :
  Advances ⟨some session,rows⟩ (.transitionStage nextStage)
   ⟨some { session with currentStage := nextStage,updatedAtUnixMs := nowMs },
    left sessionId nowMs session rows ++
     [⟨rowId,nextStageState session sessionId nextStage nowMs⟩]⟩
 | passGate (session : SessionState) (rows : List StageRow) :
  Advances ⟨some session,rows⟩ .passGate ⟨some session,
   rows.map (Database.setStatus sessionId session.currentStage .inProgress .passed nowMs)⟩
 | waiveGate (session : SessionState) (rows : List StageRow) :
  Advances ⟨some session,rows⟩ .waiveGate ⟨some session,
   rows.map (Database.setStatus sessionId session.currentStage .inProgress .waived nowMs)⟩
 | complete (session : SessionState) (rows : List StageRow)
  (h : session.currentStage = finalStage session.lane) :
  Advances ⟨some session,rows⟩ .completeSession
   ⟨some { session with status := .completed,updatedAtUnixMs := nowMs },
    rows.map (Database.setStatus sessionId (finalStage session.lane) .passed .passed nowMs)⟩
 | fail (session : SessionState) (rows : List StageRow) (reason : String) :
  Advances ⟨some session,rows⟩ (.failSession reason)
   ⟨some { session with status := .failed,updatedAtUnixMs := nowMs },
    rows.map (Database.setStatus sessionId session.currentStage .failed .failed nowMs)⟩

end

def Rewrites (rows : List StageRow) (stage : String) (status : StageStatus) (gate : GateStatus)
 (nowMs : Int) : Prop :=
 ∃ row ∈ rows,row.state.stage = stage ∧ ¬ (row.state.stageStatus = status ∧
  row.state.gateStatus = gate ∧ row.state.updatedAtUnixMs = nowMs)

/-- A statement of the call fails after another one has changed a row: it is the insertion of
the first stage, the second write of an activation, a completion or a failure, or one of the
last two of a transition. -/
def Torn (v : View) (call : Call) : Prop :=
 match call.request with
 | .createSession _ _ => v.session = none ∧ call.fault = some 1
 | .activateSession =>
  ∃ session,v.session = some session ∧ session.status = .pending ∧ call.fault = some 2
 | .transitionStage nextStage =>
  ∃ session,v.session = some session ∧ MayMove session v.stages nextStage ∧
   (call.fault = some 4 ∨ call.fault = some 3 ∧ Rewrites v.stages session.currentStage .passed
    (leavingGate v.stages) call.nowMs)
 | .completeSession =>
  ∃ session,v.session = some session ∧ session.currentStage = finalStage session.lane ∧
   call.fault = some 2 ∧ Rewrites v.stages (finalStage session.lane) .passed .passed call.nowMs
 | .failSession _ =>
  ∃ session,v.session = some session ∧ call.fault = some 2 ∧
   Rewrites v.stages session.currentStage .failed .failed call.nowMs
 | _ => False

theorem not_torn_of_fault_eq_none {v : View} {call : Call} (h:call.fault=none) :
 ¬Torn v call := by
 unfold Torn
 cases call.request <;> simp [h]

theorem setStatus_eq_self {sessionId stage : String} {status : StageStatus} {gate : GateStatus}
 {nowMs : Int} {row : StageRow} (h:row.state.stage=stage → row.state.stageStatus=status ∧
  row.state.gateStatus=gate ∧ row.state.updatedAtUnixMs=nowMs) :
 Database.setStatus sessionId stage status gate nowMs row=row := by
 unfold Database.setStatus
 split_ifs with hrow
 · obtain ⟨rfl,rfl,rfl⟩:=h hrow.2
   rfl
 · rfl

theorem map_setStatus_eq_self_iff {sessionId stage : String} {status : StageStatus}
 {gate : GateStatus} {nowMs : Int} {rows : List StageRow}
 (ho:∀row∈rows,row.state.sessionId=sessionId) :
 rows.map (Database.setStatus sessionId stage status gate nowMs)=rows ↔
  ¬Rewrites rows stage status gate nowMs := by
 conv_lhs => rhs; rw [←List.map_id rows]
 rw [List.map_inj_left]
 constructor
 · rintro hsa ⟨row,hrow,hstage,hdi⟩
   have hf:Database.setStatus sessionId stage status gate nowMs row=row:=hsa row hrow
   rw [Database.setStatus,if_pos ⟨ho row hrow,hstage⟩] at hf
   apply hdi
   rw [←hf]
   exact ⟨rfl,rfl,rfl⟩
 · intro h row hrow
   apply setStatus_eq_self
   intro hstage
   by_contra hdi
   exact h ⟨row,hrow,hstage,hdi⟩

structure Scripted (sessionId : String) (nowMs : Int) (db : Database) (request : Request)
 (reads : Nat) (stores : List Database) : Prop where
 follows : Follows (runRequest sessionId nowMs request) db reads stores
 advances : Advances sessionId nowMs (db.view sessionId) request
  ((stores.getLastD db).view sessionId)
 others : ∀ other,other≠sessionId → ∀ db' ∈ stores,db'.view other = db.view other
 torn : ∀ n,Torn (db.view sessionId) ⟨sessionId,request,nowMs,some n⟩ ↔
  n < reads+stores.length ∧
   ((stores.take (n-reads)).getLastD db).view sessionId≠db.view sessionId

section
variable {db : Database} {sessionId nextStage : String} {nowMs : Int} {session : SessionState}
 {reads n : Nat} {stores : List Database} {α : Type} {f : SessionState → Operation α}

theorem view_of_getSession (h:db.getSession sessionId=some session) :
 db.view sessionId=⟨some session,db.listStages sessionId⟩ := by
 rw [Database.view,h]

theorem view_of_absent (h:db.getSession sessionId=none) : db.view sessionId=⟨none,[]⟩ := by
 rw [Database.view,h,Database.listStages_of_absent h]

theorem loadSession_bind (f : SessionState → Operation α) :
 loadSession sessionId >>= f=select .statementFailed (·.getSession sessionId) >>= fun found=>
  match found with
  | none => fail .sessionNotFound
  | some session => f session := by
 funext c
 change Commit.bind (Commit.bind _ _) f c=Commit.bind _ _ c
 simp only [Commit.bind,query,select]
 split_ifs
 · rfl
 · cases c.store.getSession sessionId <;> rfl

theorem follows_loadSession (hge:db.getSession sessionId=some session)
 (h:Follows (f session) db reads stores) :
 Follows (loadSession sessionId >>= f) db (reads+1) stores := by
 rw [loadSession_bind]
 refine Follows.select ?_
 rw [hge]
 exact h

theorem refuses_of_absent (hge:db.getSession sessionId=none) :
 Refuses (loadSession sessionId >>= f) db := by
 rw [loadSession_bind]
 refine Refuses.select ?_
 rw [hge]
 exact refuses_fail _

theorem refuses_loadSession (hge:db.getSession sessionId=some session)
 (h:Refuses (f session) db) : Refuses (loadSession sessionId >>= f) db := by
 rw [loadSession_bind]
 refine Refuses.select ?_
 rw [hge]
 exact h

theorem view_updateSessionStatus_other {other : String} (h:other≠sessionId)
 (status : SessionStatus) :
 (db.updateSessionStatus sessionId status nowMs).view other=db.view other := by
 simp [Database.view,h]

theorem view_updateStageStatus_other {other : String} (h:other≠sessionId) (stage : String)
 (status : StageStatus) (gate : GateStatus) :
 (db.updateStageStatus sessionId stage status gate nowMs).view other=db.view other := by
 rw [Database.view,Database.listStages_updateStageStatus_other h]
 rfl

/-- The first statement that writes leaves the rows when it fails. -/
theorem not_torn_of_one (hl:stores.length ≤ 1) : ¬(n < reads+stores.length ∧
 ((stores.take (n-reads)).getLastD db).view sessionId≠db.view sessionId) := by
 rintro ⟨hn,hv⟩
 have hz:n-reads=0:=by omega
 rw [hz] at hv
 exact hv rfl

theorem torn_second {first last : Database} : (n < 1+[first,last].length ∧
 (([first,last].take (n-1)).getLastD db).view sessionId≠db.view sessionId) ↔
  n=2 ∧ first.view sessionId≠db.view sessionId := by
 rcases n with _|_|_|n <;> simp

theorem scripted_createSession (h:db.getSession sessionId=none) (repoRoot : String)
 (lane : WorkflowLane) :
 ∃stores,Scripted sessionId nowMs db (.createSession repoRoot lane) 0 stores := by
 obtain ⟨db1,h1⟩:=Database.createSession_isSome
  (show db.getSession (newSession sessionId repoRoot lane nowMs).id=none from h)
 obtain ⟨-,hge1,hl1⟩:=Database.createSession_eq_some h1
 have hsel:sessionId=(newSession sessionId repoRoot lane nowMs).id:=rfl
 have hv1:db1.view sessionId=⟨some (newSession sessionId repoRoot lane nowMs),[]⟩:=by
  rw [Database.view,hge1,if_pos hsel,hl1,Database.listStages_of_absent h]
 have hse:(db1.getSession (firstStage sessionId lane nowMs).sessionId).isSome:=by
  rw [firstStage,hge1]
  simp [newSession]
 obtain ⟨db2,h2⟩:=Database.insertStage_isSome hse
 obtain ⟨hge2,hl2⟩:=Database.insertStage_eq_some h2
 refine ⟨[db1,db2],?_,?_,fun other hne=>?_,fun n=>?_⟩
 · refine Follows.then_pure (Follows.insert h1 ?_) ()
   exact Follows.insert h2 (follows_pure _)
 · have hv2:db2.view sessionId=⟨some (newSession sessionId repoRoot lane nowMs),
    [⟨db1.nextRowId,firstStage sessionId lane nowMs⟩]⟩ := by
    rw [Database.view,View.mk.injEq] at hv1
    rw [Database.view,hge2,hl2,hv1.1,hv1.2]
    exact congrArg _ (if_pos rfl)
   rw [view_of_absent h]
   exact hv2 ▸ .create repoRoot lane db1.nextRowId
 · have ho1:db1.view other=db.view other:=by
    rw [Database.view,hge1,hl1]
    exact congrArg (View.mk · _) (if_neg hne)
   have ho2:db2.view other=db1.view other:=by
    rw [Database.view,hge2,hl2]
    exact congrArg _ (if_neg hne)
   simp [ho1,ho2]
 · simp only [Torn]
   rcases n with _|_|n <;> simp [hv1,view_of_absent h]

theorem scripted_activateSession (hge:db.getSession sessionId=some session)
 (hstatus:session.status = .pending) :
 ∃stores,Scripted sessionId nowMs db .activateSession 1 stores := by
 let active:=db.updateSessionStatus sessionId .active nowMs
 refine ⟨[active,active.updateStageStatus sessionId (initialStage session.lane) .inProgress
  .pending nowMs],?_,?_,fun other hne=>?_,fun n=>?_⟩
 · refine follows_loadSession hge ?_
   rw [if_neg (not_not.mpr hstatus)]
   exact Follows.update (follows_update _)
 · have hmov:Advances sessionId nowMs ⟨some session,db.listStages sessionId⟩
    .activateSession _ := .activate session _ hstatus
   simpa [Database.view,hge,activated,active] using hmov
 · simp [active,view_updateStageStatus_other hne,view_updateSessionStatus_other hne]
 have hmo:active.view sessionId≠db.view sessionId:=by
  intro hsa
  have hse:=congrArg View.session hsa
  simp only [active,Database.view,Database.getSession_updateSessionStatus,if_true,hge,
   Option.map_some,Option.some.injEq] at hse
  have hstatus':=congrArg SessionState.status hse
  rw [hstatus] at hstatus'
  cases hstatus'
 rw [torn_second,and_iff_left hmo]
 simp [Torn,view_of_getSession hge,hstatus]

theorem updateStageStatus_view_ne {stage : String} {status : StageStatus} {gate : GateStatus} :
 (db.updateStageStatus sessionId stage status gate nowMs).view sessionId≠db.view sessionId ↔
  Rewrites (db.listStages sessionId) stage status gate nowMs := by
 rw [not_iff_comm,←map_setStatus_eq_self_iff fun _=>Database.sessionId_of_mem_listStages]
 simp [Database.view]

theorem scripted_completeSession (hge:db.getSession sessionId=some session)
 (hf:session.currentStage=finalStage session.lane) :
 ∃stores,Scripted sessionId nowMs db .completeSession 1 stores := by
 let passed:=db.updateStageStatus sessionId (finalStage session.lane) .passed .passed nowMs
 refine ⟨[passed,passed.updateSessionStatus sessionId .completed nowMs],?_,?_,
  fun other hne=>?_,fun n=>?_⟩
 · refine follows_loadSession hge ?_
   rw [if_neg (not_not.mpr hf)]
   exact Follows.update (follows_update _)
 · have hmo:Advances sessionId nowMs ⟨some session,db.listStages sessionId⟩
    .completeSession _ := .complete session _ hf
   simpa [Database.view,hge,passed] using hmo
 · simp [passed,view_updateStageStatus_other hne,view_updateSessionStatus_other hne]
 · rw [torn_second,updateStageStatus_view_ne]
   simp [Torn,view_of_getSession hge,hf]

theorem scripted_failSession (hge:db.getSession sessionId=some session) (reason : String) :
 ∃stores,Scripted sessionId nowMs db (.failSession reason) 1 stores := by
 let failed:=db.updateStageStatus sessionId session.currentStage .failed .failed nowMs
 refine ⟨[failed,failed.updateSessionStatus sessionId .failed nowMs],
  follows_loadSession hge (Follows.update (follows_update _)),?_,fun other hne=>?_,
  fun n=>?_⟩
 · have hmo:Advances sessionId nowMs ⟨some session,db.listStages sessionId⟩
    (.failSession reason) _ := .fail session _ reason
   simpa [Database.view,hge,failed] using hmo
 · simp [failed,view_updateStageStatus_other hne,view_updateSessionStatus_other hne]
 · rw [torn_second,updateStageStatus_view_ne]
   simp [Torn,view_of_getSession hge]

theorem follows_query (g : Database → α) :
 Follows (query g >>= fun _=>(pure () : Operation Unit)) db 1 [] :=
 Follows.select (follows_pure ())

theorem scripted_resumeSession : Scripted sessionId nowMs db .resumeSession 1 [] :=
 ⟨follows_query _,.resume _,by simp,
  fun _=>iff_of_false id (not_torn_of_one (Nat.zero_le _))⟩

theorem scripted_stageHistory : Scripted sessionId nowMs db .stageHistory 1 [] :=
 ⟨follows_query _,.history _,by simp,
  fun _=>iff_of_false id (not_torn_of_one (Nat.zero_le _))⟩

theorem scripted_setGate {request : Request} {gate : GateStatus}
 (hr:runRequest sessionId nowMs request=setGate gate sessionId nowMs)
 (hmo:∀rows,Advances sessionId nowMs ⟨some session,rows⟩ request ⟨some session,
  rows.map (Database.setStatus sessionId session.currentStage .inProgress gate nowMs)⟩)
 (hto:∀v n,¬Torn v ⟨sessionId,request,nowMs,some n⟩)
 (hge:db.getSession sessionId=some session) :
 ∃stores,Scripted sessionId nowMs db request 1 stores := by
 refine ⟨[db.updateStageStatus sessionId session.currentStage .inProgress gate nowMs],
  hr ▸ follows_loadSession hge (follows_update _),?_,fun other hne=>?_,
  fun n=>iff_of_false (hto _ n) (not_torn_of_one le_rfl)⟩
 · simpa [Database.view,hge] using hmo (db.listStages sessionId)
 · simp [view_updateStageStatus_other hne]

theorem scripted_createEnvelope {agentId : String} {role : AgentRole} {workItemId : Option String}
 {db' : Database} (hge:db.getSession sessionId=some session)
 (h:db.insertEnvelope
  { id := "env-" ++ agentId ++ "-" ++ toString nowMs,sessionId := sessionId,
    lane := session.lane,role := role,agentId := agentId,stage := session.currentStage,
    workItemId := workItemId,createdAtUnixMs := nowMs }=some db') :
 Scripted sessionId nowMs db (.createEnvelope agentId role workItemId) 1 [db'] := by
 obtain ⟨hge',hl'⟩:=Database.insertEnvelope_eq_some h
 have hv:∀id,db'.view id=db.view id:=by
  intro id
  rw [Database.view,hge',hl']
  rfl
 refine ⟨?_,?_,fun other _=>by simp [hv],
  fun n=>iff_of_false id (not_torn_of_one le_rfl)⟩
 · refine Follows.then_pure (follows_loadSession hge ?_) ()
   exact Follows.insert h (follows_pure _)
 · change Advances _ _ _ _ (db'.view sessionId)
   rw [hv,view_of_getSession hge]
   exact .envelope session _ agentId role workItemId

def leaving (db : Database) (session : SessionState) (sessionId : String) (nowMs : Int) :
 Database :=
 db.updateStageStatus sessionId session.currentStage .passed
  (((db.getCurrentStage sessionId).map WorkflowStageState.gateStatus).getD .passed) nowMs

theorem scripted_transitionStage (hge:db.getSession sessionId=some session)
 (hma:MayMove session (db.listStages sessionId) nextStage) :
 ∃stores,Scripted sessionId nowMs db (.transitionStage nextStage) 2 stores := by
 have hle:(leaving db session sessionId nowMs).listStages sessionId =
  left sessionId nowMs session (db.listStages sessionId) :=
  Database.listStages_updateStageStatus ..
 have hse:((leaving db session sessionId nowMs).getSession
  (nextStageState session sessionId nextStage nowMs).sessionId).isSome := by
  simp [leaving,nextStageState,hge]
 obtain ⟨db2,hi⟩:=Database.insertStage_isSome hse
 obtain ⟨hge2,hli2⟩:=Database.insertStage_eq_some hi
 have hst2:db2.listStages sessionId=left sessionId nowMs session
  (db.listStages sessionId) ++
   [⟨db.nextRowId,nextStageState session sessionId nextStage nowMs⟩] := by
  rw [hli2,←hle]
  exact if_pos rfl
 have hse2:db2.getSession sessionId=some session:=(hge2 sessionId).trans hge
 refine ⟨[leaving db session sessionId nowMs,db2,
  db2.updateSessionStage sessionId nextStage nowMs],?_,?_,fun other hne=>?_,fun n=>?_⟩
 · have hgate:checkGate (db.getCurrentStage sessionId) = .ok ():=hma.gate
   refine Follows.then_pure (follows_loadSession hge ?_) ()
   rw [if_neg (not_not.mpr hma.active),if_neg (by simp [hma.valid])]
   refine Follows.select ?_
   rw [hgate]
   refine Follows.update (Follows.insert hi ?_)
   exact Follows.update (follows_pure _)
 · have hmo:Advances sessionId nowMs ⟨some session,db.listStages sessionId⟩
    (.transitionStage nextStage) _ := .move session _ nextStage db.nextRowId hma
   simpa [Database.view,hge,hse2,hst2] using hmo
 · have ho1:(leaving db session sessionId nowMs).view other=db.view other:=
    view_updateStageStatus_other hne ..
   have ho2:db2.view other=(leaving db session sessionId nowMs).view other:=by
    rw [Database.view,hge2,hli2]
    exact congrArg _ (if_neg hne)
   have ho3:(db2.updateSessionStage sessionId nextStage nowMs).view other =
    db2.view other := by simp [Database.view,hne]
   simp [ho1,ho2,ho3]
 have hp:db2.view sessionId≠db.view sessionId:=by
  intro hsa
  have hl:=congrArg (fun v=>v.stages.length) hsa
  simp [Database.view,hst2,left] at hl
 have hto:Torn (db.view sessionId) ⟨sessionId,.transitionStage nextStage,nowMs,some n⟩ ↔
  n=4 ∨ n=3 ∧ (leaving db session sessionId nowMs).view sessionId≠db.view sessionId := by
  rw [leaving,updateStageStatus_view_ne]
  simp [Torn,view_of_getSession hge,hma,leavingGate,currentState,Database.getCurrentStage]
 rw [hto]
 rcases n with _|_|_|_|_|n <;> simp [hp]

/-- A request is refused before it writes, or it leaves its stores. -/
theorem runRequest_cases (sessionId : String) (nowMs : Int) (request : Request) (db : Database) :
 (Refuses (runRequest sessionId nowMs request) db ∧
  ∀fault,¬Torn (db.view sessionId) ⟨sessionId,request,nowMs,fault⟩) ∨
  ∃reads stores,Scripted sessionId nowMs db request reads stores := by
 cases hge : db.getSession sessionId with
 | none =>
  have hnone:(db.view sessionId).session=none:=hge
  cases request with
  | createSession repoRoot lane => exact .inr ⟨0,scripted_createSession hge repoRoot lane⟩
  | resumeSession => exact .inr ⟨1,[],scripted_resumeSession⟩
  | stageHistory => exact .inr ⟨1,[],scripted_stageHistory⟩
  | activateSession | completeSession | failSession =>
   exact .inl ⟨refuses_of_absent hge,fun _=>by simp [Torn,hnone]⟩
  | passGate | waiveGate => exact .inl ⟨refuses_of_absent hge,fun _=>id⟩
  | transitionStage nextStage =>
   exact .inl ⟨(refuses_of_absent hge).bind _,fun _=>by simp [Torn,hnone]⟩
  | createEnvelope => exact .inl ⟨(refuses_of_absent hge).bind _,fun _=>id⟩
 | some session =>
  have hso:(db.view sessionId).session=some session:=hge
  cases request with
  | createSession repoRoot lane =>
   refine .inl ⟨Refuses.bind (Refuses.bind (refuses_insert ?_) _) _,fun _=>by simp [Torn,hso]⟩
   cases hcr : db.createSession (newSession sessionId repoRoot lane nowMs) with
   | none => exact hcr
   | some db' =>
    have hab:=(Database.createSession_eq_some hcr).1
    cases hge.symm.trans hab
  | resumeSession => exact .inr ⟨1,[],scripted_resumeSession⟩
  | stageHistory => exact .inr ⟨1,[],scripted_stageHistory⟩
  | activateSession =>
   by_cases hstatus : session.status = .pending
   · exact .inr ⟨1,scripted_activateSession hge hstatus⟩
   · refine .inl ⟨refuses_loadSession hge ?_,fun _=>by simp [Torn,hso,hstatus]⟩
     rw [if_pos hstatus]
     exact refuses_fail _
  | completeSession =>
   by_cases hf : session.currentStage=finalStage session.lane
   · exact .inr ⟨1,scripted_completeSession hge hf⟩
   · refine .inl ⟨refuses_loadSession hge ?_,fun _=>by simp [Torn,hso,hf]⟩
     rw [if_pos hf]
     exact refuses_fail _
  | failSession reason => exact .inr ⟨1,scripted_failSession hge reason⟩
  | passGate => exact .inr ⟨1,scripted_setGate rfl (.passGate session) (fun _ _=>id) hge⟩
  | waiveGate => exact .inr ⟨1,scripted_setGate rfl (.waiveGate session) (fun _ _=>id) hge⟩
  | transitionStage nextStage =>
   by_cases hma : MayMove session (db.listStages sessionId) nextStage
   · exact .inr ⟨2,scripted_transitionStage hge hma⟩
   have hst:(db.view sessionId).stages=db.listStages sessionId:=rfl
   refine .inl ⟨Refuses.bind (refuses_loadSession hge ?_) _,
    fun _=>by simp [Torn,hso,hst,hma]⟩
   split_ifs with hac hv
   · exact refuses_fail _
   · exact refuses_fail _
   refine Refuses.select ?_
   cases hgate : checkGate (db.getCurrentStage sessionId) with
   | error e => exact refuses_fail _
   | ok u => exact absurd ⟨not_not.mp hac,by simpa using hv,hgate⟩ hma
  | createEnvelope agentId role workItemId =>
   cases hi : db.insertEnvelope
    { id := "env-" ++ agentId ++ "-" ++ toString nowMs,sessionId := sessionId,
      lane := session.lane,role := role,agentId := agentId,stage := session.currentStage,
      workItemId := workItemId,createdAtUnixMs := nowMs } with
   | none =>
    exact .inl ⟨Refuses.bind (refuses_loadSession hge (Refuses.bind (refuses_insert hi) _)) _,
     fun _=>id⟩
   | some db' => exact .inr ⟨1,[db'],scripted_createEnvelope hge hi⟩

end

section
variable {call : Call} {db : Database} {reads : Nat}

theorem ok_of_isOk {r : Except SessionError Unit} (h:r.isOk=true) : r = .ok () := by
 cases r with
 | ok u => rfl
 | error e => cases h

theorem error_of_not_isOk {r : Except SessionError Unit} (h:r.isOk=false) :
 ∃e,r = .error e := by
 cases r with
 | ok u => cases h
 | error e => exact ⟨e,rfl⟩

theorem perform_ok {sessionId : String} {nowMs : Int} {request : Request}
 (h:∃stores,Scripted sessionId nowMs db request reads stores) :
 (Call.perform ⟨sessionId,request,nowMs,none⟩ db).1 = .ok () := by
 obtain ⟨stores,h⟩:=h
 exact ok_of_isOk (h.follows none).1

theorem perform_cases (call : Call) (db : Database) :
 ((call.perform db).1 = .ok () ∧ ¬Torn (db.view call.sessionId) call ∧
  Advances call.sessionId call.nowMs (db.view call.sessionId) call.request
   ((call.perform db).2.view call.sessionId)) ∨
  (∃e,(call.perform db).1 = .error e) ∧ (Torn (db.view call.sessionId) call ↔
   (call.perform db).2.view call.sessionId≠db.view call.sessionId) := by
 obtain ⟨sessionId,request,nowMs,fault⟩:=call
 rcases runRequest_cases sessionId nowMs request db with ⟨hr,hto⟩|⟨reads,stores,h⟩
 · obtain ⟨her,hst⟩:=hr fault
   refine .inr ⟨error_of_not_isOk her,iff_of_false (hto fault) (not_not.mpr ?_)⟩
   rw [Call.perform,hst]
 obtain ⟨hok,hst⟩:=h.follows fault
 rw [Call.perform,hst]
 cases fault with
 | none => exact .inl ⟨ok_of_isOk hok,not_torn_of_fault_eq_none rfl,h.advances⟩
 | some n =>
  rw [h.torn,written]
  by_cases hn : n < reads+stores.length
  · refine .inr ⟨error_of_not_isOk (hok.trans (decide_eq_false ?_)),and_iff_right hn⟩
    omega
  refine .inl ⟨ok_of_isOk (hok.trans (decide_eq_true ?_)),fun hto=>hn hto.1,?_⟩
  · omega
  · rw [List.take_of_length_le (by omega)]
    exact h.advances

theorem perform_whole (h:¬Torn (db.view call.sessionId) call) :
 (call.perform db).1 = .ok () ∧ Advances call.sessionId call.nowMs (db.view call.sessionId)
  call.request ((call.perform db).2.view call.sessionId) ∨
  (∃e,(call.perform db).1 = .error e) ∧
   (call.perform db).2.view call.sessionId=db.view call.sessionId := by
 rcases perform_cases call db with ⟨hok,-,hmo⟩|⟨her,hto⟩
 · exact .inl ⟨hok,hmo⟩
 · exact .inr ⟨her,not_not.mp (mt hto.mpr h)⟩

theorem perform_other (call : Call) (db : Database) {other : String}
 (h:other≠call.sessionId) : (call.perform db).2.view other=db.view other := by
 rcases runRequest_cases call.sessionId call.nowMs call.request db with
  ⟨hr,-⟩ | ⟨reads,stores,hsc⟩
 · rw [Call.perform,(hr call.fault).2]
 rw [Call.perform,(hsc.follows call.fault).2]
 have hl:(written reads stores call.fault).getLastD db ∈
  db::written reads stores call.fault := List.getLastD_mem_cons
 rcases List.mem_cons.mp hl with hsa|hme
 · exact congrArg (·.view other) hsa
 · exact hsc.others other h _ (written_subset _ _ _ hme)

end

end DhKit.Sessions
