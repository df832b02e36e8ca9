import DhKit.FullWorkflow

/-!
# The stores of the full workflow show one state

What a call does to the state file and the two rows is said once, by `Outcome`.
-/
namespace DhKit.FullWorkflow
open KeyedTables JsonRpc SessionRecords RunConditions

structure SameStores (w w' : World) : Prop where
 stateFiles : w'.stateFiles = w.stateFiles
 sessions : w'.db.sessions = w.db.sessions
 workflowStates : w'.db.workflowStates = w.db.workflowStates

theorem SameStores.rfl {w : World} : SameStores w w := ⟨.refl _,.refl _,.refl _⟩

theorem SameStores.trans {w w' w'' : World} (h:SameStores w w') (h':SameStores w' w'') :
 SameStores w w'' :=
 ⟨h'.stateFiles.trans h.stateFiles,h'.sessions.trans h.sessions,
  h'.workflowStates.trans h.workflowStates⟩

structure Kept (state state' : FullWorkflowState) : Prop where
 parentSessionId : state'.parentSessionId = state.parentSessionId
 currentStage : state'.currentStage = state.currentStage
 status : state'.status = state.status
 approvals : state'.approvals = state.approvals

variable {state : FullWorkflowState} {state' : FullWorkflowState}

theorem Kept.trans {state'' : FullWorkflowState} (h:Kept state state')
 (h':Kept state' state'') : Kept state state'' :=
 ⟨h'.parentSessionId.trans h.parentSessionId,h'.currentStage.trans h.currentStage,
  h'.status.trans h.status,h'.approvals.trans h.approvals⟩

structure Shows (session : SessionState) (workflow : WorkflowState) (state : FullWorkflowState) :
 Prop where
 sessionId : session.sessionId = state.parentSessionId
 sessionStage : session.currentStage = state.currentStage.text
 sessionStatus : session.status = sessionStatus state.status
 workflowId : workflow.sessionId = state.parentSessionId
 workflowStage : workflow.stage = .string state.currentStage.text
 workflowStatus : workflow.stageStatus = .string (stageStatus state.status)

theorem Shows.of_kept {session : SessionState} {workflow : WorkflowState}
 (h:Shows session workflow state)
 (hkept:Kept state state') : Shows session workflow state' := by
 constructor
 · rw [hkept.parentSessionId,h.sessionId]
 · rw [hkept.currentStage,h.sessionStage]
 · rw [hkept.status,h.sessionStatus]
 · rw [hkept.parentSessionId,h.workflowId]
 · rw [hkept.currentStage,h.workflowStage]
 · rw [hkept.status,h.workflowStatus]

variable (env : Surroundings)

theorem shows_rows (state : FullWorkflowState) :
 Shows (sessionRow env state) (workflowRow state) state := ⟨rfl,rfl,rfl,rfl,rfl,rfl⟩

structure FileWritten (w w' : World) (state : FullWorkflowState) : Prop where
 stateFiles : w'.stateFiles = w.stateFiles.upsert (state.parentSessionId,state)
 sessions : w'.db.sessions = w.db.sessions
 workflowStates : w'.db.workflowStates = w.db.workflowStates

structure AllWritten (w w' : World) (state : FullWorkflowState) : Prop where
 stateFiles : w'.stateFiles = w.stateFiles.upsert (state.parentSessionId,state)
 rows : ∃ session workflow,Shows session workflow state ∧
  w'.db.sessions = w.db.sessions.upsert session ∧
  w'.db.workflowStates = w.db.workflowStates.upsert workflow

section
variable {env : Surroundings} {w w' : World} {state state' : FullWorkflowState}

theorem recordAudit_kept (eventType : AuditEvent) (role : Role) (stage : Stage) :
 SameStores w (recordAudit env w state eventType role stage).1 ∧
  Kept state (recordAudit env w state eventType role stage).2 :=
 ⟨⟨rfl,rfl,rfl⟩,⟨rfl,rfl,rfl,rfl⟩⟩

theorem runRoleTask_spec (role : Role) (stage : Stage) :
 SameStores w (runRoleTask env w state role stage).1 ∧
  (∀state',(runRoleTask env w state role stage).2 = .ok state' → Kept state state') ∧
  (role≠.contextScout → ∃state',(runRoleTask env w state role stage).2 = .ok state') := by
 unfold runRoleTask
 dsimp only
 split
 · next her =>
   refine ⟨⟨rfl,rfl,rfl⟩,nofun,fun hr=>?_⟩
   rw [if_neg hr] at her
   cases her
 · refine ⟨⟨rfl,rfl,rfl⟩,fun state' h=>?_,fun _=>⟨_,rfl⟩⟩
   cases h
   exact ⟨rfl,rfl,rfl,rfl⟩

theorem fileWritten_writeState (h:SameStores w w') : FileWritten w (writeState w' state) state :=
 ⟨by rw [writeState,h.stateFiles],h.sessions,h.workflowStates⟩

theorem allWritten_persist (h:SameStores w w') :
 AllWritten w (writeState (persistParentSession env w' state) state) state := by
 refine ⟨by rw [←h.stateFiles]; rfl,sessionRow env state,workflowRow state,
  shows_rows env state,?_,?_⟩
 · rw [←h.sessions]
   rfl
 · rw [←h.workflowStates]
   rfl

end

/-- The call finds the state it is for, and nothing can go wrong after that. A start fails on an
empty objective, a support role when its context cannot be inspected. -/
def Applies (w : World) : Call → Prop
 | .advance p gateId _ _ => ∃ state,HashMap.get w.stateFiles p = some state ∧
  ∃ gate ∈ approvalGates,gate.id = gateId ∧ gate.fromStage = state.currentStage
 | .reroute p _ _ | .block p _ | .close p => ∃ state,HashMap.get w.stateFiles p = some state
 | .start _ _ | .supportRole _ _ _ => False

/-- What a call does to the stores, and to the state of its parent session. -/
inductive Outcome (w : World) : Call → World × Except String FullWorkflowState → Prop where
 | thrown {call : Call} {w' : World} {error : String} (happlies : ¬ Applies w call)
  (hstores : SameStores w w') : Outcome w call (w',.error error)
 | started {objective : String} {workers : Option Nat} {w' : World} {state : FullWorkflowState}
  (hwritten : AllWritten w w' state) (hstage : state.currentStage = .product)
  (happrovals : state.approvals = []) : Outcome w (.start objective workers) (w',.ok state)
 | rejected {p : String} {gate : ApprovalGate} {reason : Option String} {w' : World}
  {state state' : FullWorkflowState} {time : String}
  (hread : HashMap.get w.stateFiles p = some state) (hwritten : FileWritten w w' state')
  (hgate : gate ∈ approvalGates) (hfrom : gate.fromStage = state.currentStage)
  (hparent : state'.parentSessionId = state.parentSessionId)
  (hstage : state'.currentStage = state.currentStage) (hstatus : state'.status = .blocked)
  (happrovals : state'.approvals = state.approvals++[⟨gate.id,.reject,reason,time⟩]) :
  Outcome w (.advance p gate.id .reject reason) (w',.ok state')
 | approved {p : String} {gate : ApprovalGate} {reason : Option String} {w' : World}
  {state state' : FullWorkflowState} {time : String}
  (hread : HashMap.get w.stateFiles p = some state) (hwritten : AllWritten w w' state')
  (hgate : gate ∈ approvalGates) (hfrom : gate.fromStage = state.currentStage)
  (hstage : state'.currentStage = gate.toStage)
  (happrovals : state'.approvals = state.approvals++[⟨gate.id,.approve,reason,time⟩]) :
  Outcome w (.advance p gate.id .approve reason) (w',.ok state')
 | rerouted {p finding : String} {target : Stage} {w' : World} {state state' : FullWorkflowState}
  (hread : HashMap.get w.stateFiles p = some state) (hwritten : AllWritten w w' state')
  (hstage : state'.currentStage = target) (happrovals : state'.approvals = state.approvals) :
  Outcome w (.reroute p finding target) (w',.ok state')
 | blocked {p reason : String} {w' : World} {state state' : FullWorkflowState}
  (hread : HashMap.get w.stateFiles p = some state) (hwritten : AllWritten w w' state')
  (hstage : state'.currentStage = state.currentStage)
  (happrovals : state'.approvals = state.approvals) :
  Outcome w (.block p reason) (w',.ok state')
 | supported {p : String} {role : SupportRole} {stage : Option Stage} {w' : World}
  {state state' : FullWorkflowState} (hread : HashMap.get w.stateFiles p = some state)
  (hwritten : FileWritten w w' state') (hkept : Kept state state') :
  Outcome w (.supportRole p role stage) (w',.ok state')
 | closed {p : String} {w' : World} {state' : FullWorkflowState}
  (hwritten : AllWritten w w' state') : Outcome w (.close p) (w',.ok state')

section
variable (env : Surroundings) (w : World) {gate : ApprovalGate} {p : String}

theorem gate_of_find {gateId : GateId}
 (h:(approvalGates.find? fun gate=>gate.id=gateId)=some gate) :
 gate∈approvalGates ∧ gate.id=gateId :=
 ⟨List.mem_of_find?_eq_some h,by simpa using List.find?_some h⟩

theorem gate_unique : ∀gate∈approvalGates,∀other∈approvalGates,
 gate.id=other.id → gate=other := by decide

theorem ownerForStage_ne_contextScout (stage : Stage) : ownerForStage stage≠.contextScout := by
 cases stage <;> decide

theorem runRoleTask_ok (state : FullWorkflowState) {role : Role} (hr:role≠.contextScout)
 (stage : Stage) : ∃w' state',runRoleTask env w state role stage=(w',.ok state') ∧
  SameStores w w' ∧ Kept state state' := by
 obtain ⟨hstores,hkept,hok⟩:=@runRoleTask_spec env w state role stage
 obtain ⟨state',hst'⟩:=hok hr
 exact ⟨_,state',Prod.ext rfl hst',hstores,hkept state' hst'⟩

theorem start_outcome (objective : String) (workers : Option Nat) :
 Outcome w (.start objective workers) (startFullWorkflow env w objective workers) := by
 unfold startFullWorkflow
 dsimp only
 split
 · exact .thrown id .rfl
 have hau:=@recordAudit_kept env
  (persistParentSession env w (initialState env w (env.trim objective) workers))
  (initialState env w (env.trim objective) workers) .started .masterOrchestrator .intake
 obtain ⟨audited,hr⟩ : ∃audited,recordAudit env
  (persistParentSession env w (initialState env w (env.trim objective) workers))
  (initialState env w (env.trim objective) workers) .started .masterOrchestrator .intake =
  audited := ⟨_,rfl⟩
 rw [hr] at hau ⊢
 have hsc:Role.productLead≠.contextScout:=by decide
 obtain ⟨w',state',htas,hstores,hta⟩:=
  runRoleTask_ok env audited.1 audited.2 hsc .product
 rw [htas]
 have hkept:=hau.2.trans hta
 have hsa:=hau.1.trans hstores
 refine .started ⟨?_,_,_,(shows_rows env _).of_kept hkept,?_,?_⟩ hkept.currentStage
  hkept.approvals
 · change w'.stateFiles.upsert _=_
   rw [hsa.stateFiles]
   rfl
 · exact hsa.sessions
 · exact hsa.workflowStates

section
variable (hread : HashMap.get w.stateFiles p = some state) (hgate : gate ∈ approvalGates)
 (hfrom : gate.fromStage = state.currentStage) {reason : Option String}
include hread hgate hfrom

theorem reject_outcome :
 Outcome w (.advance p gate.id .reject reason) (rejectGate env w state gate reason) :=
 .rejected hread (fileWritten_writeState ⟨rfl,rfl,rfl⟩) hgate hfrom rfl rfl rfl rfl

theorem approve_outcome :
 Outcome w (.advance p gate.id .approve reason) (approveGate env w state gate reason) := by
 unfold approveGate
 dsimp only
 by_cases hdo : gate.toStage = .done
 · rw [if_neg (not_not.mpr hdo)]
   exact .approved hread (allWritten_persist ⟨rfl,rfl,rfl⟩) hgate hfrom rfl rfl
 rw [if_pos hdo]
 generalize hr : recordAudit env w _ .gateApproved (ownerForStage gate.toStage)
  gate.toStage=audited
 obtain ⟨w',state',hta,hstores,hkept⟩:=runRoleTask_ok env audited.1 audited.2
  (ownerForStage_ne_contextScout gate.toStage) gate.toStage
 rw [hta]
 subst hr
 have hsa:SameStores w w':=(recordAudit_kept _ _ _).1.trans hstores
 exact .approved hread (allWritten_persist hsa) hgate hfrom hkept.currentStage hkept.approvals

end

theorem advance_outcome (p : String) (gateId : GateId) (decision : Decision)
 (reason : Option String) : Outcome w (.advance p gateId decision reason)
  (advanceFullWorkflow env w p gateId decision reason) := by
 unfold advanceFullWorkflow readState
 cases hread : HashMap.get w.stateFiles p with
 | none =>
  apply Outcome.thrown _ .rfl
  rintro ⟨state,hso,-⟩
  rw [hread] at hso
  cases hso
 | some state =>
  cases hf : approvalGates.find? fun gate=>gate.id=gateId with
  | none =>
   apply Outcome.thrown _ .rfl
   rintro ⟨-,-,gate,hgate,hid,-⟩
   exact absurd (List.find?_eq_none.mp hf gate hgate) (by simp [hid])
  | some gate =>
   obtain ⟨hgate,rfl⟩:=gate_of_find hf
   dsimp only
   split
   · case _ hfrom =>
     apply Outcome.thrown _ .rfl
     rintro ⟨other,hso,another,han,hid,hstage⟩
     rw [hread] at hso
     cases hso
     exact hfrom (gate_unique another han gate hgate hid ▸ hstage)
   · case _ hfrom =>
     have hfrom:=not_not.mp hfrom
     cases decision with
     | reject => exact reject_outcome env w hread hgate hfrom
     | approve => exact approve_outcome env w hread hgate hfrom

theorem not_applies_of_unread {w : World} (hread:HashMap.get w.stateFiles p=none) :
 ¬∃state,HashMap.get w.stateFiles p=some state := by
 rintro ⟨state,hso⟩
 rw [hread] at hso
 cases hso

theorem perform_outcome (call : Call) : Outcome w call (perform env w call) := by
 cases call with
 | start objective workers => exact start_outcome env w objective workers
 | advance p gateId decision reason => exact advance_outcome env w p gateId decision reason
 | reroute p finding target =>
  change Outcome w _ (rerouteFullWorkflow env w p finding target)
  unfold rerouteFullWorkflow readState
  cases hread : HashMap.get w.stateFiles p with
  | none => exact .thrown (not_applies_of_unread hread) .rfl
  | some state =>
   have hstage:target∈stages:=by cases target <;> decide
   dsimp only
   rw [if_neg (not_not.mpr hstage)]
   exact .rerouted hread (allWritten_persist ⟨rfl,rfl,rfl⟩) rfl rfl
 | block p reason =>
  change Outcome w _ (blockFullWorkflow env w p reason)
  unfold blockFullWorkflow readState
  cases hread : HashMap.get w.stateFiles p with
  | none => exact .thrown (not_applies_of_unread hread) .rfl
  | some state => exact .blocked hread (allWritten_persist ⟨rfl,rfl,rfl⟩) rfl rfl
 | supportRole p role stage =>
  change Outcome w _ (runFullWorkflowSupportRole env w p role stage)
  unfold runFullWorkflowSupportRole readState
  cases hread : HashMap.get w.stateFiles p with
  | none => exact .thrown id .rfl
  | some state =>
   obtain ⟨hstores,hkept,-⟩:=
    @runRoleTask_spec env w state role.role (stage.getD state.currentStage)
   dsimp only
   cases hta : runRoleTask env w state role.role (stage.getD state.currentStage) with
   | mk w' result =>
    rw [hta] at hstores hkept
    cases result with
    | error error => exact .thrown id hstores
    | ok state' => exact .supported hread (fileWritten_writeState hstores) (hkept state' rfl)
 | close p =>
  change Outcome w _ (closeFullWorkflow env w p)
  unfold closeFullWorkflow readState
  cases hread : HashMap.get w.stateFiles p with
  | none => exact .thrown (not_applies_of_unread hread) .rfl
  | some state => exact .closed (allWritten_persist ⟨rfl,rfl,rfl⟩)

end

def Mirrored (w : World) (state : FullWorkflowState) : Prop :=
 ∃ session workflow,w.db.sessions.find state.parentSessionId = some session ∧
  w.db.workflowStates.find state.parentSessionId = some workflow ∧
  Shows session workflow state

structure Coherent (w : World) : Prop where
 own : ∀ p state,HashMap.get w.stateFiles p = some state → state.parentSessionId = p
 mirrored : ∀ p state,HashMap.get w.stateFiles p = some state → Mirrored w state

def KeepsMirror (w : World) : Call → Prop
 | .advance p gateId .reject _ => ∀ state,HashMap.get w.stateFiles p = some state →
  (∃ gate ∈ approvalGates,gate.id = gateId ∧ gate.fromStage = state.currentStage) →
  state.status = .blocked
 | _ => True

section
variable {w w' : World} {state state' : FullWorkflowState}

theorem sessionStatus_injective : ∀a b,sessionStatus a=sessionStatus b → a=b := by
 intro a b
 cases a <;> cases b <;> decide

theorem readState_eq_ok {p : String} :
 readState w p = .ok state ↔ HashMap.get w.stateFiles p=some state := by
 unfold readState
 cases HashMap.get w.stateFiles p <;> simp

theorem coherent_of_fresh (hf:w.stateFiles=Table.empty) : Coherent w := by
 constructor <;>
 · intro p state hge
   rw [hf,HashMap.get_empty] at hge
   cases hge

theorem Coherent.of_same (h:Coherent w) (hsa:SameStores w w') : Coherent w' := by
 constructor
 · rw [hsa.stateFiles]
   exact h.own
 · unfold Mirrored
   rw [hsa.stateFiles,hsa.sessions,hsa.workflowStates]
   exact h.mirrored

theorem get_written (files : HashMap String FullWorkflowState) (p : String) :
 HashMap.get (files.upsert (state'.parentSessionId,state')) p =
  if p=state'.parentSessionId then some state' else HashMap.get files p :=
 HashMap.get_upsert files state'.parentSessionId p state'

theorem own_written (h:Coherent w)
 (hf:w'.stateFiles=w.stateFiles.upsert (state'.parentSessionId,state')) :
 ∀p state,HashMap.get w'.stateFiles p=some state → state.parentSessionId=p := by
 intro p state hge
 rw [hf,get_written] at hge
 split_ifs at hge with hp
 · cases hge
   exact hp.symm
 · exact h.own p state hge

theorem Coherent.allWritten (h:Coherent w) (hwritten:AllWritten w w' state') :
 Coherent w' := by
 obtain ⟨session,workflow,hsh,hse,hwo⟩:=hwritten.rows
 refine ⟨own_written h hwritten.stateFiles,?_⟩
 intro p state hge
 rw [hwritten.stateFiles,get_written] at hge
 unfold Mirrored
 rw [hse,hwo,Table.find_upsert,Table.find_upsert,hsh.sessionId,hsh.workflowId]
 split_ifs at hge with hp
 · cases hge
   rw [if_pos rfl,if_pos rfl]
   exact ⟨session,workflow,rfl,rfl,hsh⟩
 have ho:state.parentSessionId≠state'.parentSessionId:=by
  rw [h.own p state hge]
  exact hp
 rw [if_neg ho,if_neg ho]
 exact h.mirrored p state hge

theorem Coherent.fileWritten_iff (h:Coherent w) (hwritten:FileWritten w w' state') :
 Coherent w' ↔ Mirrored w state' := by
 have hmi:∀other,Mirrored w' other ↔ Mirrored w other:=by
  intro other
  unfold Mirrored
  rw [hwritten.sessions,hwritten.workflowStates]
 constructor
 · intro h'
   apply (hmi state').mp
   apply h'.mirrored state'.parentSessionId
   rw [hwritten.stateFiles,get_written,if_pos rfl]
 · intro hn
   refine ⟨own_written h hwritten.stateFiles,?_⟩
   intro p state hge
   rw [hwritten.stateFiles,get_written] at hge
   apply (hmi state).mpr
   split_ifs at hge with hp
   · cases hge
     exact hn
   · exact h.mirrored p state hge

theorem Mirrored.of_kept (h:Mirrored w state) (hkept:Kept state state') :
 Mirrored w state' := by
 obtain ⟨session,workflow,hse,hwo,hsh⟩:=h
 refine ⟨session,workflow,?_,?_,hsh.of_kept hkept⟩
 · rw [hkept.parentSessionId,hse]
 · rw [hkept.parentSessionId,hwo]

theorem mirrored_blocked_iff (h:Mirrored w state)
 (hparent:state'.parentSessionId=state.parentSessionId)
 (hstage:state'.currentStage=state.currentStage) (hstatus:state'.status = .blocked) :
 Mirrored w state' ↔ state.status = .blocked := by
 obtain ⟨session,workflow,hse,hwo,hsh⟩:=h
 constructor
 · rintro ⟨session',workflow',hse',-,hsh'⟩
   rw [hparent,hse] at hse'
   cases hse'
   apply sessionStatus_injective
   rw [←hsh.sessionStatus,hsh'.sessionStatus,hstatus]
 · intro hb
   refine ⟨session,workflow,?_,?_,?_⟩
   · rw [hparent,hse]
   · rw [hparent,hwo]
   constructor
   · rw [hparent,hsh.sessionId]
   · rw [hstage,hsh.sessionStage]
   · rw [hstatus,←hb,hsh.sessionStatus]
   · rw [hparent,hsh.workflowId]
   · rw [hstage,hsh.workflowStage]
   · rw [hstatus,←hb,hsh.workflowStatus]

theorem coherent_step_iff (h:Coherent w) (call : Call) :
 Coherent (w.step env call) ↔ KeepsMirror w call := by
 have ho:=perform_outcome env w call
 unfold World.step
 generalize perform env w call=result at ho
 cases ho with
 | thrown happlies hstores =>
  refine ⟨fun _=>?_,fun _=>h.of_same hstores⟩
  cases call with
  | advance p gateId decision reason =>
   cases decision with
   | approve => trivial
   | reject =>
    intro state hread hgate
    exact absurd ⟨state,hread,hgate⟩ happlies
  | _ => trivial
 | started hwritten | approved _ hwritten | rerouted _ hwritten | blocked _ hwritten
 | closed hwritten => exact ⟨fun _=>trivial,fun _=>h.allWritten hwritten⟩
 | supported hread hwritten hkept =>
  refine ⟨fun _=>trivial,fun _=>(h.fileWritten_iff hwritten).mpr ?_⟩
  exact (h.mirrored _ _ hread).of_kept hkept
 | rejected hread hwritten hgate hfrom hparent hstage hstatus =>
  rw [h.fileWritten_iff hwritten,
   mirrored_blocked_iff (h.mirrored _ _ hread) hparent hstage hstatus]
  constructor
  · intro hb state hread' _
    rw [hread] at hread'
    cases hread'
    exact hb
  · intro hk
    exact hk _ hread ⟨_,hgate,rfl,hfrom⟩

theorem own_step (h:Coherent w) (call : Call) :
 ∀p state,HashMap.get (w.step env call).stateFiles p=some state →
  state.parentSessionId=p := by
 have ho:=perform_outcome env w call
 unfold World.step
 generalize perform env w call=result at ho
 cases ho with
 | thrown _ hstores => exact (h.of_same hstores).own
 | started hwritten | approved _ hwritten | rerouted _ hwritten | blocked _ hwritten
 | closed hwritten | supported _ hwritten | rejected _ hwritten =>
  exact own_written h hwritten.stateFiles

theorem step_same_of_error {env : Surroundings} {call : Call} {error : String}
 (her:(perform env w call).2 = .error error) : SameStores w (w.step env call) := by
 have ho:=perform_outcome env w call
 unfold World.step
 generalize perform env w call=result at ho her
 cases ho with
 | thrown _ hstores => exact hstores
 | _ => cases her

def ShownAfter (w : World) (call : Call) : Prop :=
 ∀ returned,(perform env w call).2 = .ok returned →
  ∀ p state,readState (w.step env call) p = .ok state → Mirrored (w.step env call) state

theorem shownAfter_iff (h:Coherent w) (call : Call) :
 ShownAfter env w call ↔ Coherent (w.step env call) := by
 constructor
 · intro hsh
   cases hr : (perform env w call).2 with
   | error error => exact h.of_same (step_same_of_error hr)
   | ok returned =>
    refine ⟨own_step env h call,fun p state hge=>?_⟩
    exact hsh returned hr p state (readState_eq_ok.mpr hge)
 · intro hco returned _ p state hread
   exact hco.mirrored p state (readState_eq_ok.mp hread)

end

/-- After every call of a run that returns, the rows of each parent session show the stage and the
status that its state file holds, exactly when every rejection of a gate finds the workflow
blocked. -/
theorem rows_mirror_state_iff (w : World)
 (hfresh : w.stateFiles = Table.empty) (calls : List Call) :
 EachStep (World.step env) (ShownAfter env) w calls ↔
  EachStep (World.step env) KeepsMirror w calls := by
 refine eachStep_iff (E := fun _=>True) (fun _ _=>trivial) ?_ ?_ (coherent_of_fresh hfresh)
 · intro w call _ h
   exact (shownAfter_iff env h call).trans (coherent_step_iff env h call)
 · intro w call _ h hsh
   exact (shownAfter_iff env h call).mp hsh

def plainSurroundings : Surroundings where
 repoRoot := "/repo"
 createId := fun kind _ => kind
 nowIso := fun _ => "2026-01-01T00:00:00.000Z"
 trim := id
 truncateUtf8 := fun text _ => text
 inspectContext := fun _ _ => .ok "context-ledger"

def emptyWorld : World := ⟨Database.empty,Table.empty,0⟩

/-- A rejection of a blocked workflow. -/
theorem rows_mirror_state_iff_blocked :
 EachStep (World.step plainSurroundings) (ShownAfter plainSurroundings) emptyWorld
  [.start "goal" none,.block "session" "why",
   .advance "session" .productToSolution .reject none] := by
 apply (rows_mirror_state_iff plainSurroundings emptyWorld rfl _).mpr
 refine eachStep_cons.mpr ⟨trivial,eachStep_cons.mpr ⟨trivial,eachStep_cons.mpr
  ⟨fun state hread _=>?_,eachStep_nil⟩⟩⟩
 have hb:(HashMap.get ((emptyWorld.step plainSurroundings (.start "goal" none)).step
  plainSurroundings (.block "session" "why")).stateFiles "session").map
  FullWorkflowState.status=some .blocked := by decide +kernel
 rw [hread] at hb
 exact Option.some.inj hb

/-- A gate is rejected: the state file is blocked, the session goes on. -/
theorem rejection_not_mirrored :
 let w := (emptyWorld.step plainSurroundings (.start "goal" none)).step plainSurroundings
  (.advance "session" .productToSolution .reject none)
 (HashMap.get w.stateFiles "session").map FullWorkflowState.status = some .blocked ∧
  (w.db.sessions.find "session").map SessionState.status = some .inProgress ∧
  ¬ EachStep (World.step plainSurroundings) (ShownAfter plainSurroundings) emptyWorld
   [.start "goal" none,.advance "session" .productToSolution .reject none] := by
 refine ⟨by decide +kernel,by decide +kernel,fun hsh=>?_⟩
 obtain ⟨-,hr⟩:=eachStep_cons.mp hsh
 have hst:Coherent (emptyWorld.step plainSurroundings (.start "goal" none)) :=
  (coherent_step_iff _ (coherent_of_fresh rfl) _).mpr trivial
 have hk:=(coherent_step_iff _ hst _).mp
  ((shownAfter_iff _ hst _).mp (eachStep_cons.mp hr).1)
 have hb:=hk _ rfl ⟨⟨.productToSolution,.product,.solution⟩,by decide,rfl,rfl⟩
 cases hb

end DhKit.FullWorkflow
