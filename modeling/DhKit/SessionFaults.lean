import DhKit.SessionEndings

/-!
# Statements that fail in the middle of an operation

The operations run their statements without a transaction.
-/
namespace DhKit.Sessions
open KeyedTables CommitRules StatementFaults Database List

theorem allOrNothing_iff (call : Call) (db : Database) :
 ((∃e,(call.perform db).1 = .error e) →
  (call.perform db).2.view call.sessionId=db.view call.sessionId) ↔
  ¬Torn (db.view call.sessionId) call := by
 rcases perform_cases call db with ⟨hok,hto,-⟩|⟨her,hto⟩
 · refine iff_of_true ?_ hto
   rintro ⟨e,he⟩
   rw [hok] at he
   cases he
 · rw [hto,not_not]
   exact ⟨fun h=>h her,fun h _=>h⟩

def GatesInTime (v : View) (request : Request) : Prop :=
 ∀ session,v.session = some session → request = .passGate ∨ request = .waiveGate →
  session.status≠.failed

/-- A session on the track of its lane whose end agrees with its newest row. -/
structure Movable (sessionId : String) (v : View) (session : SessionState) (k : Nat) : Prop where
 onTrack : OnTrack sessionId session.lane v session k
 status : session.status = .pending ∨ session.status = .active ∨
  session.status = .completed ∧ session.currentStage = finalStage session.lane ∨
  session.status = .failed ∧ ∀ row ∈ v.stages,row.state.stage = session.currentStage →
   row.state.gateStatus = .failed

section
variable {db : Database} {sessionId : String} {calls : List Call} {nowMs : Int} {v v' : View}
 {request : Request} {session : SessionState} {k : Nat}

theorem Movable.advances (h:Movable sessionId v session k) (hga:GatesInTime v request)
 (hmo:Advances sessionId nowMs v request v') :
 ∃session' k',Movable sessionId v' session' k' := by
 have hf:=h.onTrack.found
 have hi:=hga session hf
 obtain ⟨session',k',htr'⟩:=h.onTrack.advances hmo
 cases hmo with
 | create repoRoot lane rowId => cases hf
 | resume | history | envelope => exact ⟨session,k,h⟩
 | activate s rows hstatus =>
  cases hf
  cases htr'.found
  exact ⟨{ session with status := .active,updatedAtUnixMs := nowMs },k',htr',.inr (.inl rfl)⟩
 | move s rows nextStage rowId hma =>
  cases hf
  cases htr'.found
  exact ⟨{ session with currentStage := nextStage,updatedAtUnixMs := nowMs },k',htr',
   .inr (.inl hma.active)⟩
 | passGate s rows | waiveGate s rows =>
  cases hf
  cases htr'.found
  refine ⟨session,k',htr',?_⟩
  rcases h.status with hp|hac|hco|hfa
  · exact .inl hp
  · exact .inr (.inl hac)
  · exact .inr (.inr (.inl hco))
  · exact absurd hfa.1 (hi (by simp))
 | complete s rows hfi =>
  cases hf
  cases htr'.found
  exact ⟨{ session with status := .completed,updatedAtUnixMs := nowMs },k',htr',
   .inr (.inr (.inl ⟨rfl,hfi⟩))⟩
 | fail s rows reason =>
  cases hf
  cases htr'.found
  refine ⟨{ session with status := .failed,updatedAtUnixMs := nowMs },k',htr',
   .inr (.inr (.inr ⟨rfl,?_⟩))⟩
  intro row hrow hstage
  obtain ⟨old,ho,rfl⟩:=mem_map.mp hrow
  have ho':old.state.stage=session.currentStage:=by
   unfold setStatus at hstage
   split_ifs at hstage <;> exact hstage
  rw [setStatus,if_pos ⟨h.onTrack.atStage.owned old ho,ho'⟩]

theorem movable_run (hab:db.getSession sessionId=none)
 (h:Heeds GatesInTime db sessionId calls) :
 (performAll db calls).view sessionId=⟨none,[]⟩ ∨
  ∃session k,Movable sessionId ((performAll db calls).view sessionId) session k := by
 refine @run_invariant _ (fun _ v=>v=⟨none,[]⟩ ∨ ∃session k,Movable sessionId v session k)
  db sessionId ?_ (fun _ _ _ h=>h) ?_ calls h
 · left
   rw [Database.view,hab,Database.listStages_of_absent hab]
 rintro calls call v' (hnone|⟨session,k,h⟩) _ _ hga hmo
 · rw [hnone] at hmo
   generalize call.request=request at hmo
   cases hmo with
   | create repoRoot lane rowId =>
    exact .inr ⟨_,0,⟨rfl,rfl,AtStage.start sessionId lane rowId _,fun _=>rfl⟩,.inl rfl⟩
   | resume | history => exact .inl rfl
 · exact .inr (h.advances hga hmo)

end

section
variable {db : Database} {sessionId nextStage : String} {session : SessionState} {k : Nat}
 {call : Call}

/-- Calls on the session that all succeed, one after another, and take it to a stage. -/
def Reaches (db : Database) (sessionId nextStage : String) (further : List Call) : Prop :=
 (∀ earlier call later,further = earlier++call::later → call.sessionId = sessionId ∧
  (call.perform (performAll db earlier)).1 = .ok ()) ∧
 ∃ session,(performAll db further).getSession sessionId = some session ∧
  session.currentStage = nextStage

theorem Reaches.cons {further : List Call} (hid:call.sessionId=sessionId)
 (hok:(call.perform db).1 = .ok ())
  (h:Reaches (call.perform db).2 sessionId nextStage further) :
 Reaches db sessionId nextStage (call::further) := by
 refine ⟨?_,h.2⟩
 intro earlier c later he
 cases earlier with
 | nil =>
  cases he
  exact ⟨hid,hok⟩
 | cons a earlier =>
  cases he
  exact h.1 earlier c later rfl

theorem advances_of_ok (hid:call.sessionId=sessionId) (hok:(call.perform db).1 = .ok ()) :
 Advances sessionId call.nowMs (db.view sessionId) call.request
  ((call.perform db).2.view sessionId) := by
 subst hid
 rcases perform_cases call db with ⟨-,-,hmo⟩|⟨⟨e,he⟩,-⟩
 · exact hmo
 · rw [hok] at he
   cases he

theorem reaches_of_active (h:Movable sessionId (db.view sessionId) session k)
 (hac:session.status = .active) {state : WorkflowStageState}
 (hst:currentState (db.listStages sessionId)=some state)
 (ho:state.gateStatus.isOpen=true)
 (hv:isValidTransition session.lane session.currentStage nextStage=true) :
 Reaches db sessionId nextStage [⟨sessionId,.transitionStage nextStage,0,none⟩] := by
 have hge:db.getSession sessionId=some session:=h.onTrack.found
 have hma:MayMove session (db.listStages sessionId) nextStage:=by
  refine ⟨hac,hv,?_⟩
  rw [hst,checkGate,if_pos ho]
 have hok:(Call.perform ⟨sessionId,.transitionStage nextStage,0,none⟩ db).1 = .ok ():=
  perform_ok (scripted_transitionStage hge hma)
 apply Reaches.cons rfl hok
 refine ⟨?_,?_⟩
 · intro earlier c later he
   cases earlier <;> cases he
 have hmo:=advances_of_ok rfl hok
 rw [view_of_getSession hge] at hmo
 change ∃s,((Call.perform ⟨sessionId,.transitionStage nextStage,0,none⟩ db).2.view
  sessionId).session=some s ∧ _
 generalize (Call.perform ⟨sessionId,.transitionStage nextStage,0,none⟩ db).2.view
  sessionId=v' at hmo
 cases hmo
 exact ⟨_,rfl,rfl⟩

theorem reaches_of_pending (h:Movable sessionId (db.view sessionId) session k)
 (hp:session.status = .pending)
 (hv:isValidTransition session.lane session.currentStage nextStage=true) :
 Reaches db sessionId nextStage [⟨sessionId,.activateSession,0,none⟩,
  ⟨sessionId,.passGate,0,none⟩,⟨sessionId,.transitionStage nextStage,0,none⟩] := by
 have hge:db.getSession sessionId=some session:=h.onTrack.found
 have hok1:(Call.perform ⟨sessionId,.activateSession,0,none⟩ db).1 = .ok ():=
  perform_ok (scripted_activateSession hge hp)
 apply Reaches.cons rfl hok1
 have hmo1:=advances_of_ok rfl hok1
 generalize (Call.perform ⟨sessionId,.activateSession,0,none⟩ db).2=db1 at hmo1 ⊢
 have hin1:GatesInTime (db.view sessionId) .activateSession:=fun _ _=>nofun
 obtain ⟨session1,k1,h1⟩:=h.advances hin1 hmo1
 have hse1:session1.status = .active ∧ session1.lane=session.lane ∧
  session1.currentStage=session.currentStage := by
  have hf1:=h1.onTrack.found
  generalize db1.view sessionId=v1 at hmo1 hf1
  rw [view_of_getSession hge] at hmo1
  cases hmo1
  cases hf1
  exact ⟨rfl,rfl,rfl⟩
 have hge1:db1.getSession sessionId=some session1:=h1.onTrack.found
 have hok2:(Call.perform ⟨sessionId,.passGate,0,none⟩ db1).1 = .ok ():=
  perform_ok (scripted_setGate rfl (.passGate session1) (fun _ _=>id) hge1)
 apply Reaches.cons rfl hok2
 have hmo2:=advances_of_ok rfl hok2
 generalize (Call.perform ⟨sessionId,.passGate,0,none⟩ db1).2=db2 at hmo2 ⊢
 have hin2:GatesInTime (db1.view sessionId) .passGate:=by
  intro s hs _
  obtain rfl := Option.some.inj (hge1.symm.trans hs)
  rw [hse1.1]
  decide
 obtain ⟨session2,k2,h2⟩:=h1.advances hin2 hmo2
 obtain ⟨row,hrow,hstage,hst⟩:=h2.onTrack.atStage.newest
 have hse2:session2=session1 ∧ row.state.gateStatus = .passed:=by
  have hf2:=h2.onTrack.found
  generalize db2.view sessionId=v2 at hmo2 hf2 hrow
  have how:=h1.onTrack.atStage.owned
  rw [view_of_getSession hge1] at hmo2 how
  cases hmo2
  cases hf2
  obtain ⟨old,ho,rfl⟩:=mem_map.mp hrow
  have ho':old.state.stage=session1.currentStage:=by
   unfold setStatus at hstage
   split_ifs at hstage <;> exact hstage
  rw [setStatus,if_pos ⟨how old ho,ho'⟩]
  exact ⟨rfl,rfl⟩
 obtain ⟨rfl,hgate⟩:=hse2
 apply reaches_of_active h2 hse1.1 hst
 · rw [hgate]
   rfl
 · rw [hse1.2.1,hse1.2.2]
   exact hv

end

variable {session : SessionState}

theorem reaches_of_movable {db : Database} {sessionId nextStage : String}
 {k : Nat} (h:Movable sessionId (db.view sessionId) session k) {row : StageRow}
 (hrow:row∈db.listStages sessionId) (hstage:row.state.stage=session.currentStage)
 (ho:row.state.gateStatus.isOpen=true)
 (hv:isValidTransition session.lane session.currentStage nextStage=true) :
 ∃further,Reaches db sessionId nextStage further := by
 have hat:=h.onTrack.atStage
 rcases h.status with hp|hac|⟨-,hf⟩|⟨-,hfa⟩
 · exact ⟨_,reaches_of_pending h hp hv⟩
 · -- the row of the current stage is the newest one
   obtain ⟨newest,hme,hn,hst⟩:=hat.newest
   have hno:((db.listStages sessionId).map fun row=>row.state.stage).Nodup:=by
    change ((db.view sessionId).stages.map _).Nodup
    rw [hat.stages]
    exact (nodup_stageChainFor session.lane).sublist (take_sublist _ _)
   have hsa:row=newest:=
    inj_on_of_nodup_map hno hrow hme (hstage.trans hn.symm)
   exact ⟨_,reaches_of_active h hac hst (hsa ▸ ho) hv⟩
 · -- the last stage has no successor
   have hnex:=(isValidTransition_iff hat.current).mp hv
   obtain ⟨hlt,-⟩:=List.getElem?_eq_some_iff.mp hnex
   have hl:=index_finalStage hat.current hf
   omega
 · rw [hfa row hrow hstage] at ho
   cases ho

theorem gate_of_transition {db : Database} {sessionId nextStage : String} {nowMs : Int}
 {fault : Option Nat} {k : Nat}
 (h:Movable sessionId (db.view sessionId) session k)
 (hok:(Call.perform ⟨sessionId,.transitionStage nextStage,nowMs,fault⟩ db).1 = .ok ()) :
 ∃row∈db.listStages sessionId,row.state.stage=session.currentStage ∧
  row.state.gateStatus.isOpen=true := by
 have hge:db.getSession sessionId=some session:=h.onTrack.found
 obtain ⟨row,hrow,hstage,hst⟩:=h.onTrack.atStage.newest
 refine ⟨row,hrow,hstage,?_⟩
 have hmo:=advances_of_ok rfl hok
 generalize (Call.perform ⟨sessionId,.transitionStage nextStage,nowMs,fault⟩ db).2.view
  sessionId=v' at hmo
 rw [view_of_getSession hge] at hmo
 cases hmo with
 | move s rows nextStage rowId hma => exact AtStage.gate_isOpen hst hma.gate

/-- A call that fails leaves the rows of its session exactly when it is not torn. After a run
without torn calls, and without gates set after a failure, an open gate lets the session go
on to the next stage, and no transition is made past a closed gate. -/
theorem session_allOrNothing (call : Call) (db : Database) (sessionId : String)
 (calls : List Call) :
 (((∃ e,(call.perform db).1 = .error e) →
  (call.perform db).2.view call.sessionId = db.view call.sessionId) ↔
  ¬ Torn (db.view call.sessionId) call) ∧
 (db.getSession sessionId = none → Heeds GatesInTime db sessionId calls →
  ∀ session,(performAll db calls).getSession sessionId = some session →
   (∀ row ∈ (performAll db calls).listStages sessionId,
    row.state.stage = session.currentStage → row.state.gateStatus.isOpen = true →
    ∀ nextStage,isValidTransition session.lane session.currentStage nextStage = true →
     ∃ further,Reaches (performAll db calls) sessionId nextStage further) ∧
   ∀ nextStage nowMs fault,(Call.perform ⟨sessionId,.transitionStage nextStage,nowMs,
    fault⟩ (performAll db calls)).1 = .ok () →
    ∃ row ∈ (performAll db calls).listStages sessionId,
     row.state.stage = session.currentStage ∧ row.state.gateStatus.isOpen = true) := by
 refine ⟨allOrNothing_iff call db,?_⟩
 intro hab hh session hse
 rcases movable_run hab hh with hnone|⟨session',k,h⟩
 · have hge:(performAll db calls).getSession sessionId=none:=congrArg View.session hnone
   cases hge.symm.trans hse
 have hf:(performAll db calls).getSession sessionId=some session':=h.onTrack.found
 obtain rfl := Option.some.inj (hf.symm.trans hse)
 refine ⟨?_,fun nextStage nowMs fault hok=>gate_of_transition h hok⟩
 intro row hrow hstage ho nextStage hv
 exact reaches_of_movable h hrow hstage ho hv

/-- A session of the quick lane whose first gate was passed. -/
theorem session_allOrNothing_quick :
 ∃ further,Reaches (performAll Database.empty
  [⟨"s",.createSession "/repo" .quick,0,none⟩,⟨"s",.passGate,1,none⟩])
   "s" "quick_plan" further := by
 let created:=performAll Database.empty [⟨"s",.createSession "/repo" .quick,0,none⟩]
 let passed:=performAll created [⟨"s",.passGate,1,none⟩]
 have hstatus:(created.getSession "s").map SessionState.status=some .pending := by
  decide +kernel
 have hse:(passed.getSession "s").map (fun s=>(s.lane,s.currentStage)) =
  some (.quick,"quick_intake") := by decide +kernel
 have hrow:∃row∈passed.listStages "s",row.state.stage = "quick_intake" ∧
  row.state.gateStatus.isOpen=true := by decide +kernel
 have hh:Heeds GatesInTime Database.empty "s"
  [⟨"s",.createSession "/repo" .quick,0,none⟩,⟨"s",.passGate,1,none⟩] := by
  intro earlier call later he _
  rcases earlier with _|⟨a,_|⟨b,earlier⟩⟩
  · cases he
    exact ⟨not_torn_of_fault_eq_none rfl,fun _ _=>nofun⟩
  · cases he
    refine ⟨not_torn_of_fault_eq_none rfl,fun session hge _=>?_⟩
    have hge:created.getSession "s" = some session := hge
    rw [hge,Option.map_some,Option.some.injEq] at hstatus
    rw [hstatus]
    decide
  · simp at he
 obtain ⟨session,hge,hl⟩:=Option.map_eq_some_iff.mp hse
 rw [Prod.mk.injEq] at hl
 obtain ⟨row,hme,hstage,ho⟩:=hrow
 refine ((session_allOrNothing ⟨"s",.passGate,1,none⟩ Database.empty "s" _).2 rfl hh session
  hge).1 row hme (hstage.trans hl.2.symm) ho "quick_plan" ?_
 rw [hl.1,hl.2]
 decide +kernel

/-- A session whose creation failed half way is moved without a gate; and a session whose
transition failed half way stays behind its newest row, whose gate no call sets. -/
theorem session_torn :
 let created := Call.perform ⟨"s",.createSession "/repo" .quick,0,some 1⟩ Database.empty
 let active := Call.perform ⟨"s",.activateSession,1,none⟩ created.2
 let moved := Call.perform ⟨"s",.transitionStage "quick_plan",2,none⟩ active.2
 let stopped := Call.perform ⟨"t",.transitionStage "quick_plan",3,some 4⟩ (performAll
  Database.empty [⟨"t",.createSession "/repo" .quick,0,none⟩,
   ⟨"t",.activateSession,1,none⟩,⟨"t",.passGate,2,none⟩])
 let retried := Call.perform ⟨"t",.transitionStage "quick_plan",5,none⟩
  (performAll stopped.2 [⟨"t",.passGate,4,none⟩])
 (created.1 = .error .statementFailed ∧
  created.2.view "s" ≠ Database.empty.view "s") ∧
  (moved.1 = .ok () ∧ active.2.listStages "s" = []) ∧
  (stopped.1 = .error .statementFailed ∧
   retried.1 = .error (.gateNotPassed "quick_plan" .pending)) := by
 decide +kernel

end DhKit.Sessions
