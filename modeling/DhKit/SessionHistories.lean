import Mathlib.Data.List.Induction
import DhKit.SessionSteps

/-!
# Histories of a session

The stages a session went through are the beginning of the chain of its lane.
-/
namespace DhKit.Sessions
open KeyedTables CommitRules StatementFaults Database List

theorem findIdx_eq {l : List String} (hn:l.Nodup) {k : Nat} {s : String} (h:l[k]?=some s) :
 l.findIdx? (· = s)=some k := by
 obtain ⟨hk,hs⟩:=List.getElem?_eq_some_iff.mp h
 rw [findIdx?_eq_some_iff_getElem]
 refine ⟨hk,by simpa using hs,?_⟩
 intro j hj hc
 have hj':l[j]=l[k]:=by
  rw [hs]
  simpa using hc
 exact absurd ((Nodup.getElem_inj_iff hn).mp hj') (by omega)

variable {lane : WorkflowLane}

theorem isValidTransition_iff {k : Nat} {current next : String}
 (h:(stageChainFor lane)[k]?=some current) :
 isValidTransition lane current next=true ↔ (stageChainFor lane)[k+1]?=some next := by
 rw [isValidTransition,findIdx_eq (nodup_stageChainFor lane) h]
 constructor
 · intro hv
   cases hn : (stageChainFor lane).findIdx? (· = next) with
   | none => simp [hn] at hv
   | some j =>
    rw [hn] at hv
    have hj:j=k+1:=of_decide_eq_true hv
    obtain ⟨hlt,hs,-⟩:=findIdx?_eq_some_iff_getElem.mp hn
    rw [←hj,getElem?_eq_getElem hlt]
    simpa using hs
 · intro hn
   rw [findIdx_eq (nodup_stageChainFor lane) hn]
   simp

theorem index_finalStage {k : Nat} {current : String}
 (h:(stageChainFor lane)[k]?=some current) (hf:current=finalStage lane) :
 k+1=(stageChainFor lane).length := by
 have hen:(stageChainFor lane)[(stageChainFor lane).length-1]?=some current:=by
  rw [←getLast?_eq_getElem?,getLast?_eq_some_getLast (stageChainFor_ne_nil lane),hf]
  rfl
 obtain ⟨hk,hks⟩:=List.getElem?_eq_some_iff.mp h
 obtain ⟨hl,hls⟩:=List.getElem?_eq_some_iff.mp hen
 have := (Nodup.getElem_inj_iff (nodup_stageChainFor lane)).mp (hks.trans hls.symm)
 omega

/-- A session stands at the `k`-th stage of its lane, and its rows are the stages up to it. -/
structure AtStage (sessionId : String) (lane : WorkflowLane) (current : String)
 (rows : List StageRow) (k : Nat) : Prop where
 current : (stageChainFor lane)[k]? = some current
 owned : ∀ row ∈ rows,row.state.sessionId = sessionId
 stages : rows.map (fun row => row.state.stage) = (stageChainFor lane).take (k+1)
 previous : rows.map (fun row => row.state.previousStage) =
  none::((stageChainFor lane).take k).map some
 passed : ∀ row ∈ rows.take k,row.state.stageStatus = .passed ∧ row.state.gateStatus.isOpen

namespace AtStage
variable {sessionId current : String} {lane : WorkflowLane} {rows : List StageRow} {k : Nat}
 {state : WorkflowStageState}

section
variable (h : AtStage sessionId lane current rows k)
include h

theorem length_eq : rows.length=k+1 := by
 obtain ⟨hk,-⟩:=List.getElem?_eq_some_iff.mp h.current
 have hl:=congrArg List.length h.stages
 rw [length_map,length_take] at hl
 omega

theorem stage_ne {row : StageRow} (hrow:row∈rows.take k) : row.state.stage≠current := by
 intro he
 have hme:row.state.stage∈(stageChainFor lane).take k:=by
  have hst:=congrArg (List.take k) h.stages
  rw [←map_take,take_take,Nat.min_eq_left (Nat.le_succ k)] at hst
  rw [←hst]
  exact mem_map.mpr ⟨row,hrow,rfl⟩
 rw [he] at hme
 obtain ⟨j,hj,hjs⟩:=getElem_of_mem hme
 rw [length_take] at hj
 obtain ⟨hk,hks⟩:=List.getElem?_eq_some_iff.mp h.current
 rw [getElem_take,←hks] at hjs
 exact absurd ((Nodup.getElem_inj_iff (nodup_stageChainFor lane)).mp hjs) (by omega)

theorem stage_newest :
 ∃newest,rows=rows.take k++[newest] ∧ newest.state.stage=current := by
 have hl:=h.length_eq
 have hk:k < rows.length:=by omega
 refine ⟨rows[k],?_,?_⟩
 · have hta:=take_append_drop k rows
   rw [drop_eq_getElem_cons hk,drop_eq_nil_of_le (by omega)] at hta
   exact hta.symm
 · have hstage:=congrArg (fun l=>l[k]?) h.stages
   simp only [getElem?_map,getElem?_eq_getElem hk,Option.map_some,
    getElem?_take_of_lt (Nat.lt_succ_self k),h.current,Option.some.injEq] at hstage
   exact hstage

end

theorem map_setStatus (rows : List StageRow) (sessionId stage : String) (status : StageStatus)
 (gate : GateStatus) (nowMs : Int) :
 (rows.map (setStatus sessionId stage status gate nowMs)).map (fun row=>row.state.stage) =
  rows.map (fun row=>row.state.stage) ∧
  (rows.map (setStatus sessionId stage status gate nowMs)).map
   (fun row=>row.state.previousStage) =
   rows.map (fun row=>row.state.previousStage) := by
 have hrow:∀row,(setStatus sessionId stage status gate nowMs row).state.stage =
  row.state.stage ∧ (setStatus sessionId stage status gate nowMs row).state.previousStage =
   row.state.previousStage := by
  intro row
  unfold setStatus
  split_ifs <;> exact ⟨rfl,rfl⟩
 constructor
 · rw [map_map]
   exact map_congr_left fun row _=>(hrow row).1
 · rw [map_map]
   exact map_congr_left fun row _=>(hrow row).2

section
variable (h : AtStage sessionId lane current rows k)
include h

theorem rewrite_eq (status : StageStatus) (gate : GateStatus) (nowMs : Int) :
 (rows.map (setStatus sessionId current status gate nowMs)).take k=rows.take k := by
 rw [←map_take]
 conv_rhs => rw [←map_id (rows.take k)]
 apply map_congr_left
 intro row hrow
 exact setStatus_of_ne (.inr (h.stage_ne hrow))

theorem rewrite (status : StageStatus) (gate : GateStatus) (nowMs : Int) :
 AtStage sessionId lane current (rows.map (setStatus sessionId current status gate nowMs)) k where
 current := h.current
 owned := by
  intro row hrow
  obtain ⟨old,ho,rfl⟩:=mem_map.mp hrow
  rw [sessionId_setStatus]
  exact h.owned old ho
 stages := (map_setStatus rows sessionId current status gate nowMs).1.trans h.stages
 previous := (map_setStatus rows sessionId current status gate nowMs).2.trans h.previous
 passed := by
  rw [h.rewrite_eq]
  exact h.passed

theorem newest :
 ∃row∈rows,row.state.stage=current ∧ currentState rows=some row.state := by
 obtain ⟨newest,hr,hstage⟩:=h.stage_newest
 refine ⟨newest,by rw [hr]; simp,hstage,?_⟩
 rw [hr,currentState,getLast?_append,getLast?_singleton]
 rfl

end

theorem leavingGate_eq (h:currentState rows=some state) :
 leavingGate rows=state.gateStatus := by
 rw [leavingGate,h]
 rfl

theorem gate_isOpen (h:currentState rows=some state)
 (hgate:checkGate (currentState rows) = .ok ()) : state.gateStatus.isOpen=true := by
 rw [h,checkGate] at hgate
 by_contra hcl
 rw [if_neg hcl] at hgate
 cases hgate

theorem enter (h:AtStage sessionId lane current rows k) {session : SessionState}
 (hcu:session.currentStage=current) {next : String}
 (hn:(stageChainFor lane)[k+1]?=some next)
 (hgate:checkGate (currentState rows) = .ok ()) (rowId : Nat) (nowMs : Int) :
 AtStage sessionId lane next (left sessionId nowMs session rows ++
  [⟨rowId,nextStageState session sessionId next nowMs⟩]) (k+1) := by
 subst hcu
 have hl:=h.rewrite .passed (leavingGate rows) nowMs
 have hle:=hl.length_eq
 refine ⟨hn,?_,?_,?_,?_⟩
 · intro row hrow
   rcases mem_append.mp hrow with hrow|hrow
   · exact hl.owned row hrow
   · rw [mem_singleton.mp hrow]
     rfl
 · rw [map_append,left,hl.stages,@List.take_add_one _ _ (k+1),hn]
   rfl
 · rw [map_append,left,hl.previous,take_add_one,h.current,map_append]
   rfl
 · -- of the rows that are left, the earlier ones had passed and the newest passes now
   rw [left,take_append_of_le_length (by omega),take_of_length_le (by omega)]
   obtain ⟨newest,hr,hstage⟩:=h.stage_newest
   obtain ⟨row,-,-,hst⟩:=h.newest
   have hop:(leavingGate rows).isOpen=true:=by
    rw [leavingGate_eq hst]
    exact gate_isOpen hst hgate
   intro row hrow
   obtain ⟨old,ho,rfl⟩:=mem_map.mp hrow
   by_cases hcur : old.state.stage=session.currentStage
   · rw [setStatus,if_pos ⟨h.owned old ho,hcur⟩]
     exact ⟨rfl,hop⟩
   rw [setStatus_of_ne (.inr hcur)]
   apply h.passed old
   rw [hr] at ho
   rcases mem_append.mp ho with ho|ho
   · exact ho
   · rw [mem_singleton.mp ho] at hcur
     exact absurd hstage hcur

theorem start (sessionId : String) (lane : WorkflowLane) (rowId : Nat) (nowMs : Int) :
 AtStage sessionId lane (initialStage lane) [⟨rowId,firstStage sessionId lane nowMs⟩] 0 := by
 have hh:(stageChainFor lane)[0]?=some (initialStage lane):=by
  rw [←head?_eq_getElem?,initialStage,head?_eq_some_head]
 refine ⟨hh,?_,?_,?_,?_⟩
 · intro row hrow
   rw [mem_singleton.mp hrow]
   rfl
 · rw [take_add_one,hh]
   rfl
 · rfl
 · intro row hrow
   cases hrow

end AtStage

theorem performAll_concat (db : Database) (calls : List Call) (call : Call) :
 performAll db (calls++[call])=(call.perform (performAll db calls)).2 := by
 rw [performAll,performAll,foldl_append]
 rfl

/-- Calls for other sessions leave a session as it is, whichever of their statements fail. -/
theorem performAll_others (db : Database) (calls : List Call) (sessionId : String) :
 (performAll db (calls.filter (·.sessionId ≠ sessionId))).view sessionId = db.view sessionId := by
 induction calls generalizing db with
 | nil => rfl
 | cons call calls ih =>
  rw [filter_cons]
  split_ifs with h
  · exact (ih _).trans (perform_other call db (Ne.symm (of_decide_eq_true h)))
  · exact ih db

/-- The calls on a session are not torn and meet a condition on what they find. -/
def Heeds (C : View → Request → Prop) (db : Database) (sessionId : String) (calls : List Call) :
 Prop :=
 ∀ earlier call later,calls = earlier++call::later → call.sessionId = sessionId →
  ¬ Torn ((performAll db earlier).view sessionId) call ∧
   C ((performAll db earlier).view sessionId) call.request

theorem heeds_of_reliable {db : Database} {sessionId : String} {calls : List Call}
 (h:∀call∈calls,call.fault=none) : Heeds (fun _ _=>True) db sessionId calls := by
 intro earlier call later he _
 exact ⟨not_torn_of_fault_eq_none (h call (by rw [he]; simp)),trivial⟩

variable {C : View → Request → Prop}

theorem Heeds.of_append {db : Database} {sessionId : String}
 {calls more : List Call} (h:Heeds C db sessionId (calls++more)) :
 Heeds C db sessionId calls := by
 intro earlier call later he
 exact h earlier call (later++more) (by rw [he]; simp)

theorem run_invariant {P : List Call → View → Prop} {db : Database}
 {sessionId : String} (hst:P [] (db.view sessionId))
 (hsa:∀calls call v,P calls v → P (calls++[call]) v)
 (hmo:∀calls call v',P calls ((performAll db calls).view sessionId) →
  call.sessionId=sessionId → (call.perform (performAll db calls)).1 = .ok () →
  C ((performAll db calls).view sessionId) call.request →
  Advances sessionId call.nowMs ((performAll db calls).view sessionId) call.request v' →
  P (calls++[call]) v')
 {calls : List Call} (h:Heeds C db sessionId calls) :
 P calls ((performAll db calls).view sessionId) := by
 induction calls using List.reverseRecOn with
 | nil => exact hst
 | append_singleton calls call ih =>
  have ih:=ih h.of_append
  rw [performAll_concat]
  by_cases hid : call.sessionId=sessionId
  · obtain ⟨hwh,hC⟩:=h calls call [] rfl hid
    have hca:=perform_whole (hid ▸ hwh)
    rw [hid] at hca
    rcases hca with ⟨hok,had⟩|⟨-,hl⟩
    · exact hmo calls call _ ih hid hok hC had
    · rw [hl]
      exact hsa calls call _ ih
  · rw [perform_other call _ (Ne.symm hid)]
    exact hsa calls call _ ih

structure OnTrack (sessionId : String) (lane : WorkflowLane) (v : View) (session : SessionState)
 (k : Nat) : Prop where
 found : v.session = some session
 lane_eq : session.lane = lane
 atStage : AtStage sessionId lane session.currentStage v.stages k
 pending : session.status = .pending → k = 0

section
variable {sessionId : String} {lane : WorkflowLane} {nowMs : Int} {v v' : View}
 {request : Request} {session : SessionState} {k : Nat}

theorem OnTrack.currentStage_of_pending (h:OnTrack sessionId lane v session k)
 (hp:session.status = .pending) : session.currentStage=initialStage lane := by
 have hcu:=h.atStage.current
 rw [h.pending hp,←head?_eq_getElem?,
  head?_eq_some_head (stageChainFor_ne_nil lane)] at hcu
 exact (Option.some.inj hcu).symm

theorem OnTrack.advances (h:OnTrack sessionId lane v session k)
 (hmo:Advances sessionId nowMs v request v') :
 ∃session' k',OnTrack sessionId lane v' session' k' := by
 obtain ⟨hf,rfl,hat,hp⟩:=h
 have htr:OnTrack sessionId session.lane v session k:=⟨hf,rfl,hat,hp⟩
 cases hmo with
 | create repoRoot lane rowId => cases hf
 | resume | history | envelope => exact ⟨session,k,htr⟩
 | activate s rows hstatus =>
  cases hf
  have hi:=htr.currentStage_of_pending hstatus
  refine ⟨_,k,rfl,rfl,?_,fun hs=>by cases hs⟩
  rw [activated,←hi]
  exact hat.rewrite _ _ _
 | move s rows nextStage rowId hma =>
  cases hf
  have hn:=(isValidTransition_iff hat.current).mp hma.valid
  refine ⟨_,k+1,rfl,rfl,hat.enter rfl hn hma.gate rowId nowMs,?_⟩
  intro hstatus
  rw [hma.active] at hstatus
  cases hstatus
 | passGate s rows | waiveGate s rows =>
  cases hf
  exact ⟨_,k,rfl,rfl,hat.rewrite _ _ _,hp⟩
 | complete s rows hfi =>
  cases hf
  rw [←hfi]
  exact ⟨_,k,rfl,rfl,hat.rewrite _ _ _,fun hs=>by cases hs⟩
 | fail s rows reason =>
  cases hf
  exact ⟨_,k,rfl,rfl,hat.rewrite _ _ _,fun hs=>by cases hs⟩

theorem OnTrack.performAll {db : Database}
 (h:OnTrack sessionId lane (db.view sessionId) session k)
 {calls : List Call} (hr:∀call∈calls,call.fault=none) :
 ∃session' k',OnTrack sessionId lane ((performAll db calls).view sessionId) session' k' := by
 refine @run_invariant _ (fun _ v=>∃session k,OnTrack sessionId lane v session k) db sessionId
  ⟨session,k,h⟩ (fun _ _ _ h=>h) ?_ calls (heeds_of_reliable hr)
 rintro calls call v' ⟨session,k,h⟩ _ _ _ hmo
 exact h.advances hmo

end

theorem onTrack_created {db : Database} {sessionId : String}
 (h:db.getSession sessionId=none) (repoRoot : String) (lane : WorkflowLane) (nowMs : Int) :
 ∃session,OnTrack sessionId lane ((Call.perform
  ⟨sessionId,.createSession repoRoot lane,nowMs,none⟩ db).2.view sessionId) session 0 := by
 obtain ⟨stores,hsc⟩:=
  (scripted_createSession h repoRoot lane :
   ∃stores,Scripted sessionId nowMs db (.createSession repoRoot lane) 0 stores)
 have hmo:=hsc.advances
 rw [view_of_absent h] at hmo
 rw [Call.perform,(hsc.follows none).2,written]
 generalize (stores.getLastD db).view sessionId=v' at hmo
 cases hmo with
 | create repoRoot lane rowId =>
  exact ⟨_,rfl,rfl,AtStage.start sessionId lane rowId nowMs,fun _=>rfl⟩

theorem isOpen_iff {gate : GateStatus} : gate.isOpen=true ↔ gate = .passed ∨ gate = .waived := by
 cases gate <;> decide

/-- The stage rows of a session are the beginning of the chain of its lane, up to the current
stage. -/
theorem stageRows_chainPrefix (db : Database) (sessionId repoRoot : String) (lane : WorkflowLane)
 (nowMs : Int) (calls : List Call) (habsent : db.getSession sessionId = none)
 (hreliable : ∀ call ∈ calls,call.fault = none) :
 let db' := performAll db (⟨sessionId,.createSession repoRoot lane,nowMs,none⟩::calls)
 ∃ session k,db'.getSession sessionId = some session ∧
  (stageChainFor lane)[k]? = some session.currentStage ∧
  ((db'.listStages sessionId).map StageRow.rowId).Pairwise (· < ·) ∧
  (db'.listStages sessionId).map (fun row => row.state.stage) =
   (stageChainFor lane).take (k+1) ∧
  ((db'.listStages sessionId).map fun row => row.state.stage).Nodup ∧
  ∀ i row,(db'.listStages sessionId)[i]? = some row →
   row.state.previousStage = (if i = 0 then none else (stageChainFor lane)[i-1]?) ∧
   (i < k → row.state.stageStatus = .passed ∧
    (row.state.gateStatus = .passed ∨ row.state.gateStatus = .waived)) := by
 intro db'
 obtain ⟨session₀,h₀⟩:=onTrack_created habsent repoRoot lane nowMs
 obtain ⟨session,k,hf,rfl,hat,-⟩:=h₀.performAll hreliable
 change AtStage _ _ _ (db'.listStages sessionId) k at hat
 refine ⟨session,k,hf,hat.current,?_,hat.stages,?_,?_⟩
 · exact db'.ascending.sublist (filter_sublist.map _)
 · rw [hat.stages]
   exact (nodup_stageChainFor session.lane).sublist (take_sublist _ _)
 intro i row hrow
 obtain ⟨hi,hge⟩:=List.getElem?_eq_some_iff.mp hrow
 rw [hat.length_eq] at hi
 constructor
 · have hp:=congrArg (fun l=>l[i]?) hat.previous
   simp only [getElem?_map,hrow] at hp
   cases i with
   | zero => simpa using hp
   | succ i =>
    rw [getElem?_cons_succ,getElem?_map,
     getElem?_take_of_lt (by omega : i < k)] at hp
    obtain ⟨stage,hstage,hso⟩:=Option.map_eq_some_iff.mp hp.symm
    rw [if_neg (Nat.succ_ne_zero i),Nat.add_sub_cancel,hstage,hso]
 · intro hik
   have hme:row∈(db'.listStages sessionId).take k:=
    mem_iff_getElem?.mpr ⟨i,by rw [getElem?_take_of_lt hik]; exact hrow⟩
   exact ⟨(hat.passed row hme).1,isOpen_iff.mp (hat.passed row hme).2⟩

/-- A session of the quick lane that was activated and moved to its second stage. -/
theorem stageRows_chainPrefix_quick :
 let calls : List Call := [⟨"s",.activateSession,1,none⟩,⟨"s",.passGate,2,none⟩,
  ⟨"s",.transitionStage "quick_plan",3,none⟩,⟨"s",.transitionStage "quick_verify",4,none⟩]
 let db' := performAll Database.empty (⟨"s",.createSession "/repo" .quick,0,none⟩ :: calls)
 ((db'.listStages "s").map fun row => row.state.stage) = ["quick_intake","quick_plan"] ∧
  ((db'.listStages "s").map fun row => row.state.stage).Nodup := by
 intro calls db'
 have hr:∀call∈calls,call.fault=none:=by simp [calls]
 obtain ⟨session,k,-,-,-,-,hn,-⟩:=
  stageRows_chainPrefix Database.empty "s" "/repo" .quick 0 calls rfl hr
 exact ⟨by decide +kernel,hn⟩

end DhKit.Sessions
