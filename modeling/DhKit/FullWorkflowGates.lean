import DhKit.FullWorkflowMirror

/-!
# The gates of the full workflow

A stage is reached lawfully when every gate before it was approved and the gate into it was not
rejected last.
-/
namespace DhKit.FullWorkflow
open KeyedTables SessionRecords RunConditions

def Precedes (stage other : Stage) : Prop := stages.idxOf stage < stages.idxOf other

instance (stage other : Stage) : Decidable (Precedes stage other) :=
 inferInstanceAs (Decidable (stages.idxOf stage < stages.idxOf other))

def Approved (approvals : List Approval) (gate : ApprovalGate) : Prop :=
 ∃ approval ∈ approvals,approval.gateId = gate.id ∧ approval.decision = .approve

def lastDecision (approvals : List Approval) (gateId : GateId) : Option Decision :=
 (approvals.filter fun approval => approval.gateId = gateId).getLast?.map Approval.decision

/-- Every gate before the stage has been approved, and the last word on the gate into it is not a
rejection. The gate into a stage is only decided in the stage before it, so that the last word is
the one that was in force when the stage was entered. -/
structure Passed (approvals : List Approval) (stage : Stage) : Prop where
 approved : ∀ gate ∈ approvalGates,Precedes gate.fromStage stage → Approved approvals gate
 entered : ∀ gate ∈ approvalGates,gate.toStage = stage →
  lastDecision approvals gate.id≠some .reject

def Gated (w : World) : Prop :=
 ∀ p state,HashMap.get w.stateFiles p = some state → Passed state.approvals state.currentStage

def RespectsGates (w : World) : Call → Prop
 | .reroute p _ target => ∀ state,HashMap.get w.stateFiles p = some state →
  Passed state.approvals target
 | _ => True

def Call.closes : Call → Bool
 | .close _ => true
 | _ => false

section
variable {approvals : List Approval} {gate : ApprovalGate} {approval : Approval} {stage : Stage}

theorem Approved.append (h:Approved approvals gate) :
 Approved (approvals++[approval]) gate := by
 obtain ⟨found,hf,hgate⟩:=h
 exact ⟨found,List.mem_append_left _ hf,hgate⟩

theorem lastDecision_append (gateId : GateId) : lastDecision (approvals++[approval]) gateId =
 if approval.gateId=gateId then some approval.decision
 else lastDecision approvals gateId := by
 unfold lastDecision
 split_ifs with hgate
 · simp [hgate]
 · simp [hgate]

theorem precedes_toStage : ∀gate∈approvalGates,∀other∈approvalGates,
 Precedes other.fromStage gate.toStage → Precedes other.fromStage gate.fromStage ∨
  other=gate := by decide

theorem gate_of_toStage : ∀gate∈approvalGates,∀other∈approvalGates,
 other.toStage=gate.toStage → other=gate := by decide

theorem gate_into_fromStage : ∀gate∈approvalGates,∀other∈approvalGates,
 other.toStage=gate.fromStage → gate.id≠other.id := by decide

theorem passed_product : Passed [] .product := by
 constructor
 · have hnone:∀gate∈approvalGates,¬Precedes gate.fromStage .product:=by decide
   intro gate hgate hp
   exact absurd hp (hnone gate hgate)
 · intro gate _ _ hl
   cases hl

section
variable (h : Passed approvals gate.fromStage) (hgate : gate ∈ approvalGates)
 (hid : approval.gateId = gate.id)
include h hgate hid

theorem Passed.approve (hde:approval.decision = .approve) :
 Passed (approvals++[approval]) gate.toStage := by
 constructor
 · intro other ho hp
   rcases precedes_toStage gate hgate other ho hp with hb|rfl
   · exact (h.approved other ho hb).append
   · exact ⟨approval,List.mem_append_right _ (List.mem_singleton.mpr rfl),hid,hde⟩
 · intro other ho hto
   rw [gate_of_toStage gate hgate other ho hto,lastDecision_append,if_pos hid,hde]
   intro hr
   cases hr

theorem Passed.reject : Passed (approvals++[approval]) gate.fromStage := by
 constructor
 · intro other ho hp
   exact (h.approved other ho hp).append
 · intro other ho hto
   have hne:approval.gateId≠other.id:=by
    rw [hid]
    exact gate_into_fromStage gate hgate other ho hto
   rw [lastDecision_append,if_neg hne]
   exact h.entered other ho hto

end

end

section
variable {w w' : World} {state' : FullWorkflowState}

theorem gated_written_iff (h:Gated w)
 (hf:w'.stateFiles=w.stateFiles.upsert (state'.parentSessionId,state')) :
 Gated w' ↔ Passed state'.approvals state'.currentStage := by
 unfold Gated
 rw [hf]
 constructor
 · intro h'
   apply h' state'.parentSessionId
   rw [get_written,if_pos rfl]
 · intro hpa p state hge
   rw [get_written] at hge
   split_ifs at hge with hp
   · cases hge
     exact hpa
   · exact h p state hge

theorem gated_step_iff (env : Surroundings) (h:Gated w) {call : Call}
 (hca:call.closes=false) : Gated (w.step env call) ↔ RespectsGates w call := by
 have ho:=perform_outcome env w call
 unfold World.step
 generalize perform env w call=result at ho
 cases ho with
 | thrown happlies hstores =>
  refine ⟨fun _=>?_,fun _=>by unfold Gated; rw [hstores.stateFiles]; exact h⟩
  cases call with
  | reroute p finding target =>
   intro state hread
   exact absurd ⟨state,hread⟩ happlies
  | _ => trivial
 | started hwritten hstage happrovals =>
  refine ⟨fun _=>trivial,fun _=>(gated_written_iff h hwritten.stateFiles).mpr ?_⟩
  rw [hstage,happrovals]
  exact passed_product
 | rejected hread hwritten hgate hfrom hparent hstage hstatus happrovals =>
  refine ⟨fun _=>trivial,fun _=>(gated_written_iff h hwritten.stateFiles).mpr ?_⟩
  have hp:=h _ _ hread
  rw [←hfrom] at hp hstage
  rw [hstage,happrovals]
  exact hp.reject hgate rfl
 | approved hread hwritten hgate hfrom hstage happrovals =>
  refine ⟨fun _=>trivial,fun _=>(gated_written_iff h hwritten.stateFiles).mpr ?_⟩
  have hp:=h _ _ hread
  rw [←hfrom] at hp
  rw [hstage,happrovals]
  exact hp.approve hgate rfl rfl
 | rerouted hread hwritten hstage happrovals =>
  rw [gated_written_iff h hwritten.stateFiles,hstage,happrovals]
  constructor
  · intro hp state hread'
    rw [hread] at hread'
    cases hread'
    exact hp
  · intro hr
    exact hr _ hread
 | blocked hread hwritten hstage happrovals =>
  refine ⟨fun _=>trivial,fun _=>(gated_written_iff h hwritten.stateFiles).mpr ?_⟩
  rw [hstage,happrovals]
  exact h _ _ hread
 | supported hread hwritten hkept =>
  refine ⟨fun _=>trivial,fun _=>(gated_written_iff h hwritten.stateFiles).mpr ?_⟩
  rw [hkept.currentStage,hkept.approvals]
  exact h _ _ hread
 | closed => cases hca

theorem gated_of_fresh (hf:w.stateFiles=Table.empty) : Gated w := by
 intro p state hge
 rw [hf,HashMap.get_empty] at hge
 cases hge

end

/-- In every state of a run without `closeFullWorkflow` each workflow is in a stage whose gates it
has passed, exactly when every reroute goes to such a stage. -/
theorem gates_passed_iff (env : Surroundings) (w : World) (hfresh : w.stateFiles = Table.empty)
 (calls : List Call) (hcalls : ∀ call ∈ calls,call.closes = false) :
 Throughout (World.step env) Gated w calls ↔ EachStep (World.step env) RespectsGates w calls :=
 throughout_iff_eachStep hcalls (fun _ _ hca h=>gated_step_iff env h hca)
  (gated_of_fresh hfresh)

/-- The product stage is approved and taken up again. -/
theorem gates_passed_iff_back : Throughout (World.step plainSurroundings) Gated emptyWorld
 [.start "goal" none,.advance "session" .productToSolution .approve none,
  .reroute "session" "missing edge cases" .product] := by
 apply (gates_passed_iff plainSurroundings emptyWorld rfl _ (by decide)).mpr
 refine eachStep_cons.mpr ⟨trivial,eachStep_cons.mpr ⟨trivial,eachStep_cons.mpr
  ⟨fun state _=>?_,eachStep_nil⟩⟩⟩
 have hnone:∀gate∈approvalGates,¬Precedes gate.fromStage .product ∧
  gate.toStage≠.product := by decide
 exact ⟨fun gate hgate hp=>absurd hp (hnone gate hgate).1,
  fun gate hgate hto=>absurd hto (hnone gate hgate).2⟩

/-- A gate is rejected, and a reroute enters the stage behind it. -/
theorem reroute_past_rejection :
 let w := [Call.start "goal" none,.advance "session" .productToSolution .reject none,
  .reroute "session" "go on" .solution].foldl (World.step plainSurroundings) emptyWorld
 (HashMap.get w.stateFiles "session").map FullWorkflowState.currentStage = some .solution ∧
  (HashMap.get w.stateFiles "session").map
   (fun state => lastDecision state.approvals .productToSolution) = some (some .reject) ∧
  ¬ Gated w := by
 intro w
 have hstage:(HashMap.get w.stateFiles "session").map FullWorkflowState.currentStage =
  some .solution := by decide +kernel
 have hl:(HashMap.get w.stateFiles "session").map
  (fun state=>lastDecision state.approvals .productToSolution)=some (some .reject) := by
  decide +kernel
 refine ⟨hstage,hl,fun hga=>?_⟩
 obtain ⟨state,hread,hso⟩:=Option.map_eq_some_iff.mp hstage
 have hp:=hga "session" state hread
 rw [hread] at hl
 exact hp.entered ⟨.productToSolution,.product,.solution⟩ (by decide) hso.symm
  (Option.some.inj hl)

end DhKit.FullWorkflow
