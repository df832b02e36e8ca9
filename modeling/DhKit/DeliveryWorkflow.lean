import DhKit.WorkItemPlanner

/-!
# The delivery workflow

The planned work items are implemented, reviewed and tested one after another.
-/
namespace DhKit.Delivery
open KeyedTables LayeredOrder List
open Relation (TransGen)

def endsWith (text suffix : String) : Bool := suffix.toList.isSuffixOf text.toList

structure GateEvidence where
 requirementsClear : Bool := false
 acceptanceCriteriaDefined : Bool := false
 solutionDefined : Bool := false
 sequencingDefined : Bool := false
 blockerFindingsResolved : Bool := false
 verificationEvidencePresent : Bool := false
deriving DecidableEq

inductive Gate where
 | intake | analysis | solution | review | verification | none
deriving DecidableEq

structure GateEvaluationResult where
 pass : Bool
 gate : Gate
 reason : String
deriving DecidableEq

/-- `hasObjective` is `objective.trim().length > 0`. -/
def evaluateGate (stage : String) (hasObjective : Bool) (evidence : GateEvidence) :
 GateEvaluationResult :=
 if endsWith stage "intake" then
  ⟨hasObjective,.intake,
   if hasObjective then "Objective is present." else "Objective is required for intake gate."⟩
 else if endsWith stage "analysis" || endsWith stage "baseline" || stage = "quick_plan" then
  let pass := evidence.requirementsClear && evidence.acceptanceCriteriaDefined
  ⟨pass,.analysis,if pass then "Requirements and acceptance criteria are defined."
   else "Requirements clarity and acceptance criteria are required."⟩
 else if endsWith stage "solution" || endsWith stage "strategy" || endsWith stage "task_split" then
  let pass := evidence.solutionDefined && evidence.sequencingDefined
  ⟨pass,.solution,if pass then "Solution and sequencing are defined."
   else "Solution and sequencing must be defined before execution."⟩
 else if endsWith stage "review" then
  let pass := evidence.blockerFindingsResolved
  ⟨pass,.review,if pass then "Review blockers are resolved."
   else "Review blockers must be resolved."⟩
 else if endsWith stage "verify" || endsWith stage "complete" then
  let pass := evidence.verificationEvidencePresent
  ⟨pass,.verification,if pass then "Verification evidence is present."
   else "Verification evidence is required."⟩
 else ⟨true,.none,"No gate applies to this stage."⟩

inductive ImplementerStatus where
 | done | doneWithConcerns | needsContext | blocked | other (text : String)
deriving DecidableEq

inductive ReviewerStatus where
 | pass | passWithNotes | fail | other (text : String)
deriving DecidableEq

inductive TesterStatus where
 | pass | partially | fail
deriving DecidableEq

structure Roles where
 implementer : WorkItemState → ImplementerStatus
 reviewer : WorkItemState → ReviewerStatus
 tester : WorkItemState → TesterStatus

structure WorkItemExecutionReport where
 workItem : WorkItemState
 implementer : ImplementerStatus
 reviewer : ReviewerStatus
 tester : TesterStatus
 reviewGate : GateEvaluationResult
 verificationGate : GateEvaluationResult

def executeWorkItem (roles : Roles) (hasObjective : Bool) (workItem : WorkItemState) :
 WorkItemExecutionReport :=
 let reviewer := roles.reviewer workItem
 let tester := roles.tester workItem
 { workItem := workItem
   implementer := roles.implementer workItem
   reviewer := reviewer
   tester := tester
   reviewGate := evaluateGate "delivery_review" hasObjective
    { blockerFindingsResolved := reviewer≠.fail }
   verificationGate := evaluateGate "delivery_verify" hasObjective
    { verificationEvidencePresent := tester≠.fail } }

inductive HookDecision where
 | allow | block
deriving DecidableEq

inductive QualityGateResultStatus where
 | pass | fail
deriving DecidableEq

structure DeliveryOutcome where
 executionReports : List WorkItemExecutionReport
 workflowGate : QualityGateResultStatus
 preAnswer : HookDecision
 preAnswerReason : String

def runDeliveryWorkflow (workItems : List WorkItemState) (roles : Roles) (hasObjective : Bool) :
 DeliveryOutcome :=
 let planned := planWorkItems workItems
 let executionReports := planned.executionOrder.foldl (fun reports group =>
  group.foldl (fun reports workItem =>
   reports++[executeWorkItem roles hasObjective workItem]) reports) []
 let aggregateReviewPass := executionReports.all fun report => report.reviewGate.pass
 let aggregateVerificationPass := executionReports.all fun report => report.verificationGate.pass
 let pass := aggregateReviewPass && aggregateVerificationPass
 { executionReports := executionReports
   workflowGate := if pass then .pass else .fail
   preAnswer := if pass then .allow else .block
   preAnswerReason :=
    if pass then "All delivery work-item review and verification gates passed."
    else "One or more delivery work-item review/verification gates did not pass." }

def DependsOn (items : List WorkItemState) (d k : String) : Prop :=
 ∃ item ∈ items,item.id = k ∧ d ∈ item.dependencies

structure WellPlanned (items : List WorkItemState) : Prop where
 pending : ∀ item ∈ items,item.status = .pending
 known : ∀ item ∈ items,∀ d ∈ item.dependencies,d ∈ items.map WorkItemState.id
 acyclic : ∀ k,¬ TransGen (DependsOn items) k k

section
variable {items : List WorkItemState} {item : WorkItemState}

theorem WellPlanned.schedulable (h:WellPlanned items)
 (hitem:item∈items) : Schedulable items item :=
 ⟨hitem,h.pending item hitem,h.known item hitem⟩

theorem transGen_dependsOn (h:∀item∈items,Schedulable items item) {k : String} :
 TransGen (DependsOn items) k k ↔ TransGen (WaitsFor items) k k := by
 have hsw:DependsOn items=Function.swap (WaitsFor items):=by
  funext d k
  refine propext (exists_congr fun item=>?_)
  constructor
  · rintro ⟨hitem,hid,hd⟩
    obtain ⟨dep,hde,hdi⟩:=mem_map.mp ((h item hitem).known d hd)
    exact ⟨h item hitem,hid,hd,dep,h dep hde,hdi⟩
  · rintro ⟨hitem,hid,hd,-⟩
    exact ⟨hitem.mem,hid,hd⟩
 rw [hsw,Relation.transGen_swap]

theorem WellPlanned.mem_executed (h:WellPlanned items)
 (hi:(items.map WorkItemState.id).Nodup) :
 item∈executed items ↔ item∈items := by
 rw [Delivery.mem_executed hi]
 refine ⟨fun hitem=>hitem.1.mem,fun hitem=>⟨h.schedulable hitem,?_⟩⟩
 rintro ⟨k,-,hcy⟩
 exact h.acyclic k ((transGen_dependsOn fun _=>h.schedulable).mpr hcy)

theorem executed_complete_iff (hi:(items.map WorkItemState.id).Nodup) :
 ((executed items).Perm items ∧ ∀before item rest,executed items=before++item::rest →
  ∀d∈item.dependencies,d∈before.map WorkItemState.id) ↔ WellPlanned items := by
 constructor
 · rintro ⟨hp,-⟩
   have hal:∀item∈items,Schedulable items item ∧ ¬ReachesCycle items item.id:=
    fun item hitem=>(mem_executed hi).mp (hp.mem_iff.mpr hitem)
   refine ⟨fun item hitem=>(hal item hitem).1.pending,
    fun item hitem=>(hal item hitem).1.known,fun k hcy=>?_⟩
   rw [transGen_dependsOn fun item hitem=>(hal item hitem).1] at hcy
   obtain ⟨item,hitem,rfl⟩:=ReachesCycle.schedulable ⟨k,.refl,hcy⟩
   exact (hal item hitem.mem).2 ⟨_,.refl,hcy⟩
 · intro h
   have ho:=(executed_spec hi).1
   refine ⟨(perm_ext_iff_of_nodup ho.nodup.of_map hi.of_map).mpr
    fun item=>h.mem_executed hi,?_⟩
   intro before item rest he d hd
   have hitem:item∈items:=(h.mem_executed hi).mp (by rw [he]; simp)
   apply ho.after before item rest he d
   refine (mem_awaited hi ((mem_schedulable hi).mpr (h.schedulable hitem))).mpr ⟨hd,?_⟩
   obtain ⟨dep,hde,rfl⟩:=mem_map.mp (h.known item hitem d hd)
   exact mem_map.mpr ⟨dep,(mem_schedulable hi).mpr (h.schedulable hde),rfl⟩

end

section
variable {items : List WorkItemState} {roles : Roles} {hasObjective : Bool}

theorem pass_reviewGate (workItem : WorkItemState) :
 (executeWorkItem roles hasObjective workItem).reviewGate.pass=true ↔
  roles.reviewer workItem≠.fail := by
 have hgate:∀evidence,(evaluateGate "delivery_review" hasObjective evidence).pass =
  evidence.blockerFindingsResolved := by
  have hr:endsWith "delivery_review" "review" = true := by decide +kernel
  have ho:∀suffix∈["intake","analysis","baseline","solution","strategy",
   "task_split"],endsWith "delivery_review" suffix=false := by decide +kernel
  simp [evaluateGate,hr,ho]
 simp [executeWorkItem,hgate]

theorem pass_verificationGate (workItem : WorkItemState) :
 (executeWorkItem roles hasObjective workItem).verificationGate.pass=true ↔
  roles.tester workItem≠.fail := by
 have hgate:∀evidence,(evaluateGate "delivery_verify" hasObjective evidence).pass =
  evidence.verificationEvidencePresent := by
  have hv:endsWith "delivery_verify" "verify" = true := by decide +kernel
  have ho:∀suffix∈["intake","analysis","baseline","solution","strategy",
   "task_split","review"],endsWith "delivery_verify" suffix=false := by decide +kernel
  simp [evaluateGate,hv,ho]
 simp [executeWorkItem,hgate]

theorem foldl_append_map {α β : Type} (f : α → β) (l : List α) (acc : List β) :
 l.foldl (fun acc a=>acc++[f a]) acc=acc++l.map f := by
 induction l generalizing acc with
 | nil => simp
 | cons a l ih => simp [ih]

theorem executionReports_eq :
 (runDeliveryWorkflow items roles hasObjective).executionReports =
  (executed items).map (executeWorkItem roles hasObjective) := by
 have hgr:∀ (groups : List (List WorkItemState)) (acc : List WorkItemExecutionReport),
  groups.foldl (fun reports group=>group.foldl (fun reports workItem=>
   reports++[executeWorkItem roles hasObjective workItem]) reports) acc =
  acc++groups.flatten.map (executeWorkItem roles hasObjective) := by
  intro groups
  induction groups with
  | nil => simp
  | cons group groups ih =>
   intro acc
   rw [foldl_cons,ih,foldl_append_map,flatten_cons,map_append,append_assoc]
 change (planWorkItems items).executionOrder.foldl _ []=_
 rw [hgr,nil_append]
 rfl

def NoneFails (items : List WorkItemState) (roles : Roles) : Prop :=
 ∀ item ∈ executed items,roles.reviewer item≠.fail ∧ roles.tester item≠.fail

theorem verdict_iff : ((runDeliveryWorkflow items roles hasObjective).preAnswer = .allow ∨
 (runDeliveryWorkflow items roles hasObjective).workflowGate = .pass) ↔
  NoneFails items roles := by
 have hp:((runDeliveryWorkflow items roles hasObjective).executionReports.all
  (fun report=>report.reviewGate.pass) &&
  (runDeliveryWorkflow items roles hasObjective).executionReports.all
  (fun report=>report.verificationGate.pass))=true ↔ NoneFails items roles := by
  rw [executionReports_eq,Bool.and_eq_true,all_eq_true,all_eq_true]
  simp only [forall_mem_map,pass_reviewGate,pass_verificationGate]
  exact ⟨fun h item hitem=>⟨h.1 item hitem,h.2 item hitem⟩,
   fun h=>⟨fun item hitem=>(h item hitem).1,fun item hitem=>(h item hitem).2⟩⟩
 rw [←hp]
 generalize hr : runDeliveryWorkflow items roles hasObjective=outcome
 have hpr:outcome.preAnswer=if (outcome.executionReports.all
  (fun report=>report.reviewGate.pass) && outcome.executionReports.all
  (fun report=>report.verificationGate.pass)) then .allow else .block := by
  rw [←hr]
  rfl
 have hgate:outcome.workflowGate=if (outcome.executionReports.all
  (fun report=>report.reviewGate.pass) && outcome.executionReports.all
  (fun report=>report.verificationGate.pass)) then .pass else .fail := by
  rw [←hr]
  rfl
 rw [hpr,hgate]
 cases (outcome.executionReports.all (fun report=>report.reviewGate.pass) &&
  outcome.executionReports.all (fun report=>report.verificationGate.pass)) <;> simp

/-- Every work item was executed once, after all of its dependencies, and passed its gates. -/
structure Delivered (items : List WorkItemState) (reports : List WorkItemExecutionReport) :
 Prop where
 once : (reports.map WorkItemExecutionReport.workItem).Perm items
 after : ∀ before report rest,reports = before++report::rest →
  ∀ d ∈ report.workItem.dependencies,d ∈ before.map fun earlier => earlier.workItem.id
 passed : ∀ report ∈ reports,
  report.reviewGate.pass = true ∧ report.verificationGate.pass = true

theorem delivered_iff :
 Delivered items (runDeliveryWorkflow items roles hasObjective).executionReports ↔
 ((executed items).Perm items ∧ ∀before item rest,executed items=before++item::rest →
  ∀d∈item.dependencies,d∈before.map WorkItemState.id) ∧ NoneFails items roles := by
 have hi:((executed items).map (executeWorkItem roles hasObjective)).map
  WorkItemExecutionReport.workItem=executed items := by
  rw [map_map]
  exact map_id _
 rw [executionReports_eq]
 constructor
 · intro h
   refine ⟨⟨hi ▸ h.once,?_⟩,?_⟩
   · intro before item rest he d hd
     have haf:=h.after (before.map (executeWorkItem roles hasObjective))
      (executeWorkItem roles hasObjective item)
      (rest.map (executeWorkItem roles hasObjective)) (by rw [he]; simp) d hd
     rw [map_map] at haf
     exact haf
   · intro item hitem
     have hp:=h.passed _ (mem_map.mpr ⟨item,hitem,rfl⟩)
     exact ⟨(pass_reviewGate item).mp hp.1,(pass_verificationGate item).mp hp.2⟩
 · rintro ⟨⟨hpe,haf⟩,hnone⟩
   refine ⟨hi.symm ▸ hpe,?_,?_⟩
   · intro before report rest he d hd
     obtain ⟨l,l',hsp,rfl,hre⟩:=map_eq_append_iff.mp he
     obtain ⟨item,l'',rfl,rfl,-⟩:=map_eq_cons_iff.mp hre
     rw [map_map]
     exact haf l item l'' hsp d hd
   · intro report hr
     obtain ⟨item,hitem,rfl⟩:=mem_map.mp hr
     exact ⟨(pass_reviewGate item).mpr (hnone item hitem).1,
      (pass_verificationGate item).mpr (hnone item hitem).2⟩

end

/-- A passing verdict means that everything was delivered exactly when an item that can be run
fails its review or test, or when all items are pending, known to each other and free of
cycles. -/
theorem deliveryGate_sound_iff (items : List WorkItemState) (roles : Roles) (hasObjective : Bool)
 (hids : (items.map WorkItemState.id).Nodup) :
 ((runDeliveryWorkflow items roles hasObjective).preAnswer = .allow ∨
  (runDeliveryWorkflow items roles hasObjective).workflowGate = .pass →
  Delivered items (runDeliveryWorkflow items roles hasObjective).executionReports) ↔
 (∃ item ∈ items,Runnable items item.id ∧
  (roles.reviewer item = .fail ∨ roles.tester item = .fail)) ∨ WellPlanned items := by
 rw [verdict_iff,delivered_iff,executed_complete_iff hids]
 have hf:(∃item∈items,Runnable items item.id ∧
  (roles.reviewer item = .fail ∨ roles.tester item = .fail)) ↔ ¬NoneFails items roles := by
  unfold NoneFails
  push Not
  constructor
  · rintro ⟨item,hitem,hru,hfa⟩
    refine ⟨item,(runnable_iff_executed hids hitem).mp hru,fun hne=>?_⟩
    rcases hfa with hfa|hfa
    · exact absurd hfa hne
    · exact hfa
  · rintro ⟨item,hitem,hfa⟩
    have hme:=((mem_executed hids).mp hitem).1.mem
    refine ⟨item,hme,(runnable_iff_executed hids hme).mpr hitem,?_⟩
    by_cases hr : roles.reviewer item = .fail
    · exact .inl hr
    · exact .inr (hfa hr)
 rw [hf]
 tauto

def contentRoles : Roles := ⟨fun _ => .done,fun _ => .pass,fun _ => .pass⟩

/-- Two items, the first of which depends on the second. -/
theorem deliveryGate_sound_iff_two :
 let items := [sampleItem "b" ["a"],sampleItem "a" []]
 (runDeliveryWorkflow items contentRoles true).preAnswer = .allow ∧
  Delivered items (runDeliveryWorkflow items contentRoles true).executionReports := by
 intro items
 have hi:(items.map WorkItemState.id).Nodup:=by decide
 have hal:(runDeliveryWorkflow items contentRoles true).preAnswer = .allow:=by
  decide +kernel
 have ho:executed items=[sampleItem "a" [],sampleItem "b" ["a"]] := by decide +kernel
 have hp:WellPlanned items:=by
  refine (executed_complete_iff hi).mp ⟨?_,?_⟩
  · rw [ho]
    exact List.Perm.swap _ _ _
  rw [ho]
  intro before item rest he d hd
  rcases before with _|⟨x,_|⟨y,before⟩⟩
  · cases he
    cases hd
  · cases he
    exact hd
  · simp at he
 exact ⟨hal,(deliveryGate_sound_iff items contentRoles true hi).mpr (.inr hp)
  (.inl hal)⟩

/-- Items on a cycle are not executed, and the answer is allowed; an item is executed although
the item it depends on is set aside for a dependency that does not exist. -/
theorem deliveryGate_vacuous :
 let cycle := runDeliveryWorkflow [sampleItem "a" ["b"],sampleItem "b" ["a"]] contentRoles true
 let dangling := runDeliveryWorkflow [sampleItem "a" ["ghost"],sampleItem "b" ["a"]]
  contentRoles true
 (cycle.preAnswer = .allow ∧ cycle.workflowGate = .pass ∧ cycle.executionReports.length = 0) ∧
  dangling.preAnswer = .allow ∧
  dangling.executionReports.map (fun report => report.workItem.id) = ["b"] := by
 decide +kernel

end DhKit.Delivery
