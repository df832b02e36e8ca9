import Mathlib.Data.List.Infix
import Mathlib.Data.List.Sort
import DhKit.KeyedTables

/-!
# The planner of external tools

A registry lists the external tools ("MCPs") with the lanes and roles that may use them.
-/
namespace DhKit.Mcp
open KeyedTables List

/-! ## Registry and options -/

inductive ExtensionLane where
 | quick | delivery | migration | full
deriving DecidableEq

inductive ExtensionRole where
 | quick | coordinator | analyst | architect | implementer | reviewer | tester
deriving DecidableEq

inductive ExtensionDecisionKind where
 | allow | block | modify
deriving DecidableEq

inductive McpReasonCode where
 | laneMatch | laneMismatch | roleMatch | roleMismatch | intentMatch | intentNoMatch
 | capabilityMatch | capabilityDenied | priorityBoost | deprioritized | requiresAuth | needsAuth
 | statusUnavailable | statusDegraded | fallbackApplied | blockedByPrecondition
 | noRuntimeStatus | noAuthContext | entryMissing | contractVersionMismatch
 | compatCheckFailed | statusStale | missingRuntimeSignal
deriving DecidableEq

inductive McpRoutingStatus where
 | available | degraded | needsAuth | unavailable
deriving DecidableEq

inductive McpHealthClass where
 | critical | standard | bestEffort
deriving DecidableEq

inductive RuntimeFailSafe where
 | allowWithWarning | degradeOrFallback
deriving DecidableEq

structure ExtensionSpec where
 id : String
 contractVersion : String
 entry : String
 capabilities : List String
 priority : Int
 lanes : List ExtensionLane
 roles : List ExtensionRole
deriving DecidableEq

structure McpRegistryEntry extends ExtensionSpec where
 triggerTags : List String
 requiresAuth : Bool := false
 degradeTo : List String := []
 healthClass : Option McpHealthClass := none
deriving DecidableEq

def defaultMcpRegistry : List McpRegistryEntry :=
 [{ id := "augment_context_engine",contractVersion := "v1"
    entry := "tool:augment_context_engine"
    lanes := [.quick,.delivery,.migration]
    roles := [.quick,.analyst,.architect,.implementer,.reviewer]
    triggerTags := ["codebase","trace","impact","bug"]
    capabilities := ["code_search","impact_analysis","traceability"]
    priority := 100,healthClass := some .critical },
  { id := "context7",contractVersion := "v1",entry := "tool:context7"
    lanes := [.quick,.delivery,.migration]
    roles := [.quick,.analyst,.architect,.reviewer]
    triggerTags := ["library","framework","migration","api"]
    capabilities := ["docs_lookup","api_reference","migration_research"]
    priority := 90,healthClass := some .standard },
  { id := "grep_app",contractVersion := "v1",entry := "tool:grep_app"
    lanes := [.delivery,.migration]
    roles := [.analyst,.architect]
    triggerTags := ["research","pattern","migration"]
    capabilities := ["pattern_research","migration_research"]
    priority := 80,healthClass := some .bestEffort },
  { id := "websearch",contractVersion := "v1",entry := "tool:websearch"
    lanes := [.delivery,.migration]
    roles := [.analyst,.architect,.tester]
    triggerTags := ["research","release-notes","ecosystem"]
    capabilities := ["ecosystem_research","release_notes","external_lookup"]
    priority := 70,healthClass := some .bestEffort },
  { id := "chrome-devtools",contractVersion := "v1",entry := "tool:chrome-devtools"
    lanes := [.quick,.delivery,.migration]
    roles := [.quick,.tester]
    triggerTags := ["browser","frontend","performance"]
    capabilities := ["browser_diag","performance_diagnostics"]
    priority := 95,requiresAuth := true,degradeTo := ["playwright","augment_context_engine"]
    healthClass := some .standard },
  { id := "playwright",contractVersion := "v1",entry := "tool:playwright"
    lanes := [.quick,.delivery,.migration]
    roles := [.quick,.tester]
    triggerTags := ["browser","frontend","ui-flow"]
    capabilities := ["browser_automation","ui_flow","frontend_verification"]
    priority := 85,requiresAuth := true,degradeTo := ["augment_context_engine"]
    healthClass := some .standard }]

structure McpRuntimeRecord where
 status : McpRoutingStatus
 authReady : Option Bool := none
 stale : Bool := false
 signalMissing : Bool := false
deriving DecidableEq

/-- A `Record<string, α>`, with its keys in insertion order. -/
abbrev Record (α : Type) := Table String (String × α) Prod.fst

section
variable {α : Type}

section
variable (record : Record α) (name : String)

def valueOf : Option α := (record.find name).map Prod.snd

def assign (value : α) : Record α :=
 record.upsert (name,value)

def remove : Record α :=
 record.deleteWhere fun row => row.1 = name

end

theorem valueOf_assign {record : Record α} {name other : String} {value : α} :
 valueOf (assign record name value) other =
  if other=name then some value else valueOf record other := by
 unfold valueOf assign
 rw [Table.find_upsert]
 split_ifs <;> rfl

end

/-- Absent options are options with no field set. -/
structure McpRoutingDecisionOptions where
 runtimeSnapshot : Option (Record McpRuntimeRecord) := none
 maxSelected : Option Int := none
 requiredCapabilities : Option (List String) := none
 supportedContractVersions : Option (List String) := none
 runtimeStateRepoRoot : Option String := none
 staleRuntimeFailSafe : Option RuntimeFailSafe := none
 missingRuntimeFailSafe : Option RuntimeFailSafe := none

namespace McpRoutingDecisionOptions
variable (options : McpRoutingDecisionOptions)

def capabilities : List String := options.requiredCapabilities.getD []

def versions : List String := options.supportedContractVersions.getD ["v1"]

def runtimeRecordFor (mcpName : String) : Option McpRuntimeRecord :=
 options.runtimeSnapshot.bind fun snapshot => valueOf snapshot mcpName

end McpRoutingDecisionOptions

structure ExecutionEnvelopeState where
 lane : ExtensionLane
 role : ExtensionRole

structure Collation where
 localeCompare : String → String → Ordering
 toLowerCase : String → String

/-! ## The routing policy -/

def includes (text part : String) : Bool := part.toList <:+: text.toList

/-- The words that add tags. No tag stands in two rules, so that the tags form a set. -/
def intentRules : List (List String × List String) :=
 [(["trace"],["trace"]),
  (["impact"],["impact"]),
  (["bug","debug"],["bug"]),
  (["library","framework","api"],["library","framework","api"]),
  (["browser","ui","frontend"],["browser","frontend","ui-flow","performance"]),
  (["migration","release"],
   ["migration","research","release-notes","ecosystem","pattern"])]

variable (collation : Collation)

def inferIntentTags (intent : String) : List String :=
 let normalized := collation.toLowerCase intent
 let applied := intentRules.filter fun rule => rule.1.any (includes normalized)
 "codebase" :: applied.flatMap Prod.snd

variable (entry : McpRegistryEntry)

def hasIntentTagMatch (intentTags : List String) : Bool :=
 entry.triggerTags.any intentTags.contains

def scoreRegistryEntry (intentTags : List String) :
 Int × List McpReasonCode :=
 if hasIntentTagMatch entry intentTags then
  (entry.priority+20,[.priorityBoost,.intentMatch,.capabilityMatch])
 else (entry.priority-25,[.priorityBoost,.intentNoMatch,.deprioritized])

def canUseDegraded : Bool :=
 match entry.healthClass with
 | none => false
 | some healthClass => healthClass≠.critical

def hasAllRequiredCapabilities (required : List String) : Bool :=
 required.all entry.capabilities.contains

variable (options : McpRoutingDecisionOptions)

def Offered (entry : McpRegistryEntry) : Prop :=
 entry.contractVersion ∈ options.versions ∧ entry.entry ≠ "" ∧
  hasAllRequiredCapabilities entry options.capabilities = true

/-- What the three pickers of a fallback ask of the runtime snapshot. -/
def runtimeUsable (stale missing : RuntimeFailSafe) : Option McpRuntimeRecord → Bool
 | none => missing≠.degradeOrFallback
 | some runtime =>
  !(runtime.status = .unavailable || runtime.status = .needsAuth) &&
   !(stale = .degradeOrFallback && runtime.stale) &&
   !(missing = .degradeOrFallback && runtime.signalMissing)

/-! ## The planner -/

structure McpRoutingDecision where
 selected : List String := []
 blocked : List String := []
 warnings : List String := []
 decisions : Record ExtensionDecisionKind := .empty
 reasons : Record (List McpReasonCode) := .empty
 rejected : Record (List McpReasonCode) := .empty

structure Candidate where
 entry : McpRegistryEntry
 score : Int
 reasons : List McpReasonCode

def plannerStale : RuntimeFailSafe :=
 options.staleRuntimeFailSafe.getD .allowWithWarning

def plannerMissing : RuntimeFailSafe :=
 options.missingRuntimeFailSafe.getD .allowWithWarning

variable (envelope : ExecutionEnvelopeState)

/-- An entry becomes a candidate or is rejected with its reasons. -/
def evaluate (tags : List String)
 (options : McpRoutingDecisionOptions) (entry : McpRegistryEntry) :
 Except (List McpReasonCode) Candidate :=
 if entry.contractVersion ∉ options.versions then .error [.contractVersionMismatch]
 else if entry.entry = "" then .error [.entryMissing]
 else if envelope.lane ∉ entry.lanes then .error [.laneMismatch]
 else if envelope.role ∉ entry.roles then .error [.roleMismatch]
 else if !hasAllRequiredCapabilities entry options.capabilities then .error [.capabilityDenied]
 else
  let matched := [.laneMatch,.roleMatch] ++
   if options.capabilities.length > 0 then [.capabilityMatch] else []
  let scored := scoreRegistryEntry entry tags
  match options.runtimeRecordFor entry.id with
  | none =>
   if plannerMissing options = .allowWithWarning then
    .ok ⟨entry,scored.1,matched++[.noRuntimeStatus]++scored.2⟩
   else .error (matched++[.missingRuntimeSignal])
  | some runtime =>
   if runtime.signalMissing && plannerMissing options = .degradeOrFallback then
    .error (matched++[.missingRuntimeSignal])
   else
    let matched := matched++if runtime.signalMissing then [.missingRuntimeSignal] else []
    if runtime.stale && plannerStale options = .degradeOrFallback then
     .error (matched++[.statusStale])
    else
     let matched := matched++if runtime.stale then [.statusStale] else []
     .ok ⟨entry,scored.1,matched++scored.2⟩

def comesFirst (number : McpRegistryEntry → Int)
 (left right : McpRegistryEntry) : Prop :=
 number right < number left ∨
  number right = number left ∧ collation.localeCompare left.id right.id≠.gt

instance (collation : Collation) (number : McpRegistryEntry → Int) :
 DecidableRel (comesFirst collation number) :=
 fun _ _ => inferInstanceAs (Decidable (_ ∨ _))

variable (registry : List McpRegistryEntry)

def priorityOrder :
 List McpRegistryEntry :=
 registry.insertionSort (comesFirst collation (·.priority))

/-- Its caller takes an empty name for none. -/
def pickPlannerSafeFallback (envelope : ExecutionEnvelopeState)
 (options : McpRoutingDecisionOptions) : Option McpRegistryEntry :=
 ((priorityOrder collation registry).find? fun entry =>
  entry.contractVersion ∈ options.versions && entry.entry ≠ "" &&
   envelope.lane ∈ entry.lanes && envelope.role ∈ entry.roles &&
   hasAllRequiredCapabilities entry options.capabilities &&
   runtimeUsable (plannerStale options) (plannerMissing options)
    (options.runtimeRecordFor entry.id)).filter (·.id ≠ "")

def selectCandidate (maxSelected : Int) (plan : McpRoutingDecision) (candidate : Candidate) :
 McpRoutingDecision :=
 let name := candidate.entry.id
 if (plan.selected.length : Int) ≥ maxSelected then
  { plan with rejected := assign plan.rejected name (candidate.reasons++[.deprioritized]) }
 else
  { plan with
    selected := plan.selected++[name]
    decisions := assign plan.decisions name .allow
    reasons := assign plan.reasons name candidate.reasons }

def rejectEntry (rejected : Record (List McpReasonCode))
 (outcome : McpRegistryEntry × Except (List McpReasonCode) Candidate) :
 Record (List McpReasonCode) :=
 match outcome.2 with
 | .error codes => assign rejected outcome.1.id codes
 | .ok _ => rejected

def chooseMcpsDetailed (envelope : ExecutionEnvelopeState) (intent : String)
 (options : McpRoutingDecisionOptions) : McpRoutingDecision :=
 let tags := inferIntentTags collation intent
 let outcomes := registry.map fun entry => (entry,evaluate envelope tags options entry)
 let candidates := (outcomes.filterMap fun outcome => outcome.2.toOption).insertionSort
  fun left right => right.score < left.score ∨ right.score = left.score ∧
   collation.localeCompare left.entry.id right.entry.id≠.gt
 let plan := candidates.foldl (selectCandidate (options.maxSelected.getD 4))
  { rejected := outcomes.foldl rejectEntry .empty }
 if plan.selected.length = 0 then
  match pickPlannerSafeFallback collation registry envelope options with
  | some safeFallback =>
   { plan with
     warnings := plan.warnings ++ ["No MCP candidate selected by lane/role policy. " ++
      "Fallback to " ++ safeFallback.id ++ "."]
     selected := plan.selected++[safeFallback.id]
     decisions := assign plan.decisions safeFallback.id .modify
     reasons := assign plan.reasons safeFallback.id [.fallbackApplied] }
  | none =>
   { plan with
     warnings := plan.warnings ++ ["No MCP candidate selected by lane/role policy and no " ++
      "safe fallback is available."] }
 else plan

/-! ## What is planned -/

instance (options : McpRoutingDecisionOptions) (entry : McpRegistryEntry) :
 Decidable (Offered options entry) :=
 inferInstanceAs (Decidable (_ ∧ _))

def Listed (entry : McpRegistryEntry) : Prop :=
 envelope.lane ∈ entry.lanes ∧ envelope.role ∈ entry.roles

instance (envelope : ExecutionEnvelopeState) (entry : McpRegistryEntry) :
 Decidable (Listed envelope entry) :=
 inferInstanceAs (Decidable (_ ∧ _))

def signalAccepted (stale missing : RuntimeFailSafe) : Option McpRuntimeRecord → Bool
 | none => missing = .allowWithWarning
 | some runtime => !(runtime.signalMissing && missing = .degradeOrFallback) &&
  !(runtime.stale && stale = .degradeOrFallback)

def eligible (options : McpRoutingDecisionOptions)
 (entry : McpRegistryEntry) : Bool :=
 Offered options entry && Listed envelope entry &&
  signalAccepted (plannerStale options) (plannerMissing options)
   (options.runtimeRecordFor entry.id)

section
variable (envelope : ExecutionEnvelopeState) (intent : String) (options : McpRoutingDecisionOptions)

def chosen : List McpRegistryEntry :=
 let tags := inferIntentTags collation intent
 ((registry.filter (eligible envelope options)).insertionSort
  (comesFirst collation fun entry => (scoreRegistryEntry entry tags).1)).take
   (options.maxSelected.getD 4).toNat

def planned : List McpRegistryEntry :=
 if chosen collation registry envelope intent options = [] then
  (pickPlannerSafeFallback collation registry envelope options).toList
 else chosen collation registry envelope intent options

end

section
variable {collation : Collation} {registry : List McpRegistryEntry}
 {envelope : ExecutionEnvelopeState} {intent : String} {options : McpRoutingDecisionOptions}
 {tags : List String} {entry : McpRegistryEntry} {candidate : Candidate}

theorem evaluate_toOption_isSome :
 (evaluate envelope tags options entry).toOption.isSome=eligible envelope options entry := by
 unfold evaluate eligible Offered Listed signalAccepted
 by_cases hv : entry.contractVersion∈options.versions
 swap
 · simp [hv,Except.toOption]
 by_cases he : entry.entry = ""
 · simp [hv,he,Except.toOption]
 by_cases hl : envelope.lane∈entry.lanes
 swap
 · simp [hv,he,hl,Except.toOption]
 by_cases hr : envelope.role∈entry.roles
 swap
 · simp [hv,he,hl,hr,Except.toOption]
 by_cases hc : hasAllRequiredCapabilities entry options.capabilities
 swap
 · simp [hv,he,hl,hr,hc,Except.toOption]
 simp only [hv,hl,hr,hc]
 cases options.runtimeRecordFor entry.id with
 | none =>
  cases plannerMissing options <;> simp [Except.toOption,he]
 | some runtime =>
  cases hs : runtime.signalMissing <;> cases ht : runtime.stale <;>
   cases plannerMissing options <;> cases plannerStale options <;>
   simp [Except.toOption,he,hs,ht]

theorem evaluate_eq_ok (h:evaluate envelope tags options entry = .ok candidate) :
 candidate.entry=entry ∧ candidate.score=(scoreRegistryEntry entry tags).1 := by
 unfold evaluate at h
 repeat' split at h
 all_goals cases h <;> exact ⟨rfl,rfl⟩

theorem evaluate_toOption_eq_some
 (hc:(evaluate envelope tags options entry).toOption=some candidate) :
 candidate.entry=entry ∧ candidate.score=(scoreRegistryEntry entry tags).1 := by
 cases h : evaluate envelope tags options entry with
 | error codes =>
  rw [h] at hc
  cases hc
 | ok c =>
  rw [h] at hc
  cases hc
  exact evaluate_eq_ok h

theorem candidates_entry :
 ((registry.map fun entry=>(entry,evaluate envelope tags options entry)).filterMap
  fun outcome=>outcome.2.toOption).map Candidate.entry =
  registry.filter (eligible envelope options) := by
 induction registry with
 | nil => rfl
 | cons entry rest ih =>
  have hso:(evaluate envelope tags options entry).toOption.isSome =
   eligible envelope options entry := evaluate_toOption_isSome
  rw [map_cons,filter_cons,←hso]
  cases h : (evaluate envelope tags options entry).toOption with
  | none => simpa [h] using ih
  | some c =>
   have hc:=(evaluate_toOption_eq_some h).1
   simpa [h,hc] using ih

theorem selected_foldl_selectCandidate (maxSelected : Int) (plan : McpRoutingDecision)
 (candidates : List Candidate) :
 (candidates.foldl (selectCandidate maxSelected) plan).selected =
  plan.selected ++
   (candidates.map (·.entry.id)).take (maxSelected-plan.selected.length).toNat := by
 induction candidates generalizing plan with
 | nil => simp
 | cons candidate rest ih =>
  rw [foldl_cons,ih]
  unfold selectCandidate
  split_ifs with hf
  · have hz:(maxSelected-plan.selected.length).toNat=0:=by omega
    simp [hz]
  have hl:(maxSelected-plan.selected.length).toNat =
   (maxSelected-(plan.selected++[candidate.entry.id]).length).toNat+1 := by
   rw [length_append,length_singleton]
   omega
  rw [hl,map_cons,take_succ_cons,append_assoc,singleton_append]

theorem sorted_candidates_entry :
 (((registry.map fun entry=>(entry,evaluate envelope tags options entry)).filterMap
  fun outcome=>outcome.2.toOption).insertionSort
   fun left right=>right.score < left.score ∨ right.score=left.score ∧
    collation.localeCompare left.entry.id right.entry.id≠.gt).map Candidate.entry =
  (registry.filter (eligible envelope options)).insertionSort
   (comesFirst collation fun entry=>(scoreRegistryEntry entry tags).1) := by
 rw [←candidates_entry]
 apply map_insertionSort
 have hsc:∀c∈(registry.map fun entry=>
  (entry,evaluate envelope tags options entry)).filterMap fun outcome=>outcome.2.toOption,
  c.score=(scoreRegistryEntry c.entry tags).1 := by
  intro c hc
  obtain ⟨outcome,hm,hc⟩:=mem_filterMap.mp hc
  obtain ⟨entry,-,rfl⟩:=mem_map.mp hm
  obtain ⟨hen,hs⟩:=evaluate_toOption_eq_some hc
  rw [hen,hs]
 intro a ha b hb
 rw [hsc a ha,hsc b hb]
 rfl

/-- What the selection loop leaves of a decision: the names that it took are allowed. -/
structure Selecting (plan : McpRoutingDecision) : Prop where
 blocked : plan.blocked = []
 decisions : ∀ name,valueOf plan.decisions name =
  if name ∈ plan.selected then some .allow else none

theorem Selecting.step {plan : McpRoutingDecision} (h:Selecting plan) (maxSelected : Int)
 (candidate : Candidate) : Selecting (selectCandidate maxSelected plan candidate) := by
 unfold selectCandidate
 split_ifs
 · exact ⟨h.blocked,h.decisions⟩
 · refine ⟨h.blocked,fun name=>?_⟩
   rw [valueOf_assign,h.decisions]
   by_cases hn : name=candidate.entry.id <;> simp [hn]

/-- The decision of the planner: the chosen entries allowed, or the safe fallback modified. -/
theorem chooseMcpsDetailed_spec {decision : McpRoutingDecision}
 (hdec:decision=chooseMcpsDetailed collation registry envelope intent options) :
 decision.selected=(planned collation registry envelope intent options).map (·.id) ∧
 decision.blocked=[] ∧
 ∀name,valueOf decision.decisions name =
  if name∈(chosen collation registry envelope intent options).map (·.id) then some .allow
  else if name∈decision.selected then some .modify else none := by
 subst hdec
 unfold chooseMcpsDetailed planned
 extract_lets tags outcomes candidates plan
 have hp:plan.selected=(chosen collation registry envelope intent options).map (·.id):=by
  have hso:candidates.map Candidate.entry=_:=sorted_candidates_entry
  have hse:=selected_foldl_selectCandidate (options.maxSelected.getD 4)
   { rejected := outcomes.foldl rejectEntry .empty } candidates
  have hi:candidates.map (·.entry.id)=(candidates.map Candidate.entry).map (·.id):=by
   rw [map_map]
   rfl
  refine hse.trans ?_
  rw [hi,hso,←map_take]
  simp [chosen,tags]
 have hl:Selecting plan:=foldlRecOn candidates _ ⟨rfl,fun name=>rfl⟩
  fun _ h candidate _=>h.step _ candidate
 have hde:=hl.decisions
 by_cases hem : chosen collation registry envelope intent options=[]
 · rw [if_pos (by rw [hp,hem]; rfl),if_pos hem]
   cases pickPlannerSafeFallback collation registry envelope options with
   | none => exact ⟨by simp [hp,hem],hl.blocked,by simp [hde,hp,hem]⟩
   | some safeFallback =>
    refine ⟨by simp [hp,hem],hl.blocked,fun name=>?_⟩
    simp [valueOf_assign,hde,hp,hem]
 · rw [if_neg (by rw [hp]; simpa using hem),if_neg hem]
   refine ⟨hp,hl.blocked,fun name=>?_⟩
   rw [hde,hp]
   split_ifs <;> rfl

theorem mem_priorityOrder : entry∈priorityOrder collation registry ↔ entry∈registry :=
 (perm_insertionSort _ _).mem_iff

theorem pickPlannerSafeFallback_spec
 (h:pickPlannerSafeFallback collation registry envelope options=some entry) :
 entry∈registry ∧ Offered options entry ∧ Listed envelope entry ∧
  runtimeUsable (plannerStale options) (plannerMissing options)
   (options.runtimeRecordFor entry.id)=true := by
 obtain ⟨hf,-⟩:=Option.filter_eq_some_iff.mp h
 have hte:=find?_some hf
 simp only [Bool.and_eq_true,decide_eq_true_eq] at hte
 obtain ⟨⟨⟨⟨⟨hv,hen⟩,hl⟩,hro⟩,hca⟩,hr⟩:=hte
 exact ⟨mem_priorityOrder.mp (mem_of_find?_eq_some hf),⟨hv,hen,hca⟩,
  ⟨hl,hro⟩,hr⟩

theorem mem_planned (h:entry∈planned collation registry envelope intent options) :
 entry∈registry ∧ Offered options entry ∧ Listed envelope entry := by
 unfold planned at h
 split_ifs at h
 · obtain ⟨hme,ho,hl,-⟩:=pickPlannerSafeFallback_spec (Option.mem_toList.mp h)
   exact ⟨hme,ho,hl⟩
 have hf:=mem_filter.mp ((perm_insertionSort _ _).mem_iff.mp (mem_of_mem_take h))
 obtain ⟨hme,he⟩:=hf
 simp only [eligible,Bool.and_eq_true,decide_eq_true_eq] at he
 exact ⟨hme,he.1.1,he.1.2⟩

theorem nodup_planned (hi:(registry.map (·.id)).Nodup) :
 ((planned collation registry envelope intent options).map (·.id)).Nodup := by
 unfold planned
 split_ifs
 · cases pickPlannerSafeFallback collation registry envelope options <;> simp
 have hso:((registry.filter (eligible envelope options)).map (·.id)).Nodup:=
  hi.sublist (filter_sublist.map _)
 have hp:=((perm_insertionSort (comesFirst collation fun entry=>
  (scoreRegistryEntry entry (inferIntentTags collation intent)).1) _).map
   (·.id)).nodup_iff.mpr hso
 exact hp.sublist ((take_sublist _ _).map _)

end

end DhKit.Mcp
