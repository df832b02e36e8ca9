import Mathlib.Data.List.Induction
import DhKit.McpPlanner

/-!
# Enforcement of the routing policy

The planned entries are tested again, now against the runtime status as well.
-/
namespace DhKit.Mcp
open KeyedTables List

inductive ExtensionRuntimeState where
 | first | updated | same
deriving DecidableEq

structure TouchExtensionStateResult where
 state : ExtensionRuntimeState
 fingerprint : String
 warning : Option String := none

abbrev RuntimeStates := Record (ExtensionRuntimeState × String)

structure ExtensionStateDriftReport where
 warnings : List String

/-- What the store of runtime states on disk answers; a touch may depend on those before it. -/
structure Host extends Collation where
 touchExtensionState : String → RuntimeStates → ExtensionSpec → TouchExtensionStateResult
 buildExtensionStateDriftReport : String → RuntimeStates → ExtensionStateDriftReport

structure Routing extends McpRoutingDecision where
 runtimeStates : RuntimeStates := .empty

structure RoutedDecision extends Routing where
 runtimeStateDrift : Option ExtensionStateDriftReport := none

variable (options : McpRoutingDecisionOptions)
 {host : Host} {entry : McpRegistryEntry} {name : String} {α : Type}

def repoRootOf : Option String :=
 options.runtimeStateRepoRoot.filter (· ≠ "")

def enforcerStale : RuntimeFailSafe :=
 options.staleRuntimeFailSafe.getD .degradeOrFallback

def enforcerMissing : RuntimeFailSafe :=
 options.missingRuntimeFailSafe.getD .degradeOrFallback

variable (registry : List McpRegistryEntry)

/-- Of two entries with one id, a `Map` keeps the later. -/
def registryByName (name : String) :
 Option McpRegistryEntry :=
 registry.reverse.find? (·.id = name)

namespace Routing
variable (st : Routing) (name : String)

def warn (text : String) : Routing := { st with warnings := st.warnings++[text] }

def addReasons (codes : List McpReasonCode) : Routing :=
 { st with reasons := assign st.reasons name ((valueOf st.reasons name).getD []++codes) }

def dropReasons : Routing := { st with reasons := remove st.reasons name }

def record (kind : ExtensionDecisionKind) : Routing :=
 { st with decisions := assign st.decisions name kind }

def select : Routing := { st with selected := st.selected++[name] }

def blockMcp (code : McpReasonCode) : Routing :=
 let existing := (valueOf st.rejected name).getD []
 { st with
   blocked := if name ∈ st.blocked then st.blocked else st.blocked++[name]
   rejected := assign st.rejected name (if code ∈ existing then existing else existing++[code])
   decisions := assign st.decisions name .block }

def applyRuntimeStateTouch (host : Host) (options : McpRoutingDecisionOptions)
 (entry : McpRegistryEntry) : Routing :=
 match repoRootOf options with
 | none => st
 | some repoRoot =>
  if (valueOf st.runtimeStates entry.id).isSome then st
  else
   let result := host.touchExtensionState repoRoot st.runtimeStates entry.toExtensionSpec
   { st with
     runtimeStates := assign st.runtimeStates entry.id (result.state,result.fingerprint)
     warnings := st.warnings++result.warning.toList }

end Routing

section
variable (options : McpRoutingDecisionOptions)

def usableFallback (blocked : List String) (fallback : String) : Bool :=
 fallback ∉ blocked &&
  match registry.find? (·.id = fallback) with
  | none => false
  | some registryEntry =>
   registryEntry.contractVersion ∈ options.versions && registryEntry.entry ≠ "" &&
    hasAllRequiredCapabilities registryEntry options.capabilities &&
    runtimeUsable (enforcerStale options) (enforcerMissing options)
     (options.runtimeRecordFor fallback)

/-- Its caller takes an empty name for none. -/
def pickFallback (entry : McpRegistryEntry) (blocked : List String) : Option String :=
 (entry.degradeTo.find? (usableFallback registry options blocked)).filter (· ≠ "")

/-- Its caller takes an empty name for none. -/
def pickGlobalSafeFallback (collation : Collation) (registry : List McpRegistryEntry)
 (options : McpRoutingDecisionOptions) (blocked : List String) : Option String :=
 (((priorityOrder collation registry).find? fun candidate =>
  candidate.id ∉ blocked && candidate.contractVersion ∈ options.versions &&
   candidate.entry ≠ "" && hasAllRequiredCapabilities candidate options.capabilities &&
   runtimeUsable (enforcerStale options) (enforcerMissing options)
    (options.runtimeRecordFor candidate.id)).map (·.id)).filter (· ≠ "")

def refuse (st : Routing) (name : String) (code : McpReasonCode) (text : String) : Routing :=
 ((st.blockMcp name code).dropReasons name).warn text

/-- A refusal for the runtime status, after which a fallback is looked for. -/
def refuseWithFallback (host : Host) (registry : List McpRegistryEntry)
 (options : McpRoutingDecisionOptions) (st : Routing) (entry : McpRegistryEntry)
 (code : McpReasonCode) (applied : String → String) (absent : String) : Routing :=
 let st := (st.blockMcp entry.id code).dropReasons entry.id
 match pickFallback registry options entry st.blocked with
 | none => st.warn absent
 | some fallback =>
  let st := ((((st.select fallback).record fallback .modify).addReasons fallback
   [.fallbackApplied,code]).warn (applied fallback))
  match registryByName registry fallback with
  | none => st
  | some fallbackEntry => st.applyRuntimeStateTouch host options fallbackEntry

/-- A degraded entry that may not be used so. Its reasons stay, and the fallback is not
touched. -/
def refuseDegraded (st : Routing) (entry : McpRegistryEntry) : Routing :=
 let st := st.blockMcp entry.id .statusDegraded
 match pickFallback registry options entry st.blocked with
 | none => st.warn ("Critical MCP '" ++ entry.id ++ "' is degraded and has no fallback.")
 | some fallback =>
  (((st.select fallback).record fallback .modify).addReasons fallback
   [.fallbackApplied,.statusDegraded]).warn
    ("Fallback applied: critical MCP '" ++ entry.id ++ "' degraded -> '" ++ fallback ++ "'.")

end

def keepMcp (host : Host) (options : McpRoutingDecisionOptions) (st : Routing)
 (entry : McpRegistryEntry) (runtime : McpRuntimeRecord) : Routing :=
 let name := entry.id
 let st := if runtime.status = .degraded then
  ((st.addReasons name [.statusDegraded]).record name .modify).warn
   ("MCP '" ++ name ++ "' is degraded but still allowed by policy.")
  else st
 ((st.record name ((valueOf st.decisions name).getD .allow)).applyRuntimeStateTouch host options
  entry).select name

section
variable (host : Host) (registry : List McpRegistryEntry) (options : McpRoutingDecisionOptions)

def routeByStatus (st : Routing) (entry : McpRegistryEntry)
 (runtime : McpRuntimeRecord) : Routing :=
 let name := entry.id
 if runtime.status = .unavailable then
  refuseWithFallback host registry options st entry .statusUnavailable
   (fun fallback => "Fallback applied: '" ++ name ++ "' unavailable -> '" ++ fallback ++ "'.")
   ("No fallback available for unavailable MCP '" ++ name ++ "'.")
 else if runtime.status = .needsAuth then
  refuseWithFallback host registry options st entry .needsAuth
   (fun fallback => "Fallback applied: '" ++ name ++ "' needs auth -> '" ++ fallback ++ "'.")
   ("MCP '" ++ name ++ "' needs auth and has no fallback.")
 else if entry.requiresAuth && runtime.authReady = some false then
  refuseWithFallback host registry options st entry .requiresAuth
   (fun fallback => "Fallback applied: '" ++ name ++ "' auth not ready -> '" ++ fallback ++
    "'.")
   ("MCP '" ++ name ++ "' requires auth and no non-auth fallback is available.")
 else
  let st := if entry.requiresAuth && runtime.authReady = none then
   (st.warn ("Auth context missing for '" ++ name ++ "'.")).addReasons name
    [.requiresAuth,.noAuthContext]
   else st
  if runtime.status = .degraded && !canUseDegraded entry then
   refuseDegraded registry options st entry
  else keepMcp host options st entry runtime

def routeByRuntime (st : Routing) (entry : McpRegistryEntry) : Routing :=
 let name := entry.id
 let missingSignal := refuseWithFallback host registry options st entry .missingRuntimeSignal
  (fun fallback => "Fail-safe fallback applied: '" ++ name ++ "' missing runtime signal -> '" ++
   fallback ++ "'.")
  ("MCP '" ++ name ++ "' missing runtime signal and no fallback is available.")
 match options.runtimeRecordFor name with
 | none =>
  if enforcerMissing options = .allowWithWarning then
   ((((st.addReasons name [.noRuntimeStatus]).record name .allow).warn
    ("No runtime status for '" ++ name ++ "', using metadata-only routing.")
    ).applyRuntimeStateTouch host options entry).select name
  else missingSignal
 | some runtime =>
  if runtime.signalMissing && enforcerMissing options = .degradeOrFallback then missingSignal
  else if runtime.stale && enforcerStale options = .degradeOrFallback then
   refuseWithFallback host registry options st entry .statusStale
    (fun fallback => "Fail-safe fallback applied: '" ++ name ++
     "' stale runtime status -> '" ++ fallback ++ "'.")
    ("MCP '" ++ name ++ "' runtime status is stale and no fallback is available.")
  else
   let st := if runtime.signalMissing then
    (st.addReasons name [.missingRuntimeSignal]).warn
     ("MCP '" ++ name ++ "' runtime signal is missing; continuing with caution.")
    else st
   let st := if runtime.stale then
    (st.addReasons name [.statusStale]).warn
     ("MCP '" ++ name ++ "' runtime status is stale; continuing with caution.")
    else st
   routeByStatus host registry options st entry runtime

def laneText : ExtensionLane → String
 | .quick => "quick"
 | .delivery => "delivery"
 | .migration => "migration"
 | .full => "full"

def roleText : ExtensionRole → String
 | .quick => "quick"
 | .coordinator => "coordinator"
 | .analyst => "analyst"
 | .architect => "architect"
 | .implementer => "implementer"
 | .reviewer => "reviewer"
 | .tester => "tester"

def routeMcp (envelope : ExecutionEnvelopeState)
 (options : McpRoutingDecisionOptions) (st : Routing) (mcpName : String) : Routing :=
 match registryByName registry mcpName with
 | none => (st.blockMcp mcpName .blockedByPrecondition).warn
  ("MCP '" ++ mcpName ++ "' is not present in registry metadata.")
 | some entry =>
  if entry.contractVersion ∉ options.versions then
   refuse st mcpName .contractVersionMismatch ("MCP '" ++ mcpName ++ "' contract version '" ++
    entry.contractVersion ++ "' is not supported.")
  else if entry.entry = "" then
   refuse st mcpName .entryMissing
    ("MCP '" ++ mcpName ++ "' is missing required entry metadata.")
  else if envelope.lane ∉ entry.lanes then
   refuse st mcpName .laneMismatch ("MCP '" ++ mcpName ++ "' is not allowed for lane '" ++
    laneText envelope.lane ++ "'.")
  else if envelope.role ∉ entry.roles then
   refuse st mcpName .roleMismatch ("MCP '" ++ mcpName ++ "' is not allowed for role '" ++
    roleText envelope.role ++ "'.")
  else if !hasAllRequiredCapabilities entry options.capabilities then
   refuse st mcpName .capabilityDenied ("MCP '" ++ mcpName ++
    "' does not satisfy required capabilities: " ++ ",".intercalate options.capabilities ++ ".")
  else routeByRuntime host registry options st entry

/-- The output also plays the part of the source's `seen`. -/
def dedupeExcluding (values blocked : List String) : List String :=
 values.foldl (fun output value =>
  if value ∈ blocked ∨ value ∈ output then output else output++[value]) []

def enforceMcpRoutingDetailed (envelope : ExecutionEnvelopeState) (intent : String)
 (options : McpRoutingDecisionOptions) : RoutedDecision :=
 let plan := chooseMcpsDetailed host.toCollation registry envelope intent options
 let st := plan.selected.foldl (routeMcp host registry envelope options)
  { plan with selected := [] }
 let drift := (repoRootOf options).map fun repoRoot =>
  host.buildExtensionStateDriftReport repoRoot st.runtimeStates
 let st := { st with
  selected := dedupeExcluding st.selected st.blocked
  warnings := st.warnings++(drift.map ExtensionStateDriftReport.warnings).getD [] }
 let st := if st.selected = [] then
  match pickGlobalSafeFallback host.toCollation registry options st.blocked with
  | none => st.warn "All selected MCPs were blocked and no safe fallback is available."
  | some safeFallback =>
   let st := (((st.warn ("All selected MCPs were blocked; forcing safe fallback to " ++
    safeFallback ++ ".")).select safeFallback).record safeFallback .modify).addReasons
     safeFallback [.fallbackApplied]
   match registryByName registry safeFallback with
   | none => st
   | some fallbackEntry => st.applyRuntimeStateTouch host options fallbackEntry
  else st
 { st with runtimeStateDrift := drift }

end

structure Verdicts where
 selected : List String
 blocked : List String
 decisions : Record ExtensionDecisionKind
 rejected : Record (List McpReasonCode)

def Routing.verdicts (st : Routing) : Verdicts :=
 ⟨st.selected,st.blocked,st.decisions,st.rejected⟩

theorem Routing.verdicts_applyRuntimeStateTouch {st : Routing}
 {options : McpRoutingDecisionOptions} :
 (st.applyRuntimeStateTouch host options entry).verdicts=st.verdicts := by
 unfold applyRuntimeStateTouch
 cases repoRootOf options with
 | none => rfl
 | some repoRoot => exact apply_ite Routing.verdicts _ _ _ |>.trans (ite_self _)

theorem Routing.verdicts_kept (st : Routing) {options : McpRoutingDecisionOptions} :
 ((st.applyRuntimeStateTouch host options entry).select name).verdicts =
  (st.select name).verdicts := by
 have hse:∀st : Routing,(st.select name).verdicts =
  { st.verdicts with selected := st.verdicts.selected++[name] } := fun _=>rfl
 rw [hse,hse,verdicts_applyRuntimeStateTouch]

/-- The records agree: a name is decided to be blocked when it is blocked, with a reason;
 those planned or selected are decided; and those not chosen are not simply allowed. -/
structure Recorded (chosen plan : List String) (v : Verdicts) : Prop where
 blocks : ∀ name,valueOf v.decisions name = some .block ↔ name ∈ v.blocked
 rejects : ∀ name ∈ v.blocked,∃ codes,valueOf v.rejected name = some codes ∧ codes≠[]
 decided : ∀ name,name ∈ plan ∨ name ∈ v.selected → (valueOf v.decisions name).isSome
 fallbacks : ∀ name ∉ chosen,valueOf v.decisions name≠some .allow

section
variable {chosen plan : List String} {st : Routing} {name : String}
 {kind : ExtensionDecisionKind} (h : Recorded chosen plan st.verdicts)
include h

theorem Recorded.block (code : McpReasonCode) :
 Recorded chosen plan (st.blockMcp name code).verdicts := by
 obtain ⟨hb,hr,hde,hf⟩:=h
 simp only [Routing.verdicts] at hb hr hde hf
 have hco:∀codes : List McpReasonCode,
  (if code∈codes then codes else codes++[code])≠[] := by
  intro codes
  split_ifs with hcod
  · exact ne_nil_of_mem hcod
  · simp
 constructor <;> simp only [Routing.verdicts,Routing.blockMcp,valueOf_assign]
 · grind
 · intro other ho
   by_cases hot : other=name
   · exact ⟨_,if_pos hot,hco _⟩
   · rw [if_neg hot]
     exact hr other (by grind)
 · grind
 · grind

section
variable (hn : name ∉ st.blocked) (hkind : kind≠.block) (hallow : kind = .allow → name ∈ chosen)
include hn hkind hallow

theorem Recorded.record :
 Recorded chosen plan (st.record name kind).verdicts := by
 obtain ⟨hb,hr,hde,hf⟩:=h
 simp only [Routing.verdicts] at hb hr hde hf
 constructor <;> simp only [Routing.verdicts,Routing.record,valueOf_assign]
 · grind
 · exact hr
 · grind
 · grind

/-- A name that is not blocked is decided anew, and selected. -/
theorem Recorded.take :
 Recorded chosen plan ((st.record name kind).select name).verdicts := by
 obtain ⟨hb,hr,hde,hf⟩:=h.record hn hkind hallow
 refine ⟨hb,hr,fun other ho=>?_,hf⟩
 by_cases hot : other=name
 · simp [Routing.verdicts,Routing.select,Routing.record,valueOf_assign,hot]
 · exact hde other (by simpa [Routing.verdicts,Routing.select,hot] using ho)

end

/-- A planned name keeps the decision that it has. -/
theorem Recorded.keep (hp:name∈plan) (hn:name ∉ st.blocked) : Recorded chosen plan
 ((st.record name ((valueOf st.decisions name).getD .allow)).select name).verdicts := by
 obtain ⟨kind,hkind⟩:=Option.isSome_iff_exists.mp (h.decided name (.inl hp))
 have hvalue:valueOf st.decisions name=some kind:=hkind
 rw [hvalue,Option.getD_some]
 refine h.take hn ?_ ?_
 · rintro rfl
   exact hn ((h.blocks name).mp hkind)
 · rintro rfl
   by_contra hc
   exact h.fallbacks name hc hkind

end

def turnedAway (entry : McpRegistryEntry) : Bool :=
 match options.runtimeRecordFor entry.id with
 | none => enforcerMissing options = .degradeOrFallback
 | some runtime =>
  (runtime.signalMissing && enforcerMissing options = .degradeOrFallback) ||
   (runtime.stale && enforcerStale options = .degradeOrFallback) ||
   runtime.status = .unavailable || runtime.status = .needsAuth ||
   (entry.requiresAuth && runtime.authReady = some false) ||
   (runtime.status = .degraded && !canUseDegraded entry)

/-- Without a runtime record the enforcer allows the entry, whatever the planner decided. -/
def allowsUnseen (entry : McpRegistryEntry) : Prop :=
 options.runtimeRecordFor entry.id = none ∧ enforcerMissing options = .allowWithWarning

/-- The effect of one entry on the verdicts: it stays, or its fallback takes its place. -/
structure Turn (registry : List McpRegistryEntry) (options : McpRoutingDecisionOptions)
 (entry : McpRegistryEntry) (v v' : Verdicts) : Prop where
 selected : v'.selected = v.selected ++
  if turnedAway options entry then
   (pickFallback registry options entry (v.blocked++[entry.id])).toList
  else [entry.id]
 blocked : v'.blocked = v.blocked++if turnedAway options entry then [entry.id] else []
 recorded : ∀ chosen plan,entry.id ∈ plan → (allowsUnseen options entry → entry.id ∈ chosen) →
  Recorded chosen plan v → Recorded chosen plan v'

theorem Turn.of_same {registry : List McpRegistryEntry} {options : McpRoutingDecisionOptions}
 {v v' v'' : Verdicts} (h:Turn registry options entry v' v'')
 (hsa:v'=v) : Turn registry options entry v v'' := hsa ▸ h

def turnAway (options : McpRoutingDecisionOptions)
 (st : Routing) (entry : McpRegistryEntry) (code : McpReasonCode) : Routing :=
 let st := st.blockMcp entry.id code
 match pickFallback registry options entry st.blocked with
 | none => st
 | some fallback => (st.record fallback .modify).select fallback

section
variable {host : Host} {registry : List McpRegistryEntry} {envelope : ExecutionEnvelopeState}
 {options : McpRoutingDecisionOptions} {st : Routing} {entry : McpRegistryEntry}
 {code : McpReasonCode} {applied : String → String} {absent : String}
 {runtime : McpRuntimeRecord}

theorem verdicts_refuseWithFallback :
 (refuseWithFallback host registry options st entry code applied absent).verdicts =
  (turnAway registry options st entry code).verdicts := by
 have hb:((st.blockMcp entry.id code).dropReasons entry.id).blocked =
  (st.blockMcp entry.id code).blocked := rfl
 unfold refuseWithFallback turnAway
 dsimp only
 rw [hb]
 cases pickFallback registry options entry (st.blockMcp entry.id code).blocked with
 | none => rfl
 | some fallback =>
  dsimp only
  cases registryByName registry fallback with
  | none => rfl
  | some fallbackEntry => exact Routing.verdicts_applyRuntimeStateTouch

theorem verdicts_refuseDegraded : (refuseDegraded registry options st entry).verdicts =
 (turnAway registry options st entry .statusDegraded).verdicts := by
 unfold refuseDegraded turnAway
 dsimp only
 cases pickFallback registry options entry (st.blockMcp entry.id .statusDegraded).blocked <;> rfl

theorem pickFallback_fresh {blocked : List String}
 (h:pickFallback registry options entry blocked=some name) : name ∉ blocked := by
 have hu:=find?_some (Option.filter_eq_some_iff.mp h).1
 simp only [usableFallback,Bool.and_eq_true,decide_eq_true_eq] at hu
 exact hu.1

variable (hfresh : entry.id ∉ st.blocked)
include hfresh

theorem turn_turnAway (haw:turnedAway options entry=true) :
 Turn registry options entry st.verdicts (turnAway registry options st entry code).verdicts := by
 have hb:(st.blockMcp entry.id code).blocked=st.blocked++[entry.id]:=if_neg hfresh
 unfold turnAway
 dsimp only
 cases hp : pickFallback registry options entry (st.blockMcp entry.id code).blocked with
 | none =>
  rw [hb] at hp
  exact ⟨by simp [Routing.verdicts,haw,hp,Routing.blockMcp],
   by simp [Routing.verdicts,haw,hb],fun _ _ _ _ h=>h.block code⟩
 | some fallback =>
  have hnew:=pickFallback_fresh hp
  rw [hb] at hp
  exact ⟨by simp [Routing.verdicts,haw,hp,Routing.select,Routing.record,Routing.blockMcp],
   by rw [if_pos haw]; exact hb,
   fun _ _ _ _ h=>(h.block code).take hnew (by simp) (by simp)⟩

theorem turn_refuseWithFallback (haw:turnedAway options entry=true) :
 Turn registry options entry st.verdicts
  (refuseWithFallback host registry options st entry code applied absent).verdicts := by
 rw [verdicts_refuseWithFallback]
 exact turn_turnAway hfresh haw

omit hfresh in
/-- Texts and touches aside, the entry is decided once more and selected. -/
theorem turn_select {st' st'' : Routing} {kind : ExtensionDecisionKind}
 (hst:st''.verdicts=((st'.record entry.id kind).select entry.id).verdicts)
 (hsta:turnedAway options entry=false) (hse:st'.selected=st.selected)
 (hb:st'.blocked=st.blocked)
 (hr:∀chosen plan,entry.id∈plan → (allowsUnseen options entry → entry.id∈chosen) →
  Recorded chosen plan st.verdicts →
  Recorded chosen plan ((st'.record entry.id kind).select entry.id).verdicts) :
 Turn registry options entry st.verdicts st''.verdicts := by
 rw [hst]
 refine ⟨?_,?_,hr⟩
 · simp [Routing.verdicts,Routing.select,Routing.record,hse,hsta]
 · simp [Routing.verdicts,Routing.select,Routing.record,hb,hsta]

theorem turn_keepMcp (hst:turnedAway options entry=false) :
 Turn registry options entry st.verdicts (keepMcp host options st entry runtime).verdicts := by
 unfold keepMcp
 split_ifs with hde
 · refine turn_select (Routing.verdicts_kept _) hst rfl rfl
    fun _ _ hp _ h=>?_
   exact (h.record hfresh (by simp) (by simp)).keep hp hfresh
 · exact turn_select (Routing.verdicts_kept _) hst rfl rfl fun _ _ hp _ h=>
    h.keep hp hfresh

theorem turn_routeByStatus (hstatus:turnedAway options entry =
  (runtime.status = .unavailable || runtime.status = .needsAuth ||
   (entry.requiresAuth && runtime.authReady=some false) ||
   (runtime.status = .degraded && !canUseDegraded entry))) :
 Turn registry options entry st.verdicts
  (routeByStatus host registry options st entry runtime).verdicts := by
 unfold routeByStatus
 dsimp only
 split_ifs with hu hnee hau hde hco hco
 · exact turn_refuseWithFallback hfresh (by simp [hstatus,hu])
 · exact turn_refuseWithFallback hfresh (by simp [hstatus,hnee])
 · exact turn_refuseWithFallback hfresh (by simp [hstatus,hau])
 · rw [verdicts_refuseDegraded]
   exact Turn.of_same (turn_turnAway hfresh (by simp [hstatus,hde])) rfl
 · rw [verdicts_refuseDegraded]
   exact turn_turnAway hfresh (by simp [hstatus,hde])
 · refine Turn.of_same (turn_keepMcp ?_ (by simp_all)) rfl
   exact hfresh
 · exact turn_keepMcp hfresh (by simp_all)

theorem turn_routeByRuntime :
 Turn registry options entry st.verdicts
  (routeByRuntime host registry options st entry).verdicts := by
 dsimp only [routeByRuntime]
 cases hr : options.runtimeRecordFor entry.id with
 | none =>
  have haw:turnedAway options entry =
   Decidable.decide (enforcerMissing options = .degradeOrFallback) := by
   simp [turnedAway,hr]
  cases hm : enforcerMissing options with
  | allowWithWarning =>
   rw [hm] at haw
   refine turn_select (?_ : _=((st.record entry.id .allow).select entry.id).verdicts) haw
    rfl rfl fun _ _ _ hch h=>h.take hfresh (by simp) fun _=>hch ⟨hr,hm⟩
   exact Routing.verdicts_kept _
  | degradeOrFallback =>
   rw [hm] at haw
   exact turn_refuseWithFallback hfresh haw
 | some runtime =>
  dsimp only
  split_ifs with hmi hst hsi hwa hwa
  · exact turn_refuseWithFallback hfresh (by simp [turnedAway,hr,hmi])
  · exact turn_refuseWithFallback hfresh (by simp [turnedAway,hr,hst])
  all_goals
   refine Turn.of_same (turn_routeByStatus ?_ ?_) rfl
   · exact hfresh
   · simp [turnedAway,hr,hmi,hst]

theorem turn_routeMcp (hr:registryByName registry entry.id=some entry)
 (ho:Offered options entry) (hl:Listed envelope entry) :
 Turn registry options entry st.verdicts
  (routeMcp host registry envelope options st entry.id).verdicts := by
 have hro:routeMcp host registry envelope options st entry.id =
  routeByRuntime host registry options st entry := by
  simp [routeMcp,hr,ho.1,ho.2.1,ho.2.2,hl.1,hl.2]
 rw [hro]
 exact turn_routeByRuntime hfresh

omit hfresh in
theorem registryByName_of_mem (hi:(registry.map (·.id)).Nodup) (h:entry∈registry) :
 registryByName registry entry.id=some entry := by
 have hf:Table.find ⟨registry.reverse,by simpa using hi⟩ entry.id=some entry:=
  (Table.find_eq_some _).mpr ⟨mem_reverse.mpr h,rfl⟩
 exact hf

end

def awayIds (entries : List McpRegistryEntry) :
 List String :=
 (entries.filter (turnedAway options)).map (·.id)

section
variable (envelope : ExecutionEnvelopeState) (options : McpRoutingDecisionOptions)
 (entry : McpRegistryEntry)

structure Permitted : Prop where
 lane : envelope.lane ∈ entry.lanes
 role : envelope.role ∈ entry.roles
 version : entry.contractVersion ∈ options.versions
 implemented : entry.entry ≠ ""
 capabilities : ∀ capability ∈ options.capabilities,capability ∈ entry.capabilities
 status : ∀ runtime,options.runtimeRecordFor entry.id = some runtime →
  runtime.status≠.unavailable ∧ runtime.status≠.needsAuth ∧
   ¬(entry.requiresAuth = true ∧ runtime.authReady = some false) ∧
   ¬(entry.healthClass = some .critical ∧ runtime.status = .degraded)

structure Cleared : Prop where
 listed : Listed envelope entry
 authorized : ∀ runtime,options.runtimeRecordFor entry.id = some runtime →
  ¬(entry.requiresAuth = true ∧ runtime.authReady = some false)
 healthy : ∀ runtime,options.runtimeRecordFor entry.id = some runtime →
  ¬(entry.healthClass = some .critical ∧ runtime.status = .degraded)

end

def Usable (blocked : List String)
 (entry : McpRegistryEntry) : Prop :=
 entry.id ∉ blocked ∧ Offered options entry ∧
  runtimeUsable (enforcerStale options) (enforcerMissing options)
   (options.runtimeRecordFor entry.id) = true

def FirstOf {α : Type} (p : α → Prop) (l : List α) (a : α) : Prop :=
 ∃ before after,l = before++a::after ∧ p a ∧ ∀ b ∈ before,¬p b

section
variable (options : McpRoutingDecisionOptions) (plan : List McpRegistryEntry)

/-- `name` is what a planned entry, turned away, falls back to: the first usable name of its
list, where the planned entries turned away by then are not used. -/
def FallbackTarget (name : String) : Prop :=
 ∃ before entry after,plan = before++entry::after ∧ turnedAway options entry = true ∧
  FirstOf (fun target => ∃ e ∈ registry,e.id = target ∧
   Usable options (awayIds options (before ++ [entry])) e) entry.degradeTo name ∧ name ≠ ""

def Exhausted : Prop :=
 (∀ entry ∈ plan,turnedAway options entry = true) ∧
  ∀ name,FallbackTarget registry options plan name → name ∈ awayIds options plan

end

/-- The condition under which every fallback that is used is one the policy allows: each
fallback of the loop that stays, and the entry that is forced when nothing is left, serves the
envelope's lane and role, is not waiting for authorization and is not critical and degraded. -/
structure FallbacksCleared (host : Host) (registry : List McpRegistryEntry)
 (envelope : ExecutionEnvelopeState) (options : McpRoutingDecisionOptions)
 (plan : List McpRegistryEntry) : Prop where
 targets : ∀ entry ∈ registry,FallbackTarget registry options plan entry.id →
  entry.id ∉ awayIds options plan → Cleared envelope options entry
 forced : Exhausted registry options plan → ∀ entry,
  FirstOf (Usable options (awayIds options plan)) (priorityOrder host.toCollation registry)
   entry → entry.id ≠ "" → Cleared envelope options entry

section
variable {host : Host} {registry : List McpRegistryEntry} {envelope : ExecutionEnvelopeState}
 {intent : String} {options : McpRoutingDecisionOptions} {plan : List McpRegistryEntry}
 {entry : McpRegistryEntry} {blocked : List String} {name : String} {l : List α} {a : α}

theorem find?_eq_some_iff_firstOf {p : α → Bool} :
 l.find? p=some a ↔ FirstOf (fun x=>p x=true) l a := by
 rw [find?_eq_some_iff_append]
 constructor
 · rintro ⟨hp,before,after,rfl,hbe⟩
   exact ⟨before,after,rfl,hp,fun b hb=>by simpa using hbe b hb⟩
 · rintro ⟨before,after,rfl,hp,hbe⟩
   exact ⟨hp,before,after,rfl,fun b hb=>by simpa using hbe b hb⟩

theorem usableFallback_iff (hi:(registry.map (·.id)).Nodup) :
 usableFallback registry options blocked name=true ↔
  ∃e∈registry,e.id=name ∧ Usable options blocked e := by
 have hf:∀e,registry.find? (·.id=name)=some e ↔ e∈registry ∧ e.id=name:=
  fun e=>Table.find_eq_some ⟨registry,hi⟩
 unfold usableFallback Usable Offered
 cases h : registry.find? (·.id=name) with
 | none =>
  have hnone:∀e∈registry,e.id≠name:=by simpa using h
  simp only [Bool.and_false,Bool.false_eq_true,false_iff]
  rintro ⟨e,he,hna,-⟩
  exact hnone e he hna
 | some e =>
  obtain ⟨hme,hna⟩:=(hf e).mp h
  have hu:∀e'∈registry,e'.id=name → e'=e:=fun e' he' hn=>
   inj_on_of_nodup_map hi he' hme (hn.trans hna.symm)
  subst hna
  simp only [Bool.and_eq_true,decide_eq_true_eq,and_assoc]
  constructor
  · intro h
    exact ⟨e,hme,rfl,h⟩
  · rintro ⟨e',he',hn,h⟩
    rw [hu e' he' hn] at h
    exact h

theorem pickFallback_iff (hi:(registry.map (·.id)).Nodup) :
 pickFallback registry options entry blocked=some name ↔
  FirstOf (fun target=>∃e∈registry,e.id=target ∧ Usable options blocked e)
   entry.degradeTo name ∧ name ≠ "" := by
 unfold pickFallback
 rw [Option.filter_eq_some_iff,find?_eq_some_iff_firstOf,decide_eq_true_eq]
 simp [usableFallback_iff hi]

theorem pickGlobalSafeFallback_iff :
 pickGlobalSafeFallback host.toCollation registry options blocked=some name ↔
  ∃e,FirstOf (Usable options blocked) (priorityOrder host.toCollation registry) e ∧
   e.id=name ∧ name ≠ "" := by
 unfold pickGlobalSafeFallback
 rw [Option.filter_eq_some_iff,Option.map_eq_some_iff,decide_eq_true_eq]
 simp only [find?_eq_some_iff_firstOf]
 have hu:(fun e : McpRegistryEntry=>(decide (e.id ∉ blocked) &&
  decide (e.contractVersion∈options.versions) && decide (e.entry ≠ "") &&
  hasAllRequiredCapabilities e options.capabilities &&
  runtimeUsable (enforcerStale options) (enforcerMissing options)
   (options.runtimeRecordFor e.id))=true)=Usable options blocked := by
  funext e
  simp [Usable,Offered,and_assoc]
 rw [hu]
 simp [←exists_and_right,and_assoc]

theorem FirstOf.mem {p : α → Prop} (h:FirstOf p l a) :
 a∈l ∧ p a := by
 obtain ⟨before,after,rfl,hp,-⟩:=h
 exact ⟨by simp,hp⟩

theorem Usable.permitted_iff (h:Usable options blocked entry) :
 Permitted envelope options entry ↔ Cleared envelope options entry := by
 obtain ⟨-,⟨hv,hen,hca⟩,hru⟩:=h
 constructor
 · intro hp
   exact ⟨⟨hp.lane,hp.role⟩,fun r hr=>(hp.status r hr).2.2.1,
    fun r hr=>(hp.status r hr).2.2.2⟩
 · intro hc
   refine ⟨hc.listed.1,hc.listed.2,hv,hen,?_,?_⟩
   · simpa [hasAllRequiredCapabilities] using hca
   intro r hr
   rw [hr] at hru
   simp only [runtimeUsable,Bool.and_eq_true,Bool.not_eq_true',Bool.or_eq_false_iff,
    decide_eq_false_iff_not] at hru
   exact ⟨hru.1.1.1,hru.1.1.2,hc.authorized r hr,hc.healthy r hr⟩

theorem permitted_of_stays (ho:Offered options entry) (hl:Listed envelope entry)
 (hst:turnedAway options entry=false) : Permitted envelope options entry := by
 obtain ⟨hv,hen,hca⟩:=ho
 refine ⟨hl.1,hl.2,hv,hen,?_,?_⟩
 · simpa [hasAllRequiredCapabilities] using hca
 intro r hr
 simp only [turnedAway,hr,Bool.or_eq_false_iff,decide_eq_false_iff_not] at hst
 obtain ⟨⟨⟨⟨-,hu⟩,hnee⟩,hau⟩,hde⟩:=hst
 refine ⟨hu,hnee,by simpa using hau,?_⟩
 rintro ⟨hcr,hstatus⟩
 simp [hstatus,canUseDegraded,hcr] at hde

end

section
variable {host : Host} {registry : List McpRegistryEntry} {envelope : ExecutionEnvelopeState}
 {intent : String} {options : McpRoutingDecisionOptions} {plan : List McpRegistryEntry}
 {name : String}

theorem exists_split_concat {P : List α → α → Prop} {before : List α} {x : α} :
 (∃b e a,before++[x]=b++e::a ∧ P b e) ↔
  (∃b e a,before=b++e::a ∧ P b e) ∨ P before x := by
 constructor
 · rintro ⟨b,e,a,heq,hp⟩
   rcases eq_nil_or_concat' a with rfl|⟨a,y,rfl⟩
   · obtain ⟨rfl,hx⟩:=append_inj' heq rfl
     cases hx
     exact .inr hp
   · rw [←cons_append,←append_assoc] at heq
     exact .inl ⟨b,e,a,(append_inj' heq rfl).1,hp⟩
 · rintro (⟨b,e,a,rfl,hp⟩|hp)
   · exact ⟨b,e,a++[x],by simp,hp⟩
   · exact ⟨before,x,[],rfl,hp⟩

/-- The names that the loop selects and blocks over the planned entries. -/
structure Routed (registry : List McpRegistryEntry) (options : McpRoutingDecisionOptions)
 (entries : List McpRegistryEntry) (v : Verdicts) : Prop where
 selected : ∀ name,name ∈ v.selected ↔
  (∃ entry ∈ entries,turnedAway options entry = false ∧ entry.id = name) ∨
  FallbackTarget registry options entries name
 blocked : v.blocked = awayIds options entries

theorem Routed.step {entries : List McpRegistryEntry}
 {v v' : Verdicts} (hi:(registry.map (·.id)).Nodup) (h:Routed registry options entries v)
 (htu:Turn registry options entry v v') :
 Routed registry options (entries++[entry]) v' := by
 have haw:awayIds options (entries++[entry]) =
  v.blocked++if turnedAway options entry then [entry.id] else [] := by
  rw [h.blocked]
  cases h : turnedAway options entry <;> simp [awayIds,h]
 refine ⟨fun name=>?_,htu.blocked.trans haw.symm⟩
 have hta:FallbackTarget registry options (entries++[entry]) name ↔
  FallbackTarget registry options entries name ∨ turnedAway options entry=true ∧
   pickFallback registry options entry (awayIds options (entries++[entry]))=some name := by
  rw [pickFallback_iff hi]
  exact exists_split_concat
 rw [htu.selected,mem_append,h.selected,hta,haw]
 cases hen : turnedAway options entry with
 | true => simp [hen,or_assoc]
 | false => simp [hen,or_right_comm,@eq_comm _ name]

theorem foldl_routeMcp (hi:(registry.map (·.id)).Nodup)
 (hp:∀entry∈plan,entry∈registry ∧ Offered options entry ∧ Listed envelope entry)
 (hno:(plan.map (·.id)).Nodup) {st : Routing} (hse:st.selected=[])
 (hbl:st.blocked=[]) :
 Routed registry options plan
  ((plan.map (·.id)).foldl (routeMcp host registry envelope options) st).verdicts ∧
 ∀chosen names,(∀entry∈plan,entry.id∈names ∧
   (allowsUnseen options entry → entry.id∈chosen)) →
  Recorded chosen names st.verdicts → Recorded chosen names
   ((plan.map (·.id)).foldl (routeMcp host registry envelope options) st).verdicts := by
 induction plan using List.reverseRecOn with
 | nil =>
  refine ⟨⟨fun name=>?_,hbl⟩,fun _ _ _ h=>h⟩
  simp [Routing.verdicts,hse,FallbackTarget]
 | append_singleton before entry ih =>
  rw [map_append,map_singleton,nodup_append] at hno
  obtain ⟨hr,hre⟩:=ih (fun e he=>hp e (mem_append_left _ he)) hno.1
  obtain ⟨hme,ho,hl⟩:=hp entry (by simp)
  have hfresh:entry.id ∉
   ((before.map (·.id)).foldl (routeMcp host registry envelope options) st).blocked := by
   intro hb
   have hb:entry.id∈awayIds options before:=hr.blocked ▸ hb
   obtain ⟨e,he,hid⟩:=mem_map.mp hb
   exact hno.2.2 _ (mem_map_of_mem (mem_of_mem_filter he)) _ (by simp) hid
  have htu:=@turn_routeMcp host _ _ _ _ _ hfresh (registryByName_of_mem hi hme)
   ho hl
  rw [map_append,foldl_append,map_singleton,foldl_cons,foldl_nil]
  refine ⟨hr.step hi htu,fun chosen names hpl h=>?_⟩
  obtain ⟨hna,hch⟩:=hpl entry (by simp)
  exact htu.recorded chosen names hna hch
   (hre chosen names (fun e he=>hpl e (mem_append_left _ he)) h)

theorem dedupeExcluding_spec (values blocked : List String) :
 (dedupeExcluding values blocked).Nodup ∧
  ∀name,name∈dedupeExcluding values blocked ↔ name∈values ∧ name ∉ blocked := by
 induction values using List.reverseRecOn with
 | nil => simp [dedupeExcluding]
 | append_singleton before value ih =>
  obtain ⟨hno,hme⟩:=ih
  have hst:dedupeExcluding (before++[value]) blocked =
   if value∈blocked ∨ value∈dedupeExcluding before blocked then
    dedupeExcluding before blocked else dedupeExcluding before blocked++[value] := by
   rw [dedupeExcluding,foldl_append]
   rfl
  rw [hst]
  split_ifs with h
  · exact ⟨hno,by grind⟩
  · exact ⟨hno.append (by simp) (by simpa using (not_or.mp h).2),by grind⟩

structure Settled (registry : List McpRegistryEntry) (options : McpRoutingDecisionOptions)
 (chosen plan : List McpRegistryEntry) (st : Routing) : Prop where
 nodup : st.selected.Nodup
 selected : ∀ name,name ∈ st.selected ↔
  (∃ entry ∈ plan,turnedAway options entry = false ∧ entry.id = name) ∨
  FallbackTarget registry options plan name ∧ name ∉ awayIds options plan
 blocked : st.blocked = awayIds options plan
 recorded : (∀ entry ∈ plan,allowsUnseen options entry → entry.id ∈ chosen.map (·.id)) →
  Recorded (chosen.map (·.id)) (plan.map (·.id)) st.verdicts

theorem not_mem_awayIds_of_stays (hno:(plan.map (·.id)).Nodup)
 (he:entry∈plan) (hst:turnedAway options entry=false) :
 entry.id ∉ awayIds options plan := by
 intro h
 obtain ⟨e,hm,hid⟩:=mem_map.mp h
 obtain ⟨hm,haw⟩:=mem_filter.mp hm
 rw [inj_on_of_nodup_map hno hm he hid,hst] at haw
 cases haw

/-- The result of the loop or, where it is empty, the safe fallback. -/
theorem enforceMcpRoutingDetailed_settled (hi:(registry.map (·.id)).Nodup)
 (hp:plan=planned host.toCollation registry envelope intent options) :
 ∃st,Settled registry options (chosen host.toCollation registry envelope intent options) plan
  st ∧
 st.decisions=((plan.map (·.id)).foldl (routeMcp host registry envelope options)
  { chooseMcpsDetailed host.toCollation registry envelope intent options with
    selected := [] }).decisions ∧
 (enforceMcpRoutingDetailed host registry envelope intent options).toRouting.verdicts =
  if st.selected=[] then
   match pickGlobalSafeFallback host.toCollation registry options st.blocked with
   | none => st.verdicts
   | some fallback => ((st.record fallback .modify).select fallback).verdicts
  else st.verdicts := by
 obtain ⟨hse,hbl,hde⟩:=chooseMcpsDetailed_spec
  (rfl : _=chooseMcpsDetailed host.toCollation registry envelope intent options)
 have hno:(plan.map (·.id)).Nodup:=hp ▸ nodup_planned hi
 rw [←hp] at hse
 let start : Routing := { chooseMcpsDetailed host.toCollation registry envelope intent options
  with selected := [] }
 let st:=(plan.map (·.id)).foldl (routeMcp host registry envelope options) start
 obtain ⟨hro,hre⟩:=@foldl_routeMcp host registry envelope options plan hi
  (fun entry he=>mem_planned (hp ▸ he)) hno start rfl hbl
 obtain ⟨ho,hkept⟩:=dedupeExcluding_spec st.selected st.blocked
 refine ⟨{ st with selected := dedupeExcluding st.selected st.blocked },
  ⟨ho,fun name=>?_,hro.blocked,fun hch=>?_⟩,rfl,?_⟩
 · have hsel:name∈st.selected ↔ _:=hro.selected name
   have hblk:st.blocked=_:=hro.blocked
   rw [hkept,hsel,hblk]
   constructor
   · rintro ⟨h|h,hn⟩
     · exact .inl h
     · exact .inr ⟨h,hn⟩
   · rintro (⟨entry,he,hsta,rfl⟩|⟨h,hn⟩)
     · exact ⟨.inl ⟨entry,he,hsta,rfl⟩,not_mem_awayIds_of_stays hno he hsta⟩
     · exact ⟨.inr h,hn⟩
 · have hst:Recorded ((chosen host.toCollation registry envelope intent options).map (·.id))
    (plan.map (·.id)) start.verdicts := by
    constructor <;> simp only [Routing.verdicts] <;> grind
   obtain ⟨hb,hr,hd,hf⟩:=hre _ _ (fun e he=>⟨mem_map.mpr ⟨e,he,rfl⟩,hch e he⟩)
    hst
   exact ⟨hb,hr,fun name hn=>hd name (hn.imp id fun h=>((hkept name).mp h).1),hf⟩
 dsimp only [enforceMcpRoutingDetailed]
 rw [hse]
 split_ifs with hem
 · cases pickGlobalSafeFallback host.toCollation registry options _ with
   | none => rfl
   | some safeFallback =>
    dsimp only
    cases registryByName registry safeFallback with
    | none => rfl
    | some fallbackEntry => exact Routing.verdicts_applyRuntimeStateTouch
 · rfl

theorem Settled.empty_iff {chosen : List McpRegistryEntry} {st : Routing}
 (h:Settled registry options chosen plan st) :
 st.selected=[] ↔ Exhausted registry options plan := by
 rw [eq_nil_iff_forall_not_mem]
 simp only [h.selected]
 constructor
 · intro h
   refine ⟨fun entry he=>?_,fun name ht=>?_⟩
   · by_contra hst
     exact h entry.id (.inl ⟨entry,he,by simpa using hst,rfl⟩)
   · by_contra hn
     exact h name (.inr ⟨ht,hn⟩)
 · rintro ⟨haw,hta⟩ name (⟨entry,he,hst,rfl⟩|⟨ht,hn⟩)
   · rw [haw entry he] at hst
     cases hst
   · exact hn (hta name ht)

theorem mem_selected_iff (hi:(registry.map (·.id)).Nodup)
 (hp:plan=planned host.toCollation registry envelope intent options) :
 name∈(enforceMcpRoutingDetailed host registry envelope intent options).selected ↔
  (∃entry∈plan,turnedAway options entry=false ∧ entry.id=name) ∨
  (FallbackTarget registry options plan name ∧ name ∉ awayIds options plan) ∨
  Exhausted registry options plan ∧ ∃entry,FirstOf (Usable options (awayIds options plan))
   (priorityOrder host.toCollation registry) entry ∧ entry.id=name ∧ name ≠ "" := by
 obtain ⟨st,hst,-,hr⟩:=@enforceMcpRoutingDetailed_settled host registry envelope intent
  options plan hi hp
 have hr:(enforceMcpRoutingDetailed host registry envelope intent options).selected=_:=
  congrArg Verdicts.selected hr
 rw [hr,←or_assoc,←hst.selected,←hst.empty_iff,←hst.blocked,←pickGlobalSafeFallback_iff]
 split_ifs with hem
 · cases pickGlobalSafeFallback host.toCollation registry options st.blocked <;>
   simp [Routing.verdicts,Routing.select,Routing.record,hem,eq_comm]
 · simp [hem,Routing.verdicts]

theorem FallbackTarget.usable (h:FallbackTarget registry options plan name) :
 ∃entry∈registry,entry.id=name ∧ ∃blocked,Usable options blocked entry := by
 obtain ⟨before,entry,after,-,-,hf,-⟩:=h
 obtain ⟨-,e,he,hid,hu⟩:=hf.mem
 exact ⟨e,he,hid,_,hu⟩

end

theorem selected_permitted_iff (host : Host) (registry : List McpRegistryEntry)
 (envelope : ExecutionEnvelopeState) (intent : String) (options : McpRoutingDecisionOptions)
 (hids : (registry.map (·.id)).Nodup) :
 (∀ name ∈ (enforceMcpRoutingDetailed host registry envelope intent options).selected,
  ∃ entry ∈ registry,entry.id = name ∧ Permitted envelope options entry) ↔
 FallbacksCleared host registry envelope options
  (planned host.toCollation registry envelope intent options) := by
 have hun:∀e∈registry,∀e'∈registry,e.id=e'.id → e=e':=
  fun e he e' he' h=>inj_on_of_nodup_map hids he he' h
 constructor
 · intro hal
   constructor
   · intro entry he hta hn
     have hse:=(mem_selected_iff hids rfl).mpr (.inr (.inl ⟨hta,hn⟩))
     obtain ⟨e,hm,hid,hp⟩:=hal entry.id hse
     obtain ⟨e',hm',hid',blocked,hu⟩:=hta.usable
     rw [hun e hm entry he hid] at hp
     rw [hun e' hm' entry he hid'] at hu
     exact hu.permitted_iff.mp hp
   · intro hexh entry hf hne
     have hse:=(mem_selected_iff hids rfl).mpr
      (.inr (.inr ⟨hexh,entry,hf,rfl,hne⟩))
     obtain ⟨e,hm,hid,hp⟩:=hal entry.id hse
     obtain ⟨he,hu⟩:=hf.mem
     rw [hun e hm entry (mem_priorityOrder.mp he) hid] at hp
     exact hu.permitted_iff.mp hp
 · intro hcl name hna
   rcases (mem_selected_iff hids rfl).mp hna with
    ⟨entry,he,hst,rfl⟩ | ⟨hta,hn⟩ | ⟨hexh,entry,hf,rfl,hne⟩
   · obtain ⟨hme,ho,hl⟩:=mem_planned he
     exact ⟨entry,hme,rfl,permitted_of_stays ho hl hst⟩
   · obtain ⟨entry,he,rfl,blocked,hu⟩:=hta.usable
     exact ⟨entry,he,rfl,hu.permitted_iff.mpr (hcl.targets entry he hta hn)⟩
   · obtain ⟨he,hu⟩:=hf.mem
     exact ⟨entry,mem_priorityOrder.mp he,rfl,
      hu.permitted_iff.mpr (hcl.forced hexh entry hf hne)⟩

def plainHost : Host where
 localeCompare := compare
 toLowerCase := fun text => String.ofList (text.toList.map Char.toLower)
 touchExtensionState := fun _ _ _ => { state := .first,fingerprint := "" }
 buildExtensionStateDriftReport := fun _ _ => { warnings := [] }

def snapshotOf (rows : List (String × McpRuntimeRecord)) : Record McpRuntimeRecord :=
 rows.foldl (fun snapshot row => assign snapshot row.1 row.2) .empty

def engineAvailable : McpRoutingDecisionOptions :=
 { runtimeSnapshot := some (snapshotOf [("augment_context_engine",{ status := .available })])
   maxSelected := some 1 }

theorem selected_permitted_iff_available :
 FallbacksCleared plainHost defaultMcpRegistry ⟨.quick,.quick⟩ engineAvailable
  (planned plainHost.toCollation defaultMcpRegistry ⟨.quick,.quick⟩ "trace"
   engineAvailable) := by
 apply (selected_permitted_iff _ _ _ _ _ (by decide)).mp
 have hse:(enforceMcpRoutingDetailed plainHost defaultMcpRegistry ⟨.quick,.quick⟩
  "trace" engineAvailable).selected=["augment_context_engine"] := by decide +kernel
 have hr:engineAvailable.runtimeRecordFor "augment_context_engine" =
  some { status := .available } := by decide +kernel
 intro name hna
 rw [hse,mem_singleton] at hna
 refine ⟨_,mem_cons_self,hna.symm,by decide,by decide,by decide,by decide,
  by decide,fun runtime h=>?_⟩
 cases hr.symm.trans h
 decide

def browsersDown : McpRoutingDecisionOptions :=
 { runtimeSnapshot := some (snapshotOf
    [("augment_context_engine",{ status := .available }),
     ("chrome-devtools",{ status := .unavailable }),
     ("playwright",{ status := .unavailable })]) }

theorem selected_not_permitted :
 ¬∀ name ∈ (enforceMcpRoutingDetailed plainHost defaultMcpRegistry ⟨.quick,.tester⟩ "browser"
  browsersDown).selected,
  ∃ entry ∈ defaultMcpRegistry,entry.id = name ∧
   Permitted ⟨.quick,.tester⟩ browsersDown entry := by
 have hse:"augment_context_engine" ∈ (enforceMcpRoutingDetailed plainHost
  defaultMcpRegistry ⟨.quick,.tester⟩ "browser" browsersDown).selected := by decide +kernel
 have hr:∀entry∈defaultMcpRegistry,entry.id = "augment_context_engine" →
  ExtensionRole.tester ∉ entry.roles := by decide
 intro hal
 obtain ⟨entry,he,hid,hp⟩:=hal _ hse
 exact hr entry he hid hp.role

end DhKit.Mcp
