import DhKit.McpRouting

/-!
# Consistent verdicts

A name is selected or blocked, and its decision says so.
-/
namespace DhKit.Mcp
open KeyedTables List

section
variable (host : Host) (registry : List McpRegistryEntry) (envelope : ExecutionEnvelopeState)
 (intent : String) (options : McpRoutingDecisionOptions)

structure Consistent (result : RoutedDecision) : Prop where
 once : result.selected.Nodup
 apart : ∀ name ∈ result.selected,name ∉ result.blocked
 planned : ∀ name ∈ (chooseMcpsDetailed host.toCollation registry envelope intent
  options).selected,name ∈ result.selected ∨ name ∈ result.blocked
 blocked : ∀ name ∈ result.blocked,valueOf result.decisions name = some .block ∧
  ∃ codes,valueOf result.rejected name = some codes ∧ codes≠[]
 selected : ∀ name ∈ result.selected,valueOf result.decisions name = some .allow ∨
  valueOf result.decisions name = some .modify
 /-- A name that the planner did not choose was reached as a fallback. -/
 fallback : ∀ name ∈ result.selected,
  name ∉ (chosen host.toCollation registry envelope intent options).map (·.id) →
  valueOf result.decisions name = some .modify

/-- The planner may choose no entry, and the entry that it falls back to has no runtime record,
 which the enforcer allows. -/
def AllowsFallback : Prop :=
 options.maxSelected.getD 4 ≤ 0 ∧ options.missingRuntimeFailSafe = some .allowWithWarning ∧
 ∃ entry,FirstOf (fun entry => Offered options entry ∧ Listed envelope entry ∧
   runtimeUsable (plannerStale options) (plannerMissing options)
    (options.runtimeRecordFor entry.id) = true) (priorityOrder host.toCollation registry) entry ∧
  entry.id ≠ "" ∧ options.runtimeRecordFor entry.id = none

end

section
variable {host : Host} {registry : List McpRegistryEntry} {envelope : ExecutionEnvelopeState}
 {intent : String} {options : McpRoutingDecisionOptions} {entry : McpRegistryEntry}
 {plan : List McpRegistryEntry} {st : Routing} {name : String}

theorem pickPlannerSafeFallback_iff :
 pickPlannerSafeFallback host.toCollation registry envelope options=some entry ↔
  FirstOf (fun entry=>Offered options entry ∧ Listed envelope entry ∧
   runtimeUsable (plannerStale options) (plannerMissing options)
    (options.runtimeRecordFor entry.id)=true) (priorityOrder host.toCollation registry) entry ∧
  entry.id ≠ "" := by
 unfold pickPlannerSafeFallback
 rw [Option.filter_eq_some_iff,find?_eq_some_iff_firstOf,decide_eq_true_eq]
 simp [Offered,Listed,and_assoc,and_left_comm]

theorem enforcerMissing_allow :
 enforcerMissing options = .allowWithWarning ↔
  options.missingRuntimeFailSafe=some .allowWithWarning := by
 unfold enforcerMissing
 cases h : options.missingRuntimeFailSafe <;> simp

/-- Where the planner chose no entry, the one it falls back to is eligible when unseen. -/
theorem chosen_eq_nil_iff
 (hp:pickPlannerSafeFallback host.toCollation registry envelope options=some entry)
 (hu:allowsUnseen options entry) :
 chosen host.toCollation registry envelope intent options=[] ↔
  options.maxSelected.getD 4 ≤ 0 := by
 obtain ⟨hme,ho,hl,-⟩:=pickPlannerSafeFallback_spec hp
 have hmi:plannerMissing options = .allowWithWarning:=by
  simp [plannerMissing,enforcerMissing_allow.mp hu.2]
 have hel:eligible envelope options entry=true:=by
  simp [eligible,ho,hl,hu.1,signalAccepted,hmi]
 have hne:registry.filter (eligible envelope options)≠[]:=
  ne_nil_of_mem (mem_filter.mpr ⟨hme,hel⟩)
 have hso:(registry.filter (eligible envelope options)).insertionSort
  (comesFirst host.toCollation fun entry=>
   (scoreRegistryEntry entry (inferIntentTags host.toCollation intent)).1)≠[] := by
  rwa [Ne,←length_eq_zero_iff,length_insertionSort,length_eq_zero_iff]
 rw [chosen,take_eq_nil_iff,or_iff_left hso]
 omega

/-- Where the records agree, so do the verdicts. -/
theorem consistent_of_recorded {result : RoutedDecision} {v : Verdicts} {names : List String}
 (hv:result.toRouting.verdicts=v)
 (h:Recorded ((chosen host.toCollation registry envelope intent options).map (·.id)) names v)
 (ho:v.selected.Nodup) (hap:∀name∈v.selected,name ∉ v.blocked)
 (hp:∀name∈(chooseMcpsDetailed host.toCollation registry envelope intent
  options).selected,name∈v.selected ∨ name∈v.blocked) :
 Consistent host registry envelope intent options result := by
 subst hv
 have hk:∀name∈result.selected,valueOf result.decisions name=some .allow ∨
  valueOf result.decisions name=some .modify := by
  intro name hn
  obtain ⟨kind,hki⟩:=Option.isSome_iff_exists.mp (h.decided name (.inr hn))
  have hvalue:valueOf result.decisions name=some kind:=hki
  cases kind with
  | allow => exact .inl hvalue
  | modify => exact .inr hvalue
  | block => exact absurd ((h.blocks name).mp hki) (hap name hn)
 exact ⟨ho,hap,hp,fun name hn=>⟨(h.blocks name).mpr hn,
  h.rejects name hn⟩,hk,fun name hn hf=>
   (hk name hn).resolve_left (h.fallbacks name hf)⟩

theorem Settled.apart {chosen : List McpRegistryEntry}
 (h:Settled registry options chosen plan st) (hno:(plan.map (·.id)).Nodup)
 (hna:name∈st.selected) : name ∉ st.blocked := by
 rw [h.blocked]
 rcases (h.selected name).mp hna with ⟨entry,he,hst,rfl⟩|⟨-,hn⟩
 · exact not_mem_awayIds_of_stays hno he hst
 · exact hn

theorem Settled.planned {chosen : List McpRegistryEntry}
 (h:Settled registry options chosen plan st) (hn:name∈plan.map (·.id)) :
 name∈st.selected ∨ name∈st.blocked := by
 obtain ⟨entry,he,rfl⟩:=mem_map.mp hn
 cases haw : turnedAway options entry with
 | false => exact .inl ((h.selected _).mpr (.inl ⟨entry,he,haw,rfl⟩))
 | true =>
  rw [h.blocked]
  exact .inr (mem_map.mpr ⟨entry,mem_filter.mpr ⟨he,haw⟩,rfl⟩)

/-- The turn of a planned entry without a runtime record. -/
theorem decisions_of_unseen (hi:(registry.map (·.id)).Nodup) (hme:entry∈registry)
 (ho:Offered options entry) (hl:Listed envelope entry)
 (hu:allowsUnseen options entry) (st : Routing) :
 valueOf (routeMcp host registry envelope options st entry.id).decisions entry.id =
  some .allow := by
 have hr:=registryByName_of_mem hi hme
 have hto:∀st : Routing,((st.applyRuntimeStateTouch host options entry).select
  entry.id).decisions=st.decisions := fun st=>
  congrArg Verdicts.decisions (@Routing.verdicts_kept host entry entry.id st options)
 simp [routeMcp,hr,ho.1,ho.2.1,ho.2.2,hl.1,hl.2,routeByRuntime,
  hu.1,hu.2,hto,Routing.warn,Routing.record,valueOf_assign]

end

theorem routing_consistent_iff (host : Host) (registry : List McpRegistryEntry)
 (envelope : ExecutionEnvelopeState) (intent : String) (options : McpRoutingDecisionOptions)
 (hids : (registry.map (·.id)).Nodup) :
 Consistent host registry envelope intent options
  (enforceMcpRoutingDetailed host registry envelope intent options) ↔
 ¬ AllowsFallback host registry envelope options := by
 obtain ⟨plan,hpl⟩ : ∃plan,plan=planned host.toCollation registry envelope intent options :=
  ⟨_,rfl⟩
 have hn:(plan.map (·.id)).Nodup:=hpl ▸ nodup_planned hids
 obtain ⟨st,hst,hde,hru⟩:=@enforceMcpRoutingDetailed_settled host registry envelope
  intent options plan hids hpl
 obtain ⟨hse,-,-⟩:=chooseMcpsDetailed_spec
  (rfl : _=chooseMcpsDetailed host.toCollation registry envelope intent options)
 rw [←hpl] at hse
 constructor
 · rintro hco ⟨hma,hmi,entry,hf,hne,hnone⟩
   have hpi:=pickPlannerSafeFallback_iff.mpr ⟨hf,hne⟩
   have hu:allowsUnseen options entry:=⟨hnone,enforcerMissing_allow.mpr hmi⟩
   have hch:chosen host.toCollation registry envelope intent options=[]:=
    (chosen_eq_nil_iff hpi hu).mpr hma
   obtain ⟨hme,ho,hl,-⟩:=pickPlannerSafeFallback_spec hpi
   have hon:plan=[entry]:=by simp [hpl,planned,hch,hpi]
   have hsta:turnedAway options entry=false:=by simp [turnedAway,hnone,hu.2]
   have hin:entry.id∈st.selected:=
    (hst.selected _).mpr (.inl ⟨entry,by simp [hon],hsta,rfl⟩)
   rw [if_neg (ne_nil_of_mem hin)] at hru
   have hs:(enforceMcpRoutingDetailed host registry envelope intent options).selected =
    st.selected := congrArg Verdicts.selected hru
   have hd:(enforceMcpRoutingDetailed host registry envelope intent options).decisions =
    st.decisions := congrArg Verdicts.decisions hru
   have hmo:=hco.fallback entry.id (hs ▸ hin) (by simp [hch])
   rw [hd,hde,hon,map_singleton,foldl_cons,foldl_nil,
    decisions_of_unseen hids hme ho hl hu] at hmo
   cases hmo
 · intro hsa
   have hch:∀entry∈plan,allowsUnseen options entry →
    entry.id∈(chosen host.toCollation registry envelope intent options).map (·.id) := by
    intro entry he hu
    rw [hpl,planned] at he
    split_ifs at he with hem
    · have hpi:=Option.mem_toList.mp he
      obtain ⟨hf,hne⟩:=pickPlannerSafeFallback_iff.mp hpi
      exact absurd ⟨(chosen_eq_nil_iff hpi hu).mp hem,
       enforcerMissing_allow.mp hu.2,entry,hf,hne,hu.1⟩ hsa
    · exact mem_map.mpr ⟨entry,he,rfl⟩
   have hr:=hst.recorded hch
   have hp:∀name∈(chooseMcpsDetailed host.toCollation registry envelope intent
    options).selected,name∈st.selected ∨ name∈st.blocked := fun name hna=>
    hst.planned (hse ▸ hna)
   by_cases hem : st.selected=[]
   · rw [if_pos hem] at hru
     cases hpi : pickGlobalSafeFallback host.toCollation registry options st.blocked with
     | none =>
      rw [hpi] at hru
      exact consistent_of_recorded hru hr hst.nodup (fun _=>hst.apart hn) hp
     | some fallback =>
      rw [hpi] at hru
      obtain ⟨e,hf,rfl,-⟩:=pickGlobalSafeFallback_iff.mp hpi
      have hnew:e.id ∉ st.blocked:=hf.mem.2.1
      have hsel:((st.record e.id .modify).select e.id).verdicts.selected=[e.id]:=by
       simp [Routing.verdicts,Routing.select,Routing.record,hem]
      refine consistent_of_recorded hru (hr.take hnew (by simp) (by simp)) ?_ ?_ ?_
      · simp [hsel]
      · intro name hna
        rw [hsel,mem_singleton] at hna
        exact hna ▸ hnew
      intro name hna
      rcases hp name hna with h|h
      · simp [hem] at h
      · exact .inr h
   · rw [if_neg hem] at hru
     exact consistent_of_recorded hru hr hst.nodup (fun _=>hst.apart hn) hp

theorem routing_consistent_available :
 Consistent plainHost defaultMcpRegistry ⟨.quick,.quick⟩ "trace" engineAvailable
  (enforceMcpRoutingDetailed plainHost defaultMcpRegistry ⟨.quick,.quick⟩ "trace"
   engineAvailable) :=
 (routing_consistent_iff _ _ _ _ _ (by decide)).mpr fun h=>absurd h.1 (by decide)

def nothingChosen : McpRoutingDecisionOptions :=
 { maxSelected := some 0,missingRuntimeFailSafe := some .allowWithWarning }

theorem routing_not_consistent :
 ¬ Consistent plainHost defaultMcpRegistry ⟨.quick,.quick⟩ "trace" nothingChosen
  (enforceMcpRoutingDetailed plainHost defaultMcpRegistry ⟨.quick,.quick⟩ "trace"
   nothingChosen) := by
 intro h
 have hmo:=h.fallback "augment_context_engine" (by decide +kernel) (by decide +kernel)
 have hal:valueOf (enforceMcpRoutingDetailed plainHost defaultMcpRegistry ⟨.quick,.quick⟩
  "trace" nothingChosen).decisions "augment_context_engine" = some .allow := by decide +kernel
 cases hal.symm.trans hmo

end DhKit.Mcp
