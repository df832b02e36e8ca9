import DhKit.KeyedTables
import DhKit.LayeredOrder

/-!
# Planning of work items

The planner sets the items aside that depend on unknown ids, and schedules the others in layers.
-/
namespace DhKit.Delivery
open KeyedTables LayeredOrder List
open Relation (ReflTransGen TransGen)

inductive WorkItemStatus where
 | pending | inProgress | done | blocked
deriving DecidableEq

structure WorkItemState where
 id : String
 title : String
 dependencies : List String
 parallelizable : Bool
 executionGroup : Option String
 status : WorkItemStatus
 acceptance : List String
 validationPlan : List String
deriving DecidableEq

structure WorkItemPlan where
 ready : List WorkItemState
 blocked : List WorkItemState
 parallelizableGroups : List (List WorkItemState)
 executionOrder : List (List WorkItemState)
deriving DecidableEq

def groupKey (item : WorkItemState) : String := item.executionGroup.getD ("solo:" ++ item.id)

variable (items : List WorkItemState)

def groupByExecutionGroup : HashMap String (List WorkItemState) :=
 items.foldl (fun groups item =>
  let existing := (HashMap.get groups (groupKey item)).getD []
  groups.upsert (groupKey item,existing++[item])) Table.empty

def groupParallelizable : List (List WorkItemState) :=
 let parallelizable := items.filter fun item => item.parallelizable
 let serial := items.filter fun item => !item.parallelizable
 ((groupByExecutionGroup parallelizable).rows.map Prod.snd).filter
  (fun group => 0 < group.length) ++
  serial.map fun item => [item]

def groupedItems (groups : HashMap String (List WorkItemState)) : List WorkItemState :=
 (groups.rows.map Prod.snd).flatten

theorem groupedItems_upsert (groups : HashMap String (List WorkItemState)) (item : WorkItemState)
 (k : String) : (groupedItems (groups.upsert
  (k,(HashMap.get groups k).getD []++[item]))).Perm (groupedItems groups++[item]) := by
 unfold groupedItems
 cases hge : HashMap.get groups k with
 | none =>
  have hf:k ∉ groups.rows.map Prod.fst:=by
   intro hk
   have hso:=HashMap.isSome_get_iff.mpr hk
   rw [hge] at hso
   cases hso
  rw [Table.rows_upsert_of_fresh hf]
  simp
 | some old =>
  obtain ⟨before,after,hr,hr'⟩:=Table.rows_upsert_of_mem
   (HashMap.get_eq_some.mp hge) (show Prod.fst (k,old)=Prod.fst (k,old++[item]) from rfl)
  rw [Option.getD_some,hr,hr']
  simp only [map_append,map_cons,flatten_append,flatten_cons,append_assoc]
  apply Perm.append_left
  apply Perm.append_left
  exact perm_append_comm

theorem groupedItems_groupByExecutionGroup :
 (groupedItems (groupByExecutionGroup items)).Perm items := by
 unfold groupByExecutionGroup
 induction items using List.reverseRecOn with
 | nil => exact .refl _
 | append_singleton items item ih =>
  rw [foldl_append]
  exact (groupedItems_upsert _ item (groupKey item)).trans (ih.append_right [item])

theorem flatten_groupParallelizable :
 (groupParallelizable items).flatten.Perm items := by
 have hgr:∀groups : List (List WorkItemState),
  (groups.filter fun group=>0 < group.length).flatten=groups.flatten := by
  intro groups
  induction groups with
  | nil => rfl
  | cons group groups ih => cases group <;> simp [ih]
 have hse:∀items : List WorkItemState,(items.map fun item=>[item]).flatten=items:=by
  intro items
  induction items with
  | nil => rfl
  | cons item items ih => simp [ih]
 rw [groupParallelizable,flatten_append,hgr,hse]
 refine ((groupedItems_groupByExecutionGroup _).append_right _).trans ?_
 simpa using filter_append_perm (fun item : WorkItemState=>item.parallelizable) items

section
variable (items : List WorkItemState)

def doneIds : List String :=
 (items.filter fun item => item.status = .done).map WorkItemState.id

def pendingItems : List WorkItemState := items.filter fun item => item.status = .pending

def missingDependencies (item : WorkItemState) : List String :=
 item.dependencies.filter fun id => id ∉ doneIds items ∧ id ∉ items.map WorkItemState.id

/-- The keys of `missingDependencyIdsByItem`. -/
def idsWithMissing : List String :=
 ((pendingItems items).filter fun item => 0 < (missingDependencies items item).length).map
  WorkItemState.id

def schedulable : List WorkItemState :=
 (pendingItems items).filter fun item => item.id ∉ idsWithMissing items

def unresolvedDeps (item : WorkItemState) : List String :=
 item.dependencies.filter fun id =>
  id ∉ doneIds items ∧ id ∈ (schedulable items).map WorkItemState.id

def unresolvedDepsByItem : HashMap String (List String) :=
 HashMap.collect ((schedulable items).map fun item => (item.id,unresolvedDeps items item))

def awaited (item : WorkItemState) : List String :=
 (HashMap.get (unresolvedDepsByItem items) item.id).getD []

def planWorkItems : WorkItemPlan :=
 let (scheduled,executionOrder) := layers WorkItemState.id (awaited items) groupParallelizable
  (schedulable items) ((schedulable items).length) [] []
 let ready := (schedulable items).filter fun item => (awaited items item).isEmpty
 let unscheduledIds := ((schedulable items).filter fun item => item.id ∉ scheduled).map
  WorkItemState.id
 { ready := ready
   blocked := (pendingItems items).filter fun item =>
    item.id ∈ idsWithMissing items ∨ item.id ∈ unscheduledIds
   parallelizableGroups := groupParallelizable ready
   executionOrder := executionOrder }

end

structure Schedulable (items : List WorkItemState) (item : WorkItemState) : Prop where
 mem : item ∈ items
 pending : item.status = .pending
 known : ∀ d ∈ item.dependencies,d ∈ items.map WorkItemState.id

inductive Runnable (items : List WorkItemState) : String → Prop
 | intro (item : WorkItemState) (h : Schedulable items item)
  (hdeps : ∀ d ∈ item.dependencies,∀ dep,Schedulable items dep → dep.id = d →
   Runnable items d) : Runnable items item.id

def executed : List WorkItemState :=
 (planWorkItems items).executionOrder.flatten

section
variable {items : List WorkItemState} {item : WorkItemState}
 {d k : String} {group : List WorkItemState}

theorem mem_doneIds (h:d∈doneIds items) :
 ∃dep∈items,dep.id=d ∧ dep.status = .done := by
 obtain ⟨dep,hde,hid⟩:=mem_map.mp h
 obtain ⟨hme,hstatus⟩:=mem_filter.mp hde
 exact ⟨dep,hme,hid,of_decide_eq_true hstatus⟩

theorem missingDependencies_pos :
 0 < (missingDependencies items item).length ↔
  ∃d∈item.dependencies,d ∉ items.map WorkItemState.id := by
 rw [length_pos_iff_exists_mem]
 apply exists_congr
 intro d
 rw [missingDependencies,mem_filter,decide_eq_true_eq]
 constructor
 · rintro ⟨hd,-,hu⟩
   exact ⟨hd,hu⟩
 · rintro ⟨hd,hu⟩
   refine ⟨hd,fun hdo=>?_,hu⟩
   obtain ⟨dep,hde,rfl,-⟩:=mem_doneIds hdo
   exact hu (mem_map.mpr ⟨dep,hde,rfl⟩)

theorem mem_pendingItems : item∈pendingItems items ↔ item∈items ∧ item.status = .pending := by
 rw [pendingItems,mem_filter,decide_eq_true_eq]

section
variable (hids : (items.map WorkItemState.id).Nodup)
include hids

theorem mem_schedulable :
 item∈schedulable items ↔ Schedulable items item := by
 rw [schedulable,mem_filter,decide_eq_true_eq,mem_pendingItems]
 constructor
 · rintro ⟨⟨hme,hp⟩,hk⟩
   refine ⟨hme,hp,?_⟩
   intro d hd
   by_contra hu
   apply hk
   refine mem_map.mpr ⟨item,mem_filter.mpr ⟨mem_pendingItems.mpr ⟨hme,hp⟩,?_⟩,
    rfl⟩
   exact decide_eq_true (missingDependencies_pos.mpr ⟨d,hd,hu⟩)
 · intro h
   refine ⟨⟨h.mem,h.pending⟩,?_⟩
   intro hmi
   obtain ⟨other,ho,hid⟩:=mem_map.mp hmi
   obtain ⟨hp,hpo⟩:=mem_filter.mp ho
   obtain ⟨d,hd,hu⟩:=missingDependencies_pos.mp (of_decide_eq_true hpo)
   rw [inj_on_of_nodup_map hids (mem_pendingItems.mp hp).1 h.mem hid] at hd
   exact hu (h.known d hd)

theorem nodup_schedulable :
 ((schedulable items).map WorkItemState.id).Nodup :=
 hids.sublist ((filter_sublist.trans filter_sublist).map _)

theorem awaited_eq (h:item∈schedulable items) :
 awaited items item=unresolvedDeps items item := by
 have hk:(((schedulable items).map fun item=>(item.id,unresolvedDeps items item)).map
  Prod.fst).Nodup := by
  rw [map_map]
  exact nodup_schedulable hids
 rw [awaited,unresolvedDepsByItem,
  (HashMap.get_collect hk).mpr (mem_map.mpr ⟨item,h,rfl⟩)]
 rfl

theorem mem_awaited (h:item∈schedulable items) : d∈awaited items item ↔
  d∈item.dependencies ∧ d∈(schedulable items).map WorkItemState.id := by
 rw [awaited_eq hids h,unresolvedDeps,mem_filter,decide_eq_true_eq]
 constructor
 · rintro ⟨hd,-,hde⟩
   exact ⟨hd,hde⟩
 rintro ⟨hd,hde⟩
 refine ⟨hd,?_,hde⟩
 -- a pending item is not done
 intro hdo
 obtain ⟨done,hme,rfl,hstatus⟩:=mem_doneIds hdo
 obtain ⟨dep,hde,hid⟩:=mem_map.mp hde
 have hsc:=(mem_schedulable hids).mp hde
 have hp:=hsc.pending
 rw [inj_on_of_nodup_map hids hsc.mem hme hid,hstatus] at hp
 cases hp

theorem settled_iff_runnable :
 Settled WorkItemState.id (awaited items) (schedulable items) k ↔ Runnable items k := by
 constructor
 · intro h
   induction h with
   | intro item hitem _ ih =>
    refine .intro item ((mem_schedulable hids).mp hitem) ?_
    rintro d hd dep hdep rfl
    apply ih
    exact (mem_awaited hids hitem).mpr
     ⟨hd,mem_map.mpr ⟨dep,(mem_schedulable hids).mpr hdep,rfl⟩⟩
 · intro h
   induction h with
   | intro item hitem _ ih =>
    have hme:=(mem_schedulable hids).mpr hitem
    refine .intro item hme ?_
    intro d hd
    obtain ⟨hdep,hsc⟩:=(mem_awaited hids hme).mp hd
    obtain ⟨dep,hde,rfl⟩:=mem_map.mp hsc
    exact ih _ hdep dep ((mem_schedulable hids).mp hde) rfl

end

def schedule (items : List WorkItemState) (turns : Nat) : List String × List (List WorkItemState) :=
 layers WorkItemState.id (awaited items) groupParallelizable (schedulable items) turns [] []

theorem schedule_spec (hids:(items.map WorkItemState.id).Nodup) :
 (∀turns,(schedulable items).length ≤ turns → schedule items turns =
  ((executed items).map WorkItemState.id,(planWorkItems items).executionOrder)) ∧
 Ordered WorkItemState.id (awaited items) (schedulable items) (executed items) ∧
 Grouped WorkItemState.id (awaited items) (planWorkItems items).executionOrder ∧
 ∀k,k∈(executed items).map WorkItemState.id ↔ Runnable items k := by
 obtain ⟨order,hl,ho,hgr,hen⟩:=layers_spec flatten_groupParallelizable
  (nodup_schedulable hids) (schedulable items).length [] Ordered.nil (by simp [Grouped])
  (by simp)
 have hor:(planWorkItems items).executionOrder=order:=by
  exact congrArg Prod.snd (hl _ (le_refl _))
 rw [executed,hor]
 exact ⟨hl,ho,hgr,
  fun k=>(mem_executed_iff ho hen).trans (settled_iff_runnable hids)⟩

theorem executed_spec (hids:(items.map WorkItemState.id).Nodup) :
 Ordered WorkItemState.id (awaited items) (schedulable items) (executed items) ∧
  ∀k,k∈(executed items).map WorkItemState.id ↔ Runnable items k :=
 ⟨(schedule_spec hids).2.1,(schedule_spec hids).2.2.2⟩

/-- A schedulable item waits for another one. -/
def WaitsFor (items : List WorkItemState) (k d : String) : Prop :=
 ∃ item,Schedulable items item ∧ item.id = k ∧ d ∈ item.dependencies ∧
  ∃ dep,Schedulable items dep ∧ dep.id = d

def ReachesCycle (items : List WorkItemState) (k : String) : Prop :=
 ∃ c,ReflTransGen (WaitsFor items) k c ∧ TransGen (WaitsFor items) c c

section
variable (hids : (items.map WorkItemState.id).Nodup)
include hids

theorem awaits_eq_waitsFor :
 Awaits WorkItemState.id (awaited items) (schedulable items)=WaitsFor items := by
 funext k d
 refine propext (exists_congr fun item=>?_)
 constructor
 · rintro ⟨hitem,hid,hd⟩
   obtain ⟨hd,hde⟩:=(mem_awaited hids hitem).mp hd
   obtain ⟨dep,hde,hdi⟩:=mem_map.mp hde
   exact ⟨(mem_schedulable hids).mp hitem,hid,hd,dep,(mem_schedulable hids).mp hde,hdi⟩
 · rintro ⟨hitem,hid,hd,dep,hde,hdi⟩
   have hme:=(mem_schedulable hids).mpr hitem
   exact ⟨hme,hid,(mem_awaited hids hme).mpr
    ⟨hd,mem_map.mpr ⟨dep,(mem_schedulable hids).mpr hde,hdi⟩⟩⟩

theorem runnable_iff :
 Runnable items k ↔ (∃item,Schedulable items item ∧ item.id=k) ∧ ¬ReachesCycle items k := by
 have hcy:LayeredOrder.ReachesCycle WorkItemState.id (awaited items) (schedulable items) k ↔
  ReachesCycle items k := by
  unfold LayeredOrder.ReachesCycle ReachesCycle
  rw [awaits_eq_waitsFor hids]
 rw [←settled_iff_runnable hids,←hcy]
 constructor
 · intro h
   refine ⟨?_,h.not_reachesCycle (nodup_schedulable hids)⟩
   cases h with
   | intro item hitem _ => exact ⟨item,(mem_schedulable hids).mp hitem,rfl⟩
 · rintro ⟨⟨item,hitem,rfl⟩,h⟩
   refine settled_of_not_reachesCycle (fun a ha d hd=>((mem_awaited hids ha).mp hd).2) ?_ h
   exact mem_map.mpr ⟨item,(mem_schedulable hids).mpr hitem,rfl⟩

theorem runnable_iff_executed (h:item∈items) :
 Runnable items item.id ↔ item∈executed items := by
 obtain ⟨hor,hr⟩:=executed_spec hids
 rw [←hr]
 refine ⟨fun hru=>?_,fun hru=>mem_map.mpr ⟨item,hru,rfl⟩⟩
 obtain ⟨other,ho,hid⟩:=mem_map.mp hru
 have hme:=((mem_schedulable hids).mp (hor.subset other ho)).mem
 exact inj_on_of_nodup_map hids hme h hid ▸ ho

theorem mem_executed :
 item∈executed items ↔ Schedulable items item ∧ ¬ReachesCycle items item.id := by
 constructor
 · intro h
   have hitem:=(mem_schedulable hids).mp ((executed_spec hids).1.subset item h)
   exact ⟨hitem,((runnable_iff hids).mp ((runnable_iff_executed hids hitem.mem).mpr h)).2⟩
 · rintro ⟨hitem,hcy⟩
   exact (runnable_iff_executed hids hitem.mem).mp
    ((runnable_iff hids).mpr ⟨⟨item,hitem,rfl⟩,hcy⟩)

theorem mem_blocked :
 item∈(planWorkItems items).blocked ↔
  item∈items ∧ item.status = .pending ∧ item ∉ executed items := by
 have hpl:(planWorkItems items).blocked=(pendingItems items).filter fun item=>
  item.id∈idsWithMissing items ∨ item.id∈((schedulable items).filter fun item=>
   item.id ∉ (schedule items (schedulable items).length).1).map WorkItemState.id := rfl
 rw [hpl,(schedule_spec hids).1 _ (le_refl _),mem_filter,mem_pendingItems,and_assoc]
 refine and_congr_right fun hme=>and_congr_right fun hp=>?_
 rw [decide_eq_true_eq]
 have hsa:∀ {l : List WorkItemState},(∀a∈l,a∈items) →
  (item.id∈l.map WorkItemState.id ↔ item∈l) := by
  intro l hl
  refine ⟨fun h=>?_,fun h=>mem_map.mpr ⟨item,h,rfl⟩⟩
  obtain ⟨other,ho,hid⟩:=mem_map.mp h
  exact inj_on_of_nodup_map hids (hl other ho) hme hid ▸ ho
 have hexe:∀a∈executed items,a∈schedulable items:=(schedule_spec hids).2.1.subset
 have hi:∀a∈schedulable items,a∈items:=fun a ha=>
  ((mem_schedulable hids).mp ha).mem
 have hmi:item.id∈idsWithMissing items ↔ item ∉ schedulable items:=by
  rw [schedulable,mem_filter,decide_eq_true_eq]
  simp [mem_pendingItems,hme,hp]
 rw [hmi,hsa fun a ha=>hi a (mem_of_mem_filter ha),mem_filter,decide_eq_true_eq,
  hsa fun a ha=>hi a (hexe a ha)]
 constructor
 · rintro (h|h)
   · exact fun hr=>h (hexe item hr)
   · exact h.2
 · intro h
   by_cases hsc : item∈schedulable items
   · exact .inr ⟨hsc,h⟩
   · exact .inl hsc

end

theorem groupParallelizable_shape (h:group∈groupParallelizable items) :
 (∃item,group=[item]) ∨ ∀item∈group,item.parallelizable=true := by
 rcases mem_append.mp h with h|h
 · refine .inr fun item hitem=>?_
   have hme:item∈groupedItems (groupByExecutionGroup
    (items.filter fun item=>item.parallelizable)) :=
    mem_flatten.mpr ⟨group,mem_of_mem_filter h,hitem⟩
   simpa using (mem_filter.mp ((groupedItems_groupByExecutionGroup _).mem_iff.mp hme)).2
 · obtain ⟨item,-,rfl⟩:=mem_map.mp h
   exact .inl ⟨item,rfl⟩

theorem ReachesCycle.schedulable (h:ReachesCycle items k) :
 ∃item,Schedulable items item ∧ item.id=k := by
 obtain ⟨c,hr,hcy⟩:=h
 have hst:∃d,WaitsFor items k d:=by
  rcases ReflTransGen.cases_head hr with rfl|⟨d,hd,-⟩
  · obtain ⟨d,hd,-⟩:=TransGen.head'_iff.mp hcy
    exact ⟨d,hd⟩
  · exact ⟨d,hd⟩
 obtain ⟨d,item,hitem,hid,-⟩:=hst
 exact ⟨item,hitem,hid⟩

/-- What an executed item waits for is executed before its group. -/
theorem executed_before (hids:(items.map WorkItemState.id).Nodup)
 {before rest : List (List WorkItemState)}
 (h:(planWorkItems items).executionOrder=before++group::rest) (hitem:item∈group)
 {dep : WorkItemState} (hde:Schedulable items dep) (hd:dep.id∈item.dependencies) :
 dep.id∈before.flatten.map WorkItemState.id := by
 obtain ⟨-,ho,hgr,-⟩:=schedule_spec hids
 have hexe:item∈executed items:=by
  rw [executed,h]
  simp [hitem]
 refine hgr before group rest h item hitem _ ?_
 exact (mem_awaited hids (ho.subset item hexe)).mpr
  ⟨hd,mem_map.mpr ⟨dep,(mem_schedulable hids).mpr hde,rfl⟩⟩

end

/-- The loop ends, and every pending item is executed or blocked. Of the items with known
dependencies those are blocked that reach a cycle. -/
theorem planWorkItems_partition (hids : (items.map WorkItemState.id).Nodup) :
 let plan := planWorkItems items
 (∀ turns,(schedulable items).length ≤ turns → (schedule items turns).2 = plan.executionOrder) ∧
 (plan.executionOrder.flatten++plan.blocked).Nodup ∧
 (∀ item,item ∈ plan.executionOrder.flatten++plan.blocked ↔
  item ∈ items ∧ item.status = .pending) ∧
 (∀ group ∈ plan.executionOrder,∀ a ∈ group,∀ b ∈ group,a≠b → b.id ∉ a.dependencies) ∧
 (∀ item ∈ items,(∀ d ∈ item.dependencies,d ∈ items.map WorkItemState.id) →
  (item ∈ plan.blocked ↔ ReachesCycle items item.id)) ∧
 ∀ group ∈ plan.executionOrder,
  (∃ item,group = [item]) ∨ ∀ item ∈ group,item.parallelizable = true := by
 intro plan
 obtain ⟨hl,hor,-,-⟩:=schedule_spec hids
 have hexe:∀item∈executed items,Schedulable items item:=fun item h=>
  ((mem_executed hids).mp h).1
 refine ⟨fun turns h=>by rw [hl turns h],?_,fun item=>?_,?_,?_,fun group hgr=>?_⟩
 · refine nodup_append.mpr ⟨Nodup.of_map _ hor.nodup,?_,?_⟩
   · exact (Nodup.of_map _ hids).sublist (filter_sublist.trans filter_sublist)
   · rintro a ha b hb rfl
     exact ((mem_blocked hids).mp hb).2.2 ha
 · rw [mem_append,mem_blocked hids]
   constructor
   · rintro (h|h)
     · exact ⟨(hexe item h).mem,(hexe item h).pending⟩
     · exact ⟨h.1,h.2.1⟩
   · rintro ⟨hme,hp⟩
     by_cases h : item∈executed items
     · exact .inl h
     · exact .inr ⟨hme,hp,h⟩
 · intro group hgr a ha b hb hne hde
   obtain ⟨before,rest,ho⟩:=append_of_mem hgr
   have hme:b∈executed items:=mem_flatten.mpr ⟨group,hgr,hb⟩
   have hbe:=executed_before hids ho ha (hexe b hme) hde
   have hn:=hor.nodup
   rw [executed,ho,flatten_append,map_append,flatten_cons,map_append] at hn
   exact (nodup_append.mp hn).2.2 _ hbe _
    (mem_append_left _ (mem_map.mpr ⟨b,hb,rfl⟩)) rfl
 · intro item hme hk
   rw [mem_blocked hids,mem_executed hids]
   constructor
   · rintro ⟨-,hp,h⟩
     by_contra hcy
     exact h ⟨⟨hme,hp,hk⟩,hcy⟩
   · intro hcy
     obtain ⟨other,hot,hid⟩:=hcy.schedulable
     rw [inj_on_of_nodup_map hids hot.mem hme hid] at hot
     exact ⟨hme,hot.pending,fun h=>h.2 hcy⟩
 · have ho:plan.executionOrder=(schedule items (schedulable items).length).2:=by
    rw [hl _ (le_refl _)]
   rcases mem_layers (ho ▸ hgr) with h|⟨l,h⟩
   · cases h
   · exact groupParallelizable_shape h

def sampleItem (id : String) (dependencies : List String) : WorkItemState :=
 { id := id,title := id,dependencies := dependencies,parallelizable := false,
   executionGroup := none,status := .pending,acceptance := [],validationPlan := [] }

theorem planWorkItems_partition_cycle :
 let items := [sampleItem "a" ["a"],sampleItem "b" []]
 ReachesCycle items "a" := by
 intro items
 have hb:=(planWorkItems_partition items (by decide)).2.2.2.2.1 (sampleItem "a" ["a"])
  (by decide) (by decide)
 exact hb.mp (by decide +kernel)

/-- An item depends on another one that is not done. -/
def DependsOnOpen (item dep : WorkItemState) : Prop :=
 dep ∈ items ∧ dep.id ∈ item.dependencies ∧ dep.status≠.done

/-- The items of a plan run after what they depend on, and those are blocked that depend on
something that is neither done nor executed. -/
structure RunsAfterDependencies (items : List WorkItemState) (plan : WorkItemPlan) : Prop where
 after : ∀ before group rest,plan.executionOrder = before++group::rest →
  ∀ item ∈ group,∀ d ∈ item.dependencies,
   d ∈ doneIds items ∨ d ∈ before.flatten.map WorkItemState.id
 blocked : ∀ item ∈ items,item.status = .pending →
  ∀ last,ReflTransGen (DependsOnOpen items) item last → ∀ d ∈ last.dependencies,
   d ∉ doneIds items → d ∉ plan.executionOrder.flatten.map WorkItemState.id →
    item ∈ plan.blocked

theorem runsAfterDependencies_iff (hids : (items.map WorkItemState.id).Nodup) :
 RunsAfterDependencies items (planWorkItems items) ↔
  ∀ item,Schedulable items item → ¬ ReachesCycle items item.id →
   ∀ dep ∈ items,dep.id ∈ item.dependencies → dep.status = .done ∨ Schedulable items dep := by
 have hsa:∀a∈items,∀b∈items,a.id=b.id → a=b:=fun a ha b hb h=>
  inj_on_of_nodup_map hids ha hb h
 constructor
 · intro h item hitem hcy dep hme hd
   obtain ⟨group,hgr,hin⟩:=mem_flatten.mp ((mem_executed hids).mpr ⟨hitem,hcy⟩)
   obtain ⟨before,rest,ho⟩:=append_of_mem hgr
   rcases h.after before group rest ho item hin _ hd with hdo|hbe
   · obtain ⟨other,hot,hid,hstatus⟩:=mem_doneIds hdo
     exact .inl (hsa other hot dep hme hid ▸ hstatus)
   obtain ⟨other,hot,hid⟩:=mem_map.mp hbe
   have hexe:other∈executed items:=by
    rw [executed,ho,flatten_append]
    exact mem_append_left _ hot
   have hsc:=((mem_executed hids).mp hexe).1
   exact .inr (hsa other hsc.mem dep hme hid ▸ hsc)
 intro h
 have haf:∀before group rest,
  (planWorkItems items).executionOrder=before++group::rest →
   ∀item∈group,∀d∈item.dependencies,
    d∈doneIds items ∨ d∈before.flatten.map WorkItemState.id := by
  intro before group rest ho item hin d hd
  have hexe:item∈executed items:=by
   rw [executed,ho]
   simp [hin]
  obtain ⟨hitem,hcy⟩:=(mem_executed hids).mp hexe
  obtain ⟨dep,hme,rfl⟩:=mem_map.mp (hitem.known d hd)
  rcases h item hitem hcy dep hme hd with hdo|hsc
  · exact .inl (mem_map.mpr ⟨dep,mem_filter.mpr ⟨hme,decide_eq_true hdo⟩,rfl⟩)
  · exact .inr (executed_before hids ho hin hsc hd)
 have hdeps:∀item∈executed items,∀d∈item.dependencies,
  d∈doneIds items ∨ d∈(executed items).map WorkItemState.id := by
  intro item hitem d hd
  obtain ⟨group,hgr,hin⟩:=mem_flatten.mp hitem
  obtain ⟨before,rest,ho⟩:=append_of_mem hgr
  refine (haf before group rest ho item hin d hd).imp_right fun hbe=>?_
  rw [executed,ho,flatten_append,map_append]
  exact mem_append_left _ hbe
 refine ⟨haf,fun item hme hp last hr d hd hop hl=>?_⟩
 by_contra hf
 have hitem:item∈executed items:=by
  by_contra hou
  exact hf ((mem_blocked hids).mpr ⟨hme,hp,hou⟩)
 -- along open dependencies everything is executed
 have hla:last∈executed items:=by
  clear hd
  induction hr with
  | refl => exact hitem
  | tail _ hst ih =>
   obtain ⟨hde,hin,hn⟩:=hst
   rcases hdeps _ ih _ hin with hdo|hru
   · obtain ⟨other,hot,hid,hstatus⟩:=mem_doneIds hdo
     exact absurd (hsa other hot _ hde hid ▸ hstatus) hn
   · obtain ⟨other,hot,hid⟩:=mem_map.mp hru
     have hme:=((mem_executed hids).mp hot).1.mem
     exact hsa other hme _ hde hid ▸ hot
 exact (hdeps last hla d hd).elim hop hl

theorem runsAfterDependencies_chain :
 let items := [sampleItem "b" ["a"],sampleItem "a" []]
 RunsAfterDependencies items (planWorkItems items) := by
 intro items
 refine (runsAfterDependencies_iff items (by decide)).mpr fun _ _ _ dep hde _=>.inr ?_
 have hal:∀dep∈items,dep.status = .pending ∧
  ∀d∈dep.dependencies,d∈items.map WorkItemState.id := by decide
 exact ⟨hde,(hal dep hde).1,(hal dep hde).2⟩

/-- The second item is under way, and the first one is executed without waiting for it. -/
theorem not_runsAfterDependencies :
 let items := [sampleItem "b" ["a"],{ sampleItem "a" [] with status := .inProgress }]
 ¬ RunsAfterDependencies items (planWorkItems items) := by
 intro items h
 have haf:=h.after [] [sampleItem "b" ["a"]] [] (by decide +kernel) _ mem_cons_self "a"
 exact absurd haf (by decide)

end DhKit.Delivery
