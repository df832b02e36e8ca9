import DhKit.StoredGraph

/-!
# Agreement of the two graph services

Both weighted neighborhoods are distances: the projection's along the allowed edges, the database's
along them in either direction.
-/
namespace DhKit.Graphs
open KeyedTables BreadthFirst List
open Indexer (EdgeKind Span)

def SamePairs (l l' : List (NodeId × Nat)) : Prop := ∀ x,x ∈ l ↔ x ∈ l'

def hierarchyPairs (l : List CallHierarchyNode) : List (NodeId × Nat) :=
 l.map fun c => (c.node.id,c.callDepth)

namespace Database
variable (db : Database) (workspaceId : Int)

def EndpointsStored : Prop :=
 ∀ e ∈ db.edgesByWorkspace workspaceId,
  (db.node workspaceId e.edge.fromNode).isSome ∧ (db.node workspaceId e.edge.toNode).isSome

variable {db workspaceId}

theorem node_id {n : NodeId} {g : GraphNode} (h:db.node workspaceId n=some g) : g.id=n := by
 cases n with
 | file id =>
  obtain ⟨f,hf,rfl⟩:=Option.map_eq_some_iff.mp h
  have := find?_some hf
  simpa using this
 | symbol id =>
  obtain ⟨s,hs,rfl⟩:=Option.map_eq_some_iff.mp h
  have := find?_some hs
  simpa using this
 | chunk id =>
  obtain ⟨c,hc,rfl⟩:=Option.map_eq_some_iff.mp h
  have := find?_some hc
  simpa using this

theorem mem_reachable {next : NodeId → List NodeId} {seed : NodeId} {maxHops nodeLimit : Nat}
 (hl:(minDepths (walkRows next seed maxHops)).length ≤ nodeLimit) {x : NodeId × Nat} :
 x∈reachable next seed maxHops nodeLimit ↔ x.2 ≤ maxHops ∧ IsDist next seed x.1 x.2 := by
 unfold reachable
 rw [take_of_length_le (by rwa [length_insertionSort]),mem_insertionSort]
 exact mem_minDepths_walkRows

section
variable (next : NodeId → List NodeId) (seed : NodeId) (maxHops nodeLimit : Nat)

theorem length_reachable :
 (reachable next seed maxHops nodeLimit).length =
  min nodeLimit (minDepths (walkRows next seed maxHops)).length := by
 rw [reachable,length_take,length_insertionSort]

theorem nodup_reachable :
 (reachable next seed maxHops nodeLimit).Nodup :=
 ((perm_insertionSort _ _).nodup_iff.mpr (nodup_minDepths _)).sublist (take_sublist _ _)

theorem reachable_of_no_step {next : NodeId → List NodeId} (hn:∀n,next n=[])
 (seed : NodeId) (maxHops nodeLimit : Nat) (hl:0 < nodeLimit) :
 reachable next seed maxHops nodeLimit=[(seed,0)] := by
 have hdi:∀x : NodeId × Nat,x∈minDepths (walkRows next seed maxHops) ↔ x=(seed,0):=by
  rintro ⟨b,d⟩
  rw [mem_minDepths_walkRows]
  constructor
  · rintro ⟨-,h⟩
    cases d with
    | zero => rw [walk_zero.mp h.walk]
    | succ d =>
     obtain ⟨c,-,hc⟩:=walk_succ.mp h.walk
     simp [hn] at hc
  · intro hx
    cases hx
    exact ⟨Nat.zero_le _,walk_zero.mpr rfl,fun _ _=>Nat.zero_le _⟩
 have ho:minDepths (walkRows next seed maxHops)=[(seed,0)]:=by
  refine perm_singleton.mp
   ((perm_ext_iff_of_nodup (nodup_minDepths _) (nodup_singleton _)).mpr fun x=>?_)
  rw [hdi,mem_singleton]
 rw [reachable,ho,insertionSort_cons,insertionSort_nil,orderedInsert_nil]
 exact take_of_length_le hl

theorem edgeKindToStr_ne_call (kind : EdgeKind) : edgeKindToStr kind ≠ "call" := by
 cases kind <;> decide

theorem directionalNeighborhood_call (direction : Direction)
 (maxHops nodeLimit : Nat) (hl:0 < nodeLimit) :
 db.directionalNeighborhood workspaceId seed direction maxHops nodeLimit (some ["call"]) =
  [(seed,0)] := by
 have hk:∀e : EdgeRow,kindClause (some ["call"]) e=false := by
  simp [kindClause,edgeKindToStr_ne_call]
 cases direction with
 | outgoing =>
  exact reachable_of_no_step (fun n=>by simp [outgoingNodes,hk]) seed maxHops nodeLimit hl
 | incoming =>
  exact reachable_of_no_step (fun n=>by simp [incomingNodes,hk]) seed maxHops nodeLimit hl

theorem mem_callHierarchy (direction : Direction) (maxDepth : Nat) (x : NodeId × Nat) :
 x∈hierarchyPairs (db.callHierarchy workspaceId seed direction maxDepth) ↔
  (db.node workspaceId seed).isSome ∧ x=(seed,0) := by
 rw [callHierarchy,directionalNeighborhood_call seed direction maxDepth 1000 (by omega)]
 cases hn : db.node workspaceId seed with
 | none => simp [hierarchyPairs,hn]
 | some g => simp [hierarchyPairs,hn,node_id hn]

end

end Database

namespace HydratedGraphProjection
variable {p : HydratedGraphProjection} {incoming : Bool} {maxDepth limit depth : Nat}
variable {x : NodeId × Nat} {db : Database} {workspaceId : Int} {s : Search NodeId}

 {n seed : NodeId} {nodeLimit : Nat}

theorem out_enqueue (s : CallSearch) (n : NodeId) (d bound : Nat) :
 (s.enqueue n d bound).out=s.out := by
 unfold CallSearch.enqueue
 split_ifs <;> rfl

theorem visitCalls_out (edges : List GraphEdge) (s : CallSearch) :
 ∀c∈(p.visitCalls incoming maxDepth limit depth edges s).out,
  c∈s.out ∨ c.callDepth=depth := by
 induction edges generalizing s with
 | nil => exact fun c hc=>.inl hc
 | cons edge rest ih =>
  simp only [visitCalls]
  split_ifs with hsk
  · exact ih s
  intro c hc
  cases hn : p.nodeFromProjection (callEnd incoming edge) with
  | none =>
   rw [hn] at hc
   exact (ih _ c hc).imp_left fun h=>by rwa [out_enqueue] at h
  | some n =>
   have ho:c∈s.out++[⟨n,depth⟩] → c∈s.out ∨ c.callDepth=depth:=by
    rw [mem_append,mem_singleton]
    exact Or.imp_right fun h=>by rw [h]
   rw [hn] at hc
   dsimp only at hc
   split_ifs at hc with hf
   · exact ho hc
   rcases ih _ c hc with hc|hc
   · rw [out_enqueue] at hc
     exact ho hc
   · exact .inr hc

theorem pop_callSearch {s t : CallSearch} :
 s.pop=some (x,t) ↔ ∃rest,s.queue=x::rest ∧ t={ s with queue := rest } := by
 unfold CallSearch.pop
 cases hq : s.queue with
 | nil => simp
 | cons y rest =>
  simp only [Option.some.injEq,Prod.mk.injEq,List.cons.injEq]
  constructor
  · rintro ⟨rfl,rfl⟩
    exact ⟨rest,⟨rfl,rfl⟩,rfl⟩
  · rintro ⟨_,⟨rfl,rfl⟩,rfl⟩
    exact ⟨rfl,rfl⟩

theorem callHierarchyDirection_below :
 ∀c∈p.callHierarchyDirection seed incoming maxDepth limit,0 < c.callDepth := by
 refine drain_invariant (fun s : CallSearch=>∀c∈s.out,0 < c.callDepth) ?_ _ (by simp)
 intro s x t hs hp c hc
 obtain ⟨rest,-,rfl⟩:=pop_callSearch.mp hp
 unfold expandCalls at hc
 split_ifs at hc
 · exact hs c hc
 all_goals
  rcases visitCalls_out _ _ c hc with hc|hc
  · exact hs c hc
  · omega

theorem visitCalls_of_no_calls {edges : List GraphEdge} (h:∀e∈edges,e.kind≠.calls)
 (s : CallSearch) : p.visitCalls incoming maxDepth limit depth edges s=s := by
 induction edges with
 | nil => rfl
 | cons edge rest ih =>
  rw [visitCalls,if_pos (.inl (h edge mem_cons_self))]
  exact ih fun e he=>h e (mem_cons_of_mem _ he)

theorem callHierarchyDirection_of_no_calls
 (h:∀e∈p.edges,e.kind = .calls → callEnd (!incoming) e≠seed) :
 p.callHierarchyDirection seed incoming maxDepth limit=[] := by
 have hb:p.expandCalls incoming maxDepth limit (seed,0) ⟨[seed],[],[]⟩ =
  ⟨[seed],[],[]⟩ := by
  unfold expandCalls
  split_ifs with hst hin
  · rfl
  · refine visitCalls_of_no_calls (fun e he hk=>?_) _
    obtain ⟨hme,hto⟩:=mem_filter.mp (mem_of_mem_take he)
    exact h e hme hk (by simpa [callEnd,hin] using hto)
  · refine visitCalls_of_no_calls (fun e he hk=>?_) _
    obtain ⟨hme,hfrom⟩:=mem_filter.mp (mem_of_mem_take he)
    exact h e hme hk (by simpa [callEnd,hin] using hfrom)
 have hr:drain CallSearch.pop (p.expandCalls incoming maxDepth limit) (p.edges.length+1)
  ⟨[seed],[(seed,0)],[]⟩=⟨[seed],[],[]⟩ := by
  simp only [drain,CallSearch.pop,hb]
  exact drain_of_none rfl _
 rw [callHierarchyDirection,hr]

theorem hydrate_calls {e : GraphEdge} (he:e∈(hydrate db workspaceId).edges) :
 (∃row∈db.edgesByWorkspace workspaceId,row.edge=e) ∨
  e.kind = .contains ∨ e.kind = .definition := by
 rcases mem_append.mp he with he|he
 · exact .inl (mem_map.mp he)
 obtain ⟨s,-,he⟩:=mem_flatMap.mp he
 right
 split_ifs at he
 · simp only [mem_cons,not_mem_nil,or_false] at he
   rcases he with rfl|rfl
   · exact .inl rfl
   · exact .inr rfl
 · simp at he

theorem callHierarchies_agree_iff (hr:db.EndpointsStored workspaceId) (seed : NodeId)
 (direction : Database.Direction) (incoming : Bool) (maxDepth : Nat) :
 SamePairs (hierarchyPairs (db.callHierarchy workspaceId seed direction maxDepth))
  (hierarchyPairs
   ((hydrate db workspaceId).callHierarchyDirection seed incoming maxDepth 1000)) ↔
  db.node workspaceId seed=none := by
 constructor
 · intro h
   by_contra hn
   have hso:(db.node workspaceId seed).isSome:=by
    cases hs : db.node workspaceId seed with
    | none => exact absurd hs hn
    | some g => rfl
   -- the database returns the seed at depth 0, the projection never does
   have hme:=(h (seed,0)).mp
    ((Database.mem_callHierarchy seed direction maxDepth _).mpr ⟨hso,rfl⟩)
   obtain ⟨c,hc,hp⟩:=mem_map.mp hme
   have hpo:=callHierarchyDirection_below c hc
   have hz:c.callDepth=0:=congrArg Prod.snd hp
   omega
 · intro hn
   have hem:(hydrate db workspaceId).callHierarchyDirection seed incoming maxDepth 1000 =
    [] := by
    refine callHierarchyDirection_of_no_calls fun e he hk heq=>?_
    rcases hydrate_calls he with ⟨row,hrow,rfl⟩|hc|hd
    · obtain ⟨hfrom,hto⟩:=hr row hrow
      cases incoming with
      | true =>
       have hse:row.edge.toNode=seed:=heq
       simp [hse,hn] at hto
      | false =>
       have hse:row.edge.fromNode=seed:=heq
       simp [hse,hn] at hfrom
    · simp [hk] at hc
    · simp [hk] at hd
   intro x
   rw [Database.mem_callHierarchy,hem,hn]
   simp [hierarchyPairs]

theorem visitNodes_take (depth : Nat) (l : List NodeId) (h:s.visited.length < nodeLimit) :
 (visitNodes nodeLimit depth l s).visited =
  (l.foldl (Search.discover depth) s).visited.take nodeLimit ∧
 ((l.foldl (Search.discover depth) s).visited.length < nodeLimit →
  visitNodes nodeLimit depth l s=l.foldl (Search.discover depth) s) := by
 induction l generalizing s with
 | nil => exact ⟨(take_of_length_le h.le).symm,fun _=>rfl⟩
 | cons b l ih =>
  rw [foldl_cons,visitNodes]
  by_cases hb : b∈s.visited.map Prod.fst
  · have hsa:s.discover depth b=s:=if_pos hb
    rw [hsa,if_pos hb]
    exact ih h
  have hn:s.discover depth b=⟨s.visited++[(b,depth)],s.queue++[(b,depth)]⟩:=
   if_neg hb
  rw [hn,if_neg hb]
  by_cases hf : nodeLimit ≤ (s.visited++[(b,depth)]).length
  · -- this node is the last one the limit admits
    obtain ⟨more,hmo⟩:=Search.visited_before_discover depth l
     ⟨s.visited++[(b,depth)],s.queue++[(b,depth)]⟩
    have hl:(s.visited++[(b,depth)]).length=nodeLimit:=by
     rw [length_append,length_singleton] at hf ⊢
     omega
    rw [if_pos hf,←hmo]
    dsimp only
    refine ⟨(take_left' hl).symm,fun hlt=>?_⟩
    rw [length_append] at hlt
    omega
  · rw [if_neg hf]
    exact ih (not_le.mp hf)

variable {p : HydratedGraphProjection} {maxHops : Nat} {filter : Option (List String)}

theorem visited_expandWeighted (x : NodeId × Nat) (h:s.visited.length < nodeLimit) :
 (p.expandWeighted maxHops nodeLimit filter x s).visited =
  (Search.expand (p.allowedNodes filter) maxHops x s).visited.take nodeLimit ∧
 ((Search.expand (p.allowedNodes filter) maxHops x s).visited.length < nodeLimit →
  p.expandWeighted maxHops nodeLimit filter x s =
   Search.expand (p.allowedNodes filter) maxHops x s) := by
 unfold expandWeighted Search.expand
 by_cases hb : maxHops ≤ x.2
 · rw [if_pos (.inl hb),if_pos hb]
   exact ⟨(take_of_length_le h.le).symm,fun _=>rfl⟩
 · rw [if_neg hb,if_neg (not_or.mpr ⟨hb,not_le.mpr h⟩)]
   exact visitNodes_take _ _ h

/-- The first nodes that the search without the limit meets. -/
theorem weightedNeighborhood_eq (p : HydratedGraphProjection) (seed : NodeId)
 (maxHops nodeLimit : Nat) (filter : Option (List String)) :
 ∃met,p.weightedNeighborhood p.workspaceId seed maxHops nodeLimit filter =
  ((seed,0)::met).take (max nodeLimit 1) ∧ (((seed,0)::met).map Prod.fst).Nodup ∧
  ((seed,0)::met).Pairwise (fun x y=>x.2 ≤ y.2) ∧
  ∀n d,(n,d)∈(seed,0)::met ↔ d ≤ maxHops ∧ IsDist (p.allowedNodes filter) seed n d := by
 have hal:∀b,∀c∈p.allowedNodes filter b,c∈seed::p.edges.map GraphEdge.toNode:=by
  intro b c hc
  obtain ⟨e,he,rfl⟩:=mem_map.mp hc
  exact mem_cons_of_mem _
   (mem_map.mpr ⟨e,mem_of_mem_filter (mem_of_mem_take (mem_of_mem_filter he)),rfl⟩)
 have hf:(seed::p.edges.map GraphEdge.toNode).length ≤ p.edges.length+1:=by simp
 obtain ⟨done,hs,hq⟩ : ∃done,Search.Searching (p.allowedNodes filter) maxHops seed done _ ∧ _ :=
  Search.drain_searching Search.turn_expand hal mem_cons_self hf
 obtain ⟨met,hme⟩:=Search.visited_before_drain (p.allowedNodes filter) maxHops
  (p.edges.length+1) (Search.start seed)
 have hsto:∀x (t : Search NodeId),nodeLimit ≤ t.visited.length →
  (p.expandWeighted maxHops nodeLimit filter x t).visited=t.visited := by
  intro x t ht
  rw [expandWeighted,if_pos (.inr ht)]
 have hta:(drain Search.pop (p.expandWeighted maxHops nodeLimit filter) (p.edges.length+1)
  (Search.start seed)).visited=((seed,0)::met).take (max nodeLimit 1) := by
  by_cases hon : 1 < nodeLimit
  · have hst:(Search.start seed).visited.length < nodeLimit:=hon
    rw [Search.visited_drain_take (fun x t=>visited_expandWeighted x) hsto _ hst,←hme,
     max_eq_left hon.le]
    rfl
  · have hst:nodeLimit ≤ (Search.start seed).visited.length:=not_lt.mp hon
    rw [Search.visited_drain_stopped hsto _ hst,max_eq_right (not_lt.mp hon)]
    rfl
 have ho:=hs.ordered
 have hn:=hs.nodup
 have hco:=fun n d=>hs.complete hq (b := n) (d := d)
 rw [←hme] at ho hn
 simp only [←hme] at hco
 refine ⟨met,?_,hn,ho,hco⟩
 rw [weightedNeighborhood,if_neg (not_not.mpr rfl),hta]
 exact (ho.sublist (take_sublist _ _)).insertionSort_eq

variable {db : Database} {workspaceId : Int} {kinds : List String}

def StoredKinds (kinds : List String) : Prop :=
 ∀ k ∈ kinds,∃ kind,k = edgeKindToStr kind ∧ kind≠.contains ∧ kind≠.definition

theorem edgeKindToStr_injective : Function.Injective edgeKindToStr := by
 intro a b h
 cases a <;> cases b <;> first | rfl | (exact absurd h (by decide))

theorem edgeKindAllowed_iff (hk:StoredKinds kinds) (kind : EdgeKind) :
 edgeKindAllowed kind (some kinds)=decide (edgeKindToStr kind∈kinds) := by
 unfold edgeKindAllowed
 rw [Bool.eq_iff_iff,any_eq_true,decide_eq_true_eq]
 constructor
 · rintro ⟨k,hme,h⟩
   simp only [Bool.or_eq_true,Bool.and_eq_true,decide_eq_true_eq] at h
   rcases h with rfl|⟨rfl,-⟩
   · exact hme
   · obtain ⟨kind',hca,-⟩:=hk _ hme
     exact absurd hca.symm (Database.edgeKindToStr_ne_call kind')
 · intro h
   exact ⟨_,h,by simp⟩

theorem not_allowed_synthetic (hk:StoredKinds kinds) {kind : EdgeKind}
 (h:kind = .contains ∨ kind = .definition) : edgeKindAllowed kind (some kinds)=false := by
 rw [edgeKindAllowed_iff hk,decide_eq_false_iff_not]
 intro hme
 obtain ⟨kind',heq,hc,hd⟩:=hk _ hme
 have hki:=edgeKindToStr_injective heq
 rcases h with rfl|rfl
 · exact hc hki.symm
 · exact hd hki.symm

theorem allowedNodes_hydrate (hk:StoredKinds kinds)
 (hde:((db.edgesByWorkspace workspaceId).filter fun e=>e.edge.fromNode=n).length ≤ 256) :
 (hydrate db workspaceId).allowedNodes (some kinds) n =
  db.outgoingNodes workspaceId (some kinds) n := by
 have hp:((db.edgesByWorkspace workspaceId).map EdgeRow.edge).filter
  (fun e=>e.fromNode=n) =
   ((db.edgesByWorkspace workspaceId).filter fun e=>e.edge.fromNode=n).map
    EdgeRow.edge := filter_map
 -- the synthetic edges come after the stored ones and are not allowed
 have hsy:∀m,((((syntheticEdges (hydrate db workspaceId).filesById
  (hydrate db workspaceId).symbolsById).filter fun e=>e.fromNode=n).take m).filter
   fun e=>edgeKindAllowed e.kind (some kinds))=[] := by
  intro m
  refine filter_eq_nil_iff.mpr fun e he=>?_
  obtain ⟨s,-,hs⟩:=mem_flatMap.mp (mem_of_mem_filter (mem_of_mem_take he))
  rw [Bool.not_eq_true]
  refine not_allowed_synthetic hk ?_
  split_ifs at hs
  · simp only [mem_cons,not_mem_nil,or_false] at hs
    rcases hs with rfl|rfl
    · exact .inl rfl
    · exact .inr rfl
  · simp at hs
 have hed:(hydrate db workspaceId).edges =
   (db.edgesByWorkspace workspaceId).map EdgeRow.edge ++
  syntheticEdges (hydrate db workspaceId).filesById (hydrate db workspaceId).symbolsById := rfl
 rw [allowedNodes,outgoingEdges,hed,filter_append,hp,take_append,
  take_of_length_le (by rwa [length_map]),filter_append,hsy,
  append_nil,filter_map,map_map,filter_filter]
 refine congrArg (List.map _) (filter_congr fun e _=>?_)
 simp only [edgeKindAllowed_iff hk]
 exact Bool.and_comm _ _

/-- Fewer than `n` nodes are within `bound` steps. -/
def FewerWithin (next : NodeId → List NodeId) (seed : NodeId) (bound n : Nat) : Prop :=
 ∀ l : List NodeId,l.Nodup → (∀ b ∈ l,∃ k,k ≤ bound ∧ Walk next k seed b) → l.length < n

def OutDegreeBounded (db : Database) (workspaceId : Int) : Prop :=
 ∀ n,((db.edgesByWorkspace workspaceId).filter fun e => e.edge.fromNode = n).length ≤ 256

theorem mem_weightedNeighborhood (hk:StoredKinds kinds) (hde:OutDegreeBounded db workspaceId)
 {maxHops : Nat}
 (hf:FewerWithin (db.outgoingNodes workspaceId (some kinds)) seed maxHops nodeLimit) :
 x∈(hydrate db workspaceId).weightedNeighborhood workspaceId seed maxHops nodeLimit
  (some kinds) ↔
  x.2 ≤ maxHops ∧ IsDist (db.outgoingNodes workspaceId (some kinds)) seed x.1 x.2 := by
 have hnex:(hydrate db workspaceId).allowedNodes (some kinds) =
  db.outgoingNodes workspaceId (some kinds) := funext fun n=>allowedNodes_hydrate hk (hde n)
 obtain ⟨met,heq,hn,-,hme⟩:=
  (hydrate db workspaceId).weightedNeighborhood_eq seed maxHops nodeLimit (some kinds)
 rw [hnex] at hme
 have hl:=hf _ hn fun b hb=>by
  obtain ⟨y,hy,rfl⟩:=mem_map.mp hb
  obtain ⟨hle,hdi⟩:=(hme y.1 y.2).mp hy
  exact ⟨y.2,hle,hdi.walk⟩
 rw [length_map] at hl
 change x∈(hydrate db workspaceId).weightedNeighborhood (hydrate db workspaceId).workspaceId _ _
  _ _ ↔ _
 rw [heq,take_of_length_le (by omega)]
 exact hme x.1 x.2

/-- An allowed edge into a node less than `maxHops` steps from the seed leaves a node at
 most one step farther. -/
def BackwardsNear (db : Database) (workspaceId : Int) (kinds : List String) (seed : NodeId)
 (maxHops : Nat) : Prop :=
 ∀ e ∈ db.edgesByWorkspace workspaceId,edgeKindToStr e.edge.kind ∈ kinds →
  ∀ k,k < maxHops → Walk (db.outgoingNodes workspaceId (some kinds)) k seed e.edge.toNode →
   ∃ k',k' ≤ k+1 ∧
    Walk (db.outgoingNodes workspaceId (some kinds)) k' seed e.edge.fromNode

section
variable {seed : NodeId} {maxHops : Nat} {k : Nat}

theorem mem_incomingNodes {m : NodeId} :
 m∈db.incomingNodes workspaceId (some kinds) n ↔
  ∃e∈db.edgesByWorkspace workspaceId,edgeKindToStr e.edge.kind∈kinds ∧
   e.edge.toNode=n ∧ e.edge.fromNode=m := by
 simp only [Database.incomingNodes,mem_map,mem_filter,Bool.and_eq_true,decide_eq_true_eq,
  Database.kindClause,Option.all_some]
 constructor
 · rintro ⟨e,⟨he,hto,hk⟩,hfrom⟩
   exact ⟨e,he,hk,hto,hfrom⟩
 · rintro ⟨e,he,hk,hto,hfrom⟩
   exact ⟨e,⟨he,hto,hk⟩,hfrom⟩

def bothNodes (db : Database) (workspaceId : Int) (kinds : List String) (n : NodeId) :
 List NodeId :=
 db.outgoingNodes workspaceId (some kinds) n++db.incomingNodes workspaceId (some kinds) n

theorem walk_both_of_walk (h:Walk (db.outgoingNodes workspaceId (some kinds)) k seed n) :
 Walk (bothNodes db workspaceId kinds) k seed n :=
 h.mono fun _ _ hb=>mem_append_left _ hb

theorem BackwardsNear.walk (h:BackwardsNear db workspaceId kinds seed maxHops)
 (hk:k ≤ maxHops) (hw:Walk (bothNodes db workspaceId kinds) k seed n) :
 ∃k',k' ≤ k ∧ Walk (db.outgoingNodes workspaceId (some kinds)) k' seed n := by
 induction k generalizing n with
 | zero => exact ⟨0,le_refl 0,walk_zero.mpr (walk_zero.mp hw)⟩
 | succ k ih =>
  obtain ⟨c,hc,hn⟩:=walk_succ.mp hw
  obtain ⟨k',hk',hwc⟩:=ih (by omega) hc
  rcases mem_append.mp hn with hn|hn
  · exact ⟨k'+1,by omega,walk_succ.mpr ⟨c,hwc,hn⟩⟩
  · obtain ⟨e,he,hki,rfl,rfl⟩:=mem_incomingNodes.mp hn
    obtain ⟨k2,hk2,hw2⟩:=h e he hki k' (by omega) hwc
    exact ⟨k2,by omega,hw2⟩

theorem distances_agree_iff :
 (∀x : NodeId × Nat,(x.2 ≤ maxHops ∧ IsDist (bothNodes db workspaceId kinds) seed x.1 x.2) ↔
  x.2 ≤ maxHops ∧ IsDist (db.outgoingNodes workspaceId (some kinds)) seed x.1 x.2) ↔
 BackwardsNear db workspaceId kinds seed maxHops := by
 constructor
 · intro h e he hki k hk hw
   have hb:Walk (bothNodes db workspaceId kinds) (k+1) seed e.edge.fromNode:=
    walk_succ.mpr ⟨e.edge.toNode,walk_both_of_walk hw,mem_append_right _
     (mem_incomingNodes.mpr ⟨e,he,hki,rfl,rfl⟩)⟩
   obtain ⟨d,hd,hdi⟩:=exists_isDist hb
   have hbo:=(h (e.edge.fromNode,d)).mp ⟨by dsimp only; omega,hdi⟩
   exact ⟨d,hd,hbo.2.walk⟩
 · rintro h ⟨n,d⟩
   refine and_congr_right fun hd=>⟨fun hdi=>?_,fun hdi=>?_⟩
   · obtain ⟨k',hk',hw⟩:=h.walk hd hdi.walk
     have heq:k'=d:=le_antisymm hk' (hdi.least k' (walk_both_of_walk hw))
     rw [heq] at hw
     exact ⟨hw,fun m hm=>hdi.least m (walk_both_of_walk hm)⟩
   · refine ⟨walk_both_of_walk hdi.walk,fun m hm=>?_⟩
     by_cases hmb : m ≤ maxHops
     · obtain ⟨k',hk',hw⟩:=h.walk hmb hm
       exact (hdi.least k' hw).trans hk'
     · dsimp only at hd ⊢
       omega

theorem length_of_distances {next : NodeId → List NodeId} {n : Nat} {l : List (NodeId × Nat)}
 (hn:l.Nodup) (h:∀x∈l,x.2 ≤ maxHops ∧ IsDist next seed x.1 x.2)
 (hf:FewerWithin next seed maxHops n) : l.length < n := by
 have hk:(l.map Prod.fst).Nodup:=by
  refine Nodup.map_on (fun x hx y hy hxy=>Prod.ext hxy ?_) hn
  have hdi:=(h y hy).2
  rw [←hxy] at hdi
  exact (h x hx).2.unique hdi
 have hl:=hf _ hk fun b hb=>by
  obtain ⟨x,hx,rfl⟩:=mem_map.mp hb
  exact ⟨x.2,(h x hx).1,(h x hx).2.walk⟩
 rwa [length_map] at hl

theorem weightedNeighborhoods_agree_iff (hk:StoredKinds kinds)
 (hde:OutDegreeBounded db workspaceId) (hli:1000 ≤ nodeLimit)
 (hf:FewerWithin (db.outgoingNodes workspaceId (some kinds)) seed maxHops 1000) :
 SamePairs (db.weightedNeighborhood workspaceId seed maxHops nodeLimit (some kinds))
  ((hydrate db workspaceId).weightedNeighborhood workspaceId seed maxHops nodeLimit
   (some kinds)) ↔
  BackwardsNear db workspaceId kinds seed maxHops := by
 have hp:∀x : NodeId × Nat,x∈(hydrate db workspaceId).weightedNeighborhood workspaceId
  seed maxHops nodeLimit (some kinds) ↔ x.2 ≤ maxHops ∧
   IsDist (db.outgoingNodes workspaceId (some kinds)) seed x.1 x.2 := fun x=>
  mem_weightedNeighborhood hk hde fun l hn hl=>lt_of_lt_of_le (hf l hn hl) hli
 have hquery:db.weightedNeighborhood workspaceId seed maxHops nodeLimit (some kinds) =
  Database.reachable (bothNodes db workspaceId kinds) seed maxHops nodeLimit := rfl
 rw [hquery,←distances_agree_iff]
 constructor
 · intro h
   -- as many rows as the projection has: the limit cut nothing off
   have hle:=length_of_distances (Database.nodup_reachable _ _ _ _)
    (fun x hx=>(hp x).mp ((h x).mp hx)) hf
   rw [Database.length_reachable] at hle
   have hal:(minDepths (walkRows (bothNodes db workspaceId kinds) seed maxHops)).length ≤
    nodeLimit := by omega
   intro x
   rw [←Database.mem_reachable hal,←hp]
   exact h x
 · intro h x
   have hle:=length_of_distances (nodup_minDepths (walkRows (bothNodes db workspaceId kinds)
    seed maxHops)) (fun x hx=>(h x).mp (mem_minDepths_walkRows.mp hx)) hf
   rw [Database.mem_reachable (by omega),hp]
   exact h x

/-- The call hierarchies agree exactly for a seed that is not stored, and the weighted
 neighborhoods exactly when no allowed edge leads back into the neighborhood from
 farther away. -/
theorem graphServices_agree_iff (db : Database) (workspaceId : Int) (seed : NodeId)
 (maxHops nodeLimit : Nat) (kinds : List String) (href : db.EndpointsStored workspaceId)
 (hdeg : OutDegreeBounded db workspaceId) (hk : StoredKinds kinds) (hlimit : 1000 ≤ nodeLimit)
 (hfew : FewerWithin (db.outgoingNodes workspaceId (some kinds)) seed maxHops 1000) :
 (SamePairs (hierarchyPairs (db.findCallers workspaceId seed maxHops))
  (hierarchyPairs ((hydrate db workspaceId).findCallers workspaceId seed maxHops)) ↔
  db.node workspaceId seed = none) ∧
 (SamePairs (hierarchyPairs (db.findCallees workspaceId seed maxHops))
  (hierarchyPairs ((hydrate db workspaceId).findCallees workspaceId seed maxHops)) ↔
  db.node workspaceId seed = none) ∧
 (SamePairs (db.weightedNeighborhood workspaceId seed maxHops nodeLimit (some kinds))
  ((hydrate db workspaceId).weightedNeighborhood workspaceId seed maxHops nodeLimit
   (some kinds)) ↔
  BackwardsNear db workspaceId kinds seed maxHops) := by
 have hca:(hydrate db workspaceId).findCallers workspaceId seed maxHops =
  (hydrate db workspaceId).callHierarchyDirection seed true maxHops 1000 :=
  if_neg (by simp [hydrate])
 have hcal:(hydrate db workspaceId).findCallees workspaceId seed maxHops =
  (hydrate db workspaceId).callHierarchyDirection seed false maxHops 1000 :=
  if_neg (by simp [hydrate])
 rw [hca,hcal]
 exact ⟨callHierarchies_agree_iff href seed .incoming true maxHops,
  callHierarchies_agree_iff href seed .outgoing false maxHops,
  weightedNeighborhoods_agree_iff hk hdeg hlimit hfew⟩

theorem fewerWithin_of_length {filter : Option (List String)} {n : Nat}
 (h:(db.edgesByWorkspace workspaceId).length+1 < n) :
 FewerWithin (db.outgoingNodes workspaceId filter) seed maxHops n := by
 intro l hn hl
 have hsu:l ⊆ seed::(db.edgesByWorkspace workspaceId).map fun e=>e.edge.toNode:=by
  intro b hb
  obtain ⟨k,-,hw⟩:=hl b hb
  cases k with
  | zero =>
   rw [walk_zero.mp hw]
   exact mem_cons_self
  | succ k =>
   obtain ⟨c,-,hc⟩:=walk_succ.mp hw
   obtain ⟨e,he,rfl⟩:=mem_map.mp hc
   exact mem_cons_of_mem _ (mem_map.mpr ⟨e,mem_of_mem_filter he,rfl⟩)
 have hle:=(subperm_of_subset hn hsu).length_le
 rw [length_cons,length_map] at hle
 omega

end

section

def callerSpan : Span := ⟨0,0,1,0,1,9⟩

def oneCall : Database where
 files := ⟨[⟨10,1,"src/a.ts",none⟩],by decide⟩
 symbols := ⟨[⟨1,1,10,"run","a.run",callerSpan⟩,⟨2,1,10,"help","a.help",callerSpan⟩],
  by decide⟩
 chunks := Table.empty
 edges := ⟨[⟨100,1,⟨.calls,.symbol 1,.symbol 2,.resolved,.direct,none,"call",none⟩⟩],
  by decide⟩

theorem oneCall_stored : oneCall.EndpointsStored 1 := by
 unfold Database.EndpointsStored
 decide

theorem oneCall_degree : OutDegreeBounded oneCall 1 := by
 intro n
 refine le_trans (length_filter_le _ _) ?_
 decide

theorem storedKinds_calls : StoredKinds ["calls"] := by
 intro k hk
 exact ⟨.calls,mem_singleton.mp hk,by decide,by decide⟩

theorem graphServices_agree_one_call :
 SamePairs (oneCall.weightedNeighborhood 1 (.symbol 1) 2 1000 (some ["calls"]))
  ((hydrate oneCall 1).weightedNeighborhood 1 (.symbol 1) 2 1000 (some ["calls"])) := by
 refine (graphServices_agree_iff oneCall 1 (.symbol 1) 2 1000 ["calls"] oneCall_stored
  oneCall_degree storedKinds_calls (le_refl _) (fewerWithin_of_length (by decide))).2.2.mpr ?_
 intro e he _ k _ _
 have hrow:e.edge.fromNode = .symbol 1:=by
  have h:∀e∈oneCall.edgesByWorkspace 1,e.edge.fromNode = .symbol 1:=by decide
  exact h e he
 exact ⟨0,Nat.zero_le _,walk_zero.mpr hrow⟩

/-- The projection finds the caller of the callee, the database the callee itself; and only
 the database finds the caller in the callee's neighborhood. -/
theorem graphServices_disagree :
 (oneCall.EndpointsStored 1 ∧ OutDegreeBounded oneCall 1 ∧ StoredKinds ["calls"] ∧
  FewerWithin (oneCall.outgoingNodes 1 (some ["calls"])) (.symbol 2) 2 1000) ∧
 ¬ SamePairs (hierarchyPairs (oneCall.findCallers 1 (.symbol 2) 2))
  (hierarchyPairs ((hydrate oneCall 1).findCallers 1 (.symbol 2) 2)) ∧
 ¬ SamePairs (hierarchyPairs (oneCall.findCallees 1 (.symbol 1) 2))
  (hierarchyPairs ((hydrate oneCall 1).findCallees 1 (.symbol 1) 2)) ∧
 ¬ SamePairs (oneCall.weightedNeighborhood 1 (.symbol 2) 2 1000 (some ["calls"]))
  ((hydrate oneCall 1).weightedNeighborhood 1 (.symbol 2) 2 1000 (some ["calls"])) := by
 refine ⟨⟨oneCall_stored,oneCall_degree,storedKinds_calls,fewerWithin_of_length (by decide)⟩,
  fun h=>?_,fun h=>?_,fun h=>?_⟩
 · have hme:(NodeId.symbol 1,1)∈hierarchyPairs (oneCall.findCallers 1 (.symbol 2) 2):=
    (h _).mpr (by decide +kernel)
   exact absurd hme (by decide +kernel)
 · have hme:(NodeId.symbol 2,1)∈hierarchyPairs (oneCall.findCallees 1 (.symbol 1) 2):=
    (h _).mpr (by decide +kernel)
   exact absurd hme (by decide +kernel)
 · have hme:(NodeId.symbol 1,1)∈(hydrate oneCall 1).weightedNeighborhood 1 (.symbol 2) 2 1000
    (some ["calls"]) := (h _).mp (by decide +kernel)
   exact absurd hme (by decide +kernel)

end
end HydratedGraphProjection
end DhKit.Graphs
