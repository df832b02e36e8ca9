import DhKit.GraphServices

/-!
# Call searches are breadth first

The search of the projection does not queue the nodes at its depth bound and counts only nodes that
the projection knows.
-/
namespace DhKit.Graphs.HydratedGraphProjection
open BreadthFirst List

variable (p : HydratedGraphProjection) (incoming : Bool) {met : List (NodeId × Nat)}

def calls (n : NodeId) : List NodeId :=
 ((p.edges.filter fun e => callEnd (!incoming) e = n).filter fun e => e.kind = .calls).map
  (callEnd incoming)

def hierarchyOf (met : List (NodeId × Nat)) : List CallHierarchyNode :=
 met.filterMap fun x => (p.nodeFromProjection x.1).map fun n => ⟨n,x.2⟩

def callView (s : Search NodeId) : CallSearch :=
 ⟨s.visited.map Prod.fst,s.queue,p.hierarchyOf s.visited.tail⟩

variable {p incoming} {maxDepth limit depth : Nat} {seed : NodeId}

theorem nodeFromProjection_id {n : NodeId} {g : GraphNode} (h:p.nodeFromProjection n=some g) :
 g.id=n := by
 cases n with
 | file fileId | symbol symbolId =>
  obtain ⟨f,hf,rfl⟩:=Option.map_eq_some_iff.mp h
  have := find?_some hf
  simpa using this
 | chunk chunkId => cases h

theorem hierarchyOf_append (met met' : List (NodeId × Nat)) :
 p.hierarchyOf (met++met')=p.hierarchyOf met++p.hierarchyOf met' :=
 filterMap_append

theorem length_hierarchyOf_le {met' : List (NodeId × Nat)} (h:met <+: met') :
 (p.hierarchyOf met).length ≤ (p.hierarchyOf met').length := by
 obtain ⟨more,rfl⟩:=h
 rw [hierarchyOf_append,length_append]
 omega

theorem visitCalls_view (edges : List GraphEdge) {s : Search NodeId} (hs:s.visited≠[])
 (hfew:(p.hierarchyOf (((edges.filter fun e=>e.kind = .calls).map (callEnd incoming)).foldl
  (Search.discoverBelow maxDepth depth) s).visited.tail).length < limit) :
 p.visitCalls incoming maxDepth limit depth edges (p.callView s) =
  p.callView (((edges.filter fun e=>e.kind = .calls).map (callEnd incoming)).foldl
   (Search.discoverBelow maxDepth depth) s) := by
 induction edges generalizing s with
 | nil => rfl
 | cons edge rest ih =>
  unfold visitCalls
  by_cases hk : edge.kind = .calls
  swap
  · rw [filter_cons_of_neg (by simpa using hk)] at hfew ⊢
    rw [if_pos (.inl hk)]
    exact ih hs hfew
  rw [filter_cons_of_pos (by simpa using hk),map_cons,foldl_cons] at hfew ⊢
  by_cases hse : callEnd incoming edge∈s.visited.map Prod.fst
  · have hsa:s.discoverBelow maxDepth depth (callEnd incoming edge)=s:=if_pos hse
    rw [hsa] at hfew ⊢
    rw [if_pos (.inr hse)]
    exact ih hs hfew
  have hgo:¬(edge.kind≠.calls ∨ callEnd incoming edge∈(p.callView s).visited):=
   not_or.mpr ⟨not_not.mpr hk,hse⟩
  have hta:(s.visited++[(callEnd incoming edge,depth)]).tail =
   s.visited.tail++[(callEnd incoming edge,depth)] := tail_append_of_ne_nil hs
  have hn:(s.discoverBelow maxDepth depth (callEnd incoming edge)).visited≠[]:=by
   simp [Search.discoverBelow,if_neg hse]
  have hv:p.callView (s.discoverBelow maxDepth depth (callEnd incoming edge)) =
   CallSearch.enqueue ⟨s.visited.map Prod.fst++[callEnd incoming edge],s.queue,
    p.hierarchyOf s.visited.tail++p.hierarchyOf [(callEnd incoming edge,depth)]⟩
    (callEnd incoming edge) depth maxDepth := by
   rw [Search.discoverBelow,if_neg hse,callView,CallSearch.enqueue]
   rw [hta,hierarchyOf_append]
   split_ifs <;> simp
  rw [if_neg hgo,←ih hn hfew,hv]
  cases hno : p.nodeFromProjection (callEnd incoming edge) with
  | none => simp [callView,hierarchyOf,hno]
  | some n =>
   have ho:p.hierarchyOf [(callEnd incoming edge,depth)]=[⟨n,depth⟩]:=by
    simp [hierarchyOf,hno]
   have hsh:(p.hierarchyOf s.visited.tail ++
    [(⟨n,depth⟩ : CallHierarchyNode)]).length < limit := by
    rw [←ho,←hierarchyOf_append,←hta]
    refine lt_of_le_of_lt (length_hierarchyOf_le ?_) hfew
    obtain ⟨more,hmo⟩:=Search.visited_before_discoverBelow maxDepth depth
     ((rest.filter fun e=>e.kind = .calls).map (callEnd incoming))
     (s.discoverBelow maxDepth depth (callEnd incoming edge))
    rw [←hmo,tail_append_of_ne_nil hn,Search.discoverBelow,if_neg hse]
    exact prefix_append _ _
   rw [ho]
   exact if_neg (Nat.not_le.mpr hsh)

section
variable (p : HydratedGraphProjection) (incoming : Bool) (seed : NodeId)

def Found (maxDepth : Nat)
 (n : NodeId) (d : Nat) : Prop :=
 (p.nodeFromProjection n).isSome ∧ 1 ≤ d ∧ d ≤ maxDepth ∧ IsDist (p.calls incoming) seed n d

/-- Fewer than `limit` known nodes are found. -/
def FewFound (maxDepth limit : Nat) : Prop :=
 ∀ l : List NodeId,l.Nodup → (∀ n ∈ l,∃ d,p.Found incoming seed maxDepth n d) → l.length < limit

def DegreesWithin (bound : Nat) : Prop :=
 ∀ n,(p.edges.filter fun e => e.toNode = n).length ≤ bound ∧
  (p.edges.filter fun e => e.fromNode = n).length ≤ bound

end

variable {done : List (NodeId × Nat)} {s : Search NodeId}

theorem ids_hierarchyOf :
 ((p.hierarchyOf met).map fun c=>c.node.id) =
  (met.map Prod.fst).filter fun n=>(p.nodeFromProjection n).isSome := by
 unfold hierarchyOf
 induction met with
 | nil => rfl
 | cons x met ih =>
  cases hn : p.nodeFromProjection x.1 with
  | none => simpa [hn] using ih
  | some n => simpa [hn,nodeFromProjection_id hn] using ih

theorem length_hierarchyOf_lt (h:Search.Searching (p.calls incoming) maxDepth seed done s)
 (hfew:p.FewFound incoming seed maxDepth limit) :
 (p.hierarchyOf s.visited.tail).length < limit := by
 obtain ⟨rest,hh⟩:=h.start
 have hno:=h.nodup
 rw [←hh,singleton_append,map_cons,nodup_cons] at hno
 rw [←hh,singleton_append,tail_cons]
 have hi:=hfew ((p.hierarchyOf rest).map fun c=>c.node.id) ?_ ?_
 · rwa [length_map] at hi
 · rw [ids_hierarchyOf]
   exact hno.2.filter _
 intro n hn
 rw [ids_hierarchyOf,mem_filter] at hn
 obtain ⟨x,hx,rfl⟩:=mem_map.mp hn.1
 obtain ⟨hb,hwa⟩:=h.walks x (hh ▸ mem_cons_of_mem _ hx)
 obtain ⟨d,hd,hdi⟩:=exists_isDist hwa
 refine ⟨d,hn.2,?_,hd.trans hb,hdi⟩
 -- at distance zero there is only the seed, which comes first
 by_contra hz
 have hse:d=0:=by omega
 rw [hse] at hdi
 exact hno.1 (walk_zero.mp hdi.walk ▸ hn.1)

section
variable (hdeg : p.DegreesWithin (max (limit*4) 16))
include hdeg

theorem edges_within (n : NodeId) :
 (if incoming then p.incomingEdges n (max (limit*4) 16)
  else p.outgoingEdges n (max (limit*4) 16)) =
  p.edges.filter fun e=>callEnd (!incoming) e=n := by
 cases incoming with
 | true => exact take_of_length_le (hdeg n).1
 | false => exact take_of_length_le (hdeg n).2

section
variable (hfew : p.FewFound incoming seed maxDepth limit)
include hfew

theorem expandCalls_view {x : NodeId × Nat} {rest : List (NodeId × Nat)}
 (h:Search.Searching (p.calls incoming) maxDepth seed done s) (hq:s.queue=x::rest) :
 p.expandCalls incoming maxDepth limit x (p.callView { s with queue := rest }) =
  p.callView (Search.expandBelow (p.calls incoming) maxDepth x { s with queue := rest }) := by
 obtain ⟨done',hn⟩:=Search.turn_expandBelow.searching h hq
 have hb:=length_hierarchyOf_lt h hfew
 have hsh:=length_hierarchyOf_lt hn hfew
 by_cases hde : maxDepth ≤ x.2
 · rw [expandCalls,if_pos (.inl hde),Search.expandBelow,if_pos hde]
 rw [Search.expandBelow,if_neg hde] at hsh ⊢
 have hgo:¬(maxDepth ≤ x.2 ∨ limit ≤ (p.callView { s with queue:=rest }).out.length) :=
  not_or.mpr ⟨hde,Nat.not_le.mpr hb⟩
 have hne:s.visited≠[]:=by
  obtain ⟨more,hmo⟩:=h.start
  simp [←hmo]
 rw [expandCalls,if_neg hgo]
 dsimp only
 rw [edges_within hdeg]
 exact visitCalls_view _ hne hsh

theorem callHierarchyDirection_view (fuel : Nat) :
 drain CallSearch.pop (p.expandCalls incoming maxDepth limit) fuel ⟨[seed],[(seed,0)],[]⟩ =
  p.callView (drain Search.pop (Search.expandBelow (p.calls incoming) maxDepth) fuel
   (Search.start seed)) := by
 refine ((drain_related (fun s c=>
  (∃done,Search.Searching (p.calls incoming) maxDepth seed done s) ∧ c=p.callView s)
  (fun _=>False) ?_ ?_ (fun _=>False.elim) fuel
  ⟨⟨_,Search.searching_start _ _ _⟩,rfl⟩).resolve_right id).2
 · rintro s c ⟨-,rfl⟩ hp
   rw [Search.pop_eq_none] at hp
   simp [CallSearch.pop,callView,hp]
 · rintro s c x s' ⟨⟨done,hs⟩,rfl⟩ hp
   obtain ⟨rest,hq,rfl⟩:=Search.pop_eq_some.mp hp
   refine ⟨x,p.callView { s with queue := rest },?_,.inl
    ⟨Search.turn_expandBelow.searching hs hq,expandCalls_view hdeg hfew hs hq⟩⟩
   simp [CallSearch.pop,callView,hq]

theorem callHierarchyDirection_eq :
 ∃met,p.callHierarchyDirection seed incoming maxDepth limit=p.hierarchyOf met ∧
  (met.map Prod.fst).Nodup ∧ met.Pairwise (fun x y=>x.2 ≤ y.2) ∧
  ∀n d,(n,d)∈met ↔ 1 ≤ d ∧ d ≤ maxDepth ∧ IsDist (p.calls incoming) seed n d := by
 have hca:∀b,∀c∈p.calls incoming b,c∈seed::p.edges.map (callEnd incoming):=by
  intro b c hc
  obtain ⟨e,he,rfl⟩:=mem_map.mp hc
  exact mem_cons_of_mem _ (mem_map_of_mem (mem_of_mem_filter (mem_of_mem_filter he)))
 obtain ⟨done,h,hen⟩:=Search.drain_searching
  (@Search.turn_expandBelow _ (p.calls incoming) maxDepth seed _) hca mem_cons_self
  (show _ ≤ p.edges.length+1 by simp)
 have hvi:=callHierarchyDirection_view hdeg hfew (p.edges.length+1)
 generalize drain Search.pop _ _ (Search.start seed)=s at h hen hvi
 have hal:=fun n d=>h.complete (b := n) (d := d) hen
 obtain ⟨met,hmet⟩:=h.start
 have hn:=h.nodup
 have hso:=h.ordered
 rw [←hmet] at hn hso
 refine ⟨met,?_,(nodup_cons.mp hn).2,(pairwise_cons.mp hso).2,fun n d=>?_⟩
 · rw [callHierarchyDirection,hvi,callView,←hmet]
   rfl
 have hv:(n,d)∈s.visited ↔ d ≤ maxDepth ∧ IsDist (p.calls incoming) seed n d:=
  hal n d
 rw [←hmet,singleton_append,mem_cons] at hv
 constructor
 · intro hme
   obtain ⟨hd,hdi⟩:=hv.mp (.inr hme)
   refine ⟨?_,hd,hdi⟩
   by_contra hnea
   have hnone:d=0:=by omega
   rw [hnone] at hdi
   exact (nodup_cons.mp hn).1
    (mem_map.mpr ⟨(n,d),hme,walk_zero.mp hdi.walk⟩)
 · rintro ⟨hp,hd,hdi⟩
   rcases hv.mpr ⟨hd,hdi⟩ with hse|hme
   · cases hse
     omega
   · exact hme

end

end

/-- The result lists the known nodes at their distances, each once, the nearer ones first. -/
structure ExactSearch (p : HydratedGraphProjection) (incoming : Bool) (seed : NodeId)
 (maxDepth : Nat) (result : List CallHierarchyNode) : Prop where
 known : ∀ c ∈ result,p.nodeFromProjection c.node.id = some c.node
 distances : ∀ n d,(n,d) ∈ hierarchyPairs result ↔ p.Found incoming seed maxDepth n d
 once : (result.map fun c => c.node.id).Nodup
 sorted : result.Pairwise fun c c' => c.callDepth ≤ c'.callDepth
 seed : ∀ c ∈ result,c.node.id≠seed

theorem mem_hierarchyOf {c : CallHierarchyNode} :
 c∈p.hierarchyOf met ↔ (c.node.id,c.callDepth)∈met ∧
  p.nodeFromProjection c.node.id=some c.node := by
 simp only [hierarchyOf,mem_filterMap,Option.map_eq_some_iff]
 constructor
 · rintro ⟨x,hx,n,hn,rfl⟩
   have hid:=nodeFromProjection_id hn
   rw [hid]
   exact ⟨hx,hn⟩
 · rintro ⟨hme,hno⟩
   exact ⟨_,hme,c.node,hno,rfl⟩

theorem exactSearch (hdeg:p.DegreesWithin (max (limit*4) 16))
 (hfew:p.FewFound incoming seed maxDepth limit) :
 ExactSearch p incoming seed maxDepth (p.callHierarchyDirection seed incoming maxDepth limit) := by
 obtain ⟨met,heq,hn,hso,hmet⟩:=callHierarchyDirection_eq hdeg hfew
 rw [heq]
 refine ⟨fun c hc=>(mem_hierarchyOf.mp hc).2,fun n d=>?_,?_,?_,fun c hc=>?_⟩
 · simp only [hierarchyPairs,mem_map,Prod.mk.injEq,Found,←hmet]
   constructor
   · rintro ⟨c,hc,rfl,rfl⟩
     obtain ⟨hme,hno⟩:=mem_hierarchyOf.mp hc
     exact ⟨by rw [hno]; rfl,hme⟩
   · rintro ⟨hk,hme⟩
     obtain ⟨g,hg⟩:=Option.isSome_iff_exists.mp hk
     have hid:=nodeFromProjection_id hg
     exact ⟨⟨g,d⟩,mem_hierarchyOf.mpr ⟨by rw [hid]; exact hme,by rw [hid]; exact hg⟩,hid,rfl⟩
 · rw [ids_hierarchyOf]
   exact hn.filter _
 · refine List.Pairwise.filterMap _ ?_ hso
   intro x y hle c hc c' hc'
   obtain ⟨n,-,rfl⟩:=Option.map_eq_some_iff.mp hc
   obtain ⟨n',-,rfl⟩:=Option.map_eq_some_iff.mp hc'
   exact hle
 · intro hse
   have hme:=(hmet _ _).mp (mem_hierarchyOf.mp hc).1
   have hnea:=hme.2.2.least 0 (walk_zero.mpr hse)
   omega

/-- Callers and callees are found by exact breadth-first search. -/
theorem callSearches_exact (p : HydratedGraphProjection) (hdeg : p.DegreesWithin 4000)
 (seed : NodeId) (maxDepth : Nat) :
 (p.FewFound true seed maxDepth 1000 →
  ExactSearch p true seed maxDepth (p.findCallers p.workspaceId seed maxDepth)) ∧
 (p.FewFound false seed maxDepth 1000 →
  ExactSearch p false seed maxDepth (p.findCallees p.workspaceId seed maxDepth)) := by
 constructor
 · intro hfew
   rw [findCallers,if_neg (not_not.mpr rfl)]
   exact exactSearch hdeg hfew
 · intro hfew
   rw [findCallees,if_neg (not_not.mpr rfl)]
   exact exactSearch hdeg hfew

theorem fewFound_of_edges (h:p.edges.length < limit) :
 p.FewFound incoming seed maxDepth limit := by
 intro l hno hf
 have hsu:l ⊆ p.edges.map (callEnd incoming):=by
  intro n hn
  obtain ⟨d,-,hp,-,hdi⟩:=hf n hn
  obtain ⟨k,rfl⟩ : ∃k,d=k+1 := ⟨d-1,by omega⟩
  obtain ⟨m,-,hm⟩:=walk_succ.mp hdi.walk
  obtain ⟨e,he,rfl⟩:=mem_map.mp hm
  exact mem_map.mpr ⟨e,mem_of_mem_filter (mem_of_mem_filter he),rfl⟩
 have hle:=(subperm_of_subset hno hsu).length_le
 rw [length_map] at hle
 omega

theorem callSearches_exact_one_call :
 (hydrate oneCall 1).DegreesWithin 4000 ∧ ExactSearch (hydrate oneCall 1) true (.symbol 2) 3
  ((hydrate oneCall 1).findCallers 1 (.symbol 2) 3) := by
 have hl:(hydrate oneCall 1).edges.length < 1000:=by decide
 have hdeg:(hydrate oneCall 1).DegreesWithin 4000:=by
  intro n
  constructor
  · refine le_trans (length_filter_le _ _) ?_
    omega
  · refine le_trans (length_filter_le _ _) ?_
    omega
 exact ⟨hdeg,(callSearches_exact _ hdeg (.symbol 2) 3).1 (fewFound_of_edges hl)⟩

end DhKit.Graphs.HydratedGraphProjection
