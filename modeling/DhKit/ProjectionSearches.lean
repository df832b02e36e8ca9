import DhKit.GraphServices
import DhKit.StoredPaths

/-!
# Paths and nearest nodes of the projection

The path search carries the edges that lead to a node with the node in its queue.
-/
namespace DhKit.Graphs.HydratedGraphProjection
open BreadthFirst List

structure PathSearch where
 visited : List NodeId
 queue : List (NodeId × List GraphEdge × Nat)
 found : Option (List GraphEdge)

/-- Finding the end returns from the loop. -/
def PathSearch.pop (s : PathSearch) : Option ((NodeId × List GraphEdge × Nat) × PathSearch) :=
 match s.found,s.queue with
 | none,x::rest => some (x,{ s with queue := rest })
 | _,_ => none

def extendPath (stop : NodeId) (path : List GraphEdge) (depth : Nat) :
 List GraphEdge → PathSearch → PathSearch
 | [],s => s
 | edge::rest,s =>
  let next := edge.toNode
  if next ∈ s.visited then extendPath stop path depth rest s
  else
   let visited := s.visited++[next]
   let nextPath := path++[edge]
   if next = stop then { s with visited := visited,found := some nextPath }
   else extendPath stop path depth rest
    { s with visited := visited,queue := s.queue++[(next,nextPath,depth+1)] }

section
variable (p : HydratedGraphProjection)

def expandPath (stop : NodeId) (maxHops : Nat)
 (x : NodeId × List GraphEdge × Nat) (s : PathSearch) : PathSearch :=
 if maxHops ≤ x.2.2 then s else extendPath stop x.2.1 x.2.2 (p.outgoingEdges x.1 1024) s

def shortestPath (workspaceId : Int) (start stop : NodeId)
 (maxHops : Nat) : Option GraphPath :=
 if workspaceId≠p.workspaceId then none
 else if start = stop then some ⟨start,stop,[],false⟩
 else (drain PathSearch.pop (p.expandPath stop maxHops) (p.edges.length+1)
  ⟨[start],[(start,[],0)],none⟩).found.map fun edges => ⟨start,stop,edges,false⟩

def allowedSuccessors (filter : Option (List String)) (n : NodeId) :
 List NodeId :=
 (p.edges.filter fun e => e.fromNode = n ∧ edgeKindAllowed e.kind filter).map GraphEdge.toNode

/-- The edges lead from `a` to `b`, each leaving the node the one before entered. -/
def Linked (a : NodeId) : List GraphEdge → NodeId → Prop
 | [],b => a = b
 | e::es,b => e.fromNode = a ∧ Linked e.toNode es b

structure EdgePath (a : NodeId) (es : List GraphEdge) (b : NodeId) :
 Prop where
 edges : ∀ e ∈ es,e ∈ p.edges
 linked : Linked a es b

end

def pathNodes (a : NodeId) (es : List GraphEdge) : List NodeId := a::es.map GraphEdge.toNode

variable {p : HydratedGraphProjection} {start stop : NodeId} {maxHops : Nat}
 {a b n : NodeId} {es path : List GraphEdge} {e : GraphEdge} {met : List NodeId}
  {s : Search NodeId} {t : PathSearch}

theorem linked_concat :
 Linked a (es++[e]) b ↔ Linked a es e.fromNode ∧ e.toNode=b := by
 induction es generalizing a with
 | nil => simp [Linked,eq_comm]
 | cons e' es ih => simp [Linked,ih,and_assoc]

theorem edgePath_concat :
 p.EdgePath a (es++[e]) b ↔ p.EdgePath a es e.fromNode ∧ e∈p.edges ∧ e.toNode=b := by
 constructor
 · rintro ⟨hed,hl⟩
   obtain ⟨hes,hto⟩:=linked_concat.mp hl
   exact ⟨⟨fun e' he'=>hed e' (mem_append_left _ he'),hes⟩,hed e (by simp),hto⟩
 · rintro ⟨⟨hed,hes⟩,he,hto⟩
   refine ⟨fun e' he'=>?_,linked_concat.mpr ⟨hes,hto⟩⟩
   rcases mem_append.mp he' with he'|he'
   · exact hed e' he'
   · rwa [mem_singleton.mp he']

theorem mem_allowedSuccessors :
 b∈p.allowedSuccessors none a ↔ ∃e∈p.edges,e.fromNode=a ∧ e.toNode=b := by
 simp [allowedSuccessors,edgeKindAllowed,and_assoc]

theorem walk_iff_edgePath {n : Nat} :
 Walk (p.allowedSuccessors none) n a b ↔ ∃es,p.EdgePath a es b ∧ es.length=n := by
 induction n generalizing b with
 | zero =>
  simp only [walk_zero,length_eq_zero_iff,exists_eq_right]
  exact ⟨fun h=>⟨by simp,h.symm⟩,fun h=>h.linked.symm⟩
 | succ n ih =>
  simp only [walk_succ,ih,mem_allowedSuccessors]
  constructor
  · rintro ⟨c,⟨es,hes,rfl⟩,e,he,rfl,rfl⟩
    exact ⟨es++[e],edgePath_concat.mpr ⟨hes,he,rfl⟩,by simp⟩
  · rintro ⟨es,hes,hl⟩
    rcases eq_nil_or_concat' es with rfl|⟨es,e,rfl⟩
    · simp at hl
    obtain ⟨hp,he,hto⟩:=edgePath_concat.mp hes
    exact ⟨e.fromNode,⟨es,hp,by simpa using hl⟩,e,he,rfl,hto⟩

/-- `path` leads to `n` through nodes that have been met. -/
structure Leads (p : HydratedGraphProjection) (start : NodeId) (met : List NodeId) (n : NodeId)
 (path : List GraphEdge) : Prop where
 edgePath : p.EdgePath start path n
 nodup : (pathNodes start path).Nodup
 met : pathNodes start path ⊆ met

theorem Leads.mono {met' : List NodeId}
 (h:p.Leads start met n path) (hsu:met ⊆ met') : p.Leads start met' n path :=
 ⟨h.edgePath,h.nodup,fun _ hx=>hsu (h.met hx)⟩

theorem Leads.concat (h:p.Leads start met e.fromNode path) (he:e∈p.edges) (hnew:e.toNode ∉ met) :
 p.Leads start (met++[e.toNode]) e.toNode (path++[e]) := by
 have hn:pathNodes start (path++[e])=pathNodes start path++[e.toNode]:=by
  simp [pathNodes]
 refine ⟨edgePath_concat.mpr ⟨h.edgePath,he,rfl⟩,?_,?_⟩
 · rw [hn,nodup_append]
   refine ⟨h.nodup,nodup_singleton _,fun x hx y hy hxy=>?_⟩
   rw [mem_singleton.mp hy] at hxy
   exact hnew (hxy ▸ h.met hx)
 · rw [hn]
   exact append_subset.mpr ⟨subset_append_of_subset_left _ h.met,subset_append_right _ _⟩

/-- The path search shows a plain search that has not met the end. -/
structure Shows (p : HydratedGraphProjection) (start stop : NodeId) (s : Search NodeId)
 (t : PathSearch) : Prop where
 found : t.found = none
 visited : t.visited = s.visited.map Prod.fst
 queue : t.queue.map (fun x => (x.1,x.2.2)) = s.queue
 paths : ∀ x ∈ t.queue,p.Leads start t.visited x.1 x.2.1 ∧ x.2.1.length = x.2.2
 away : stop ∉ t.visited

theorem extendPath_cases {l : List GraphEdge} (hl:∀e∈l,e∈p.edges ∧ e.fromNode=n)
 (hp:p.Leads start t.visited n path) (h:p.Shows start stop s t) :
 p.Shows start stop ((l.map GraphEdge.toNode).foldl (Search.discover (path.length+1)) s)
  (extendPath stop path path.length l t) ∨
 ∃e∈l,(extendPath stop path path.length l t).found=some (path++[e]) ∧
  ∃met,p.Leads start met stop (path++[e]) := by
 induction l generalizing s t with
 | nil => exact .inl h
 | cons e l ih =>
  obtain ⟨he,hfrom⟩:=hl e mem_cons_self
  have hl':∀e∈l,e∈p.edges ∧ e.fromNode=n:=fun e' he'=>hl e' (mem_cons_of_mem _ he')
  rw [map_cons,foldl_cons,extendPath]
  by_cases hse : e.toNode∈t.visited
  · have hsa:s.discover (path.length+1) e.toNode=s:=if_pos (h.visited ▸ hse)
    rw [hsa,if_pos hse]
    exact (ih hl' hp h).imp_right fun ⟨e',he',hf⟩=>⟨e',mem_cons_of_mem _ he',hf⟩
  have hn:s.discover (path.length+1) e.toNode =
   ⟨s.visited++[(e.toNode,path.length+1)],s.queue++[(e.toNode,path.length+1)]⟩ :=
   if_neg (h.visited ▸ hse)
  have hle:=(hfrom ▸ hp).concat he hse
  rw [hn,if_neg hse]
  by_cases hst : e.toNode=stop
  · rw [if_pos hst]
    exact .inr ⟨e,mem_cons_self,rfl,_,hst ▸ hle⟩
  rw [if_neg hst]
  refine (ih hl' (hp.mono (subset_append_left _ _)) ?_).imp_right
   fun ⟨e',he',hf⟩=>⟨e',mem_cons_of_mem _ he',hf⟩
  refine ⟨h.found,by simp [h.visited],by simp [h.queue],fun x hx=>?_,?_⟩
  · rcases mem_append.mp hx with hx|hx
    · obtain ⟨hlea,hlen⟩:=h.paths x hx
      exact ⟨hlea.mono (subset_append_left _ _),hlen⟩
    · rw [mem_singleton.mp hx]
      exact ⟨hle,by simp⟩
  · rw [mem_append,mem_singleton,not_or]
    exact ⟨h.away,Ne.symm hst⟩

structure FoundPath (p : HydratedGraphProjection) (start stop : NodeId) (maxHops : Nat)
 (es : List GraphEdge) : Prop where
 edgePath : p.EdgePath start es stop
 nodup : (pathNodes start es).Nodup
 bounded : es.length ≤ maxHops
 least : ∀ n,Walk (p.allowedSuccessors none) n start stop → es.length ≤ n

theorem outgoingEdges_eq {bound : Nat}
 (hdeg:∀n,(p.edges.filter fun e=>e.fromNode=n).length ≤ bound) (n : NodeId) :
 p.outgoingEdges n bound=p.edges.filter fun e=>e.fromNode=n :=
 take_of_length_le (hdeg n)

theorem expandPath_cases (hdeg:∀n,(p.edges.filter fun e=>e.fromNode=n).length ≤ 1024)
 {done : List (NodeId × Nat)}
 {x : NodeId × List GraphEdge × Nat} {rest : List (NodeId × List GraphEdge × Nat)}
 (hs:Search.Searching (p.allowedSuccessors none) maxHops start done s)
 (h:p.Shows start stop s t) (hq:t.queue=x::rest) :
 p.Shows start stop (Search.expand (p.allowedSuccessors none) maxHops (x.1,x.2.2)
   { s with queue := rest.map fun x=>(x.1,x.2.2) })
  (p.expandPath stop maxHops x { t with queue := rest }) ∨
 ∃es,(p.expandPath stop maxHops x { t with queue := rest }).found=some es ∧
  p.FoundPath start stop maxHops es := by
 have hp:p.Shows start stop { s with queue:=rest.map fun x=>(x.1,x.2.2) }
  { t with queue := rest } :=
  ⟨h.found,h.visited,rfl,fun y hy=>h.paths y (hq ▸ mem_cons_of_mem _ hy),h.away⟩
 obtain ⟨hlea,hlen⟩:=h.paths x (hq ▸ mem_cons_self)
 have hqu:s.queue=(x.1,x.2.2)::rest.map fun x=>(x.1,x.2.2):=by
  rw [←h.queue,hq,map_cons]
 unfold expandPath Search.expand
 by_cases hb : maxHops ≤ x.2.2
 · rw [if_pos hb,if_pos hb]
   exact .inl hp
 rw [if_neg hb,if_neg hb,outgoingEdges_eq hdeg]
 have hl:∀e∈p.edges.filter (fun e=>e.fromNode=x.1),e∈p.edges ∧ e.fromNode=x.1:=by
  simp
 have hnex:p.allowedSuccessors none x.1 =
  (p.edges.filter fun e=>e.fromNode=x.1).map GraphEdge.toNode := by
  simp [allowedSuccessors,edgeKindAllowed]
 rw [hnex,←hlen]
 refine (extendPath_cases (t := { t with queue := rest }) hl hlea hp).imp_right ?_
 rintro ⟨e,-,hf,met,hle⟩
 refine ⟨_,hf,hle.edgePath,hle.nodup,?_,fun n hn=>?_⟩
 · rw [length_append,length_singleton]
   omega
 · -- the nodes up to the depth of `x` have been met, the end has not
   rw [length_append,length_singleton]
   by_contra hlt
   have hso:=(pairwise_cons.mp (hqu ▸ hs.sorted)).1
   have hde:∀y∈s.queue,x.2.2 ≤ y.2:=by
    rw [hqu]
    intro y hy
    rcases mem_cons.mp hy with rfl|hy
    · exact le_rfl
    · exact hso y hy
   obtain ⟨d,-,hme⟩:=hs.met (by omega) hde (by omega) hn
   exact h.away (h.visited ▸ mem_map_of_mem hme)

theorem pop_eq_none (h:t.found.isSome ∨ t.queue=[]) : t.pop=none := by
 unfold PathSearch.pop
 split
 · next hnone hco => simp [hnone,hco] at h
 · rfl

def Follows (p : HydratedGraphProjection) (start stop : NodeId) (maxHops : Nat)
 (s : Search NodeId) (t : PathSearch) : Prop :=
 (∃ done,Search.Searching (p.allowedSuccessors none) maxHops start done s) ∧
  p.Shows start stop s t

section
variable (hdeg : ∀ n,(p.edges.filter fun e => e.fromNode = n).length ≤ 1024)
include hdeg

theorem Follows.step {s' : Search NodeId} {x : NodeId × Nat}
 (h:p.Follows start stop maxHops s t) (hp:s.pop=some (x,s')) :
 ∃y t',t.pop=some (y,t') ∧
  (p.Follows start stop maxHops (Search.expand (p.allowedSuccessors none) maxHops x s')
   (p.expandPath stop maxHops y t') ∨
  ∃es,(p.expandPath stop maxHops y t').found=some es ∧
   p.FoundPath start stop maxHops es) := by
 obtain ⟨⟨done,hs⟩,h⟩:=h
 obtain ⟨rest,hqu,rfl⟩:=Search.pop_eq_some.mp hp
 obtain ⟨y,ys,hy,rfl,rfl⟩:=map_eq_cons_iff.mp (h.queue.trans hqu)
 refine ⟨y,{ t with queue := ys },by simp [PathSearch.pop,h.found,hy],?_⟩
 exact (expandPath_cases hdeg hs h hy).imp_left fun h'=>⟨⟨_,hs.pop hqu⟩,h'⟩

theorem drain_paths (hne:start≠stop) :
 (∃es,(drain PathSearch.pop (p.expandPath stop maxHops) (p.edges.length+1)
  ⟨[start],[(start,[],0)],none⟩).found=some es ∧ p.FoundPath start stop maxHops es) ∨
 ((drain PathSearch.pop (p.expandPath stop maxHops) (p.edges.length+1)
  ⟨[start],[(start,[],0)],none⟩).found=none ∧
  ∀n,n ≤ maxHops → ¬Walk (p.allowedSuccessors none) n start stop) := by
 have hst:p.Shows start stop (Search.start start) ⟨[start],[(start,[],0)],none⟩:=by
  refine ⟨rfl,rfl,rfl,fun x hx=>?_,by simpa using hne.symm⟩
  rw [mem_singleton.mp hx]
  exact ⟨⟨⟨by simp,rfl⟩,by simp [pathNodes],by simp [pathNodes]⟩,rfl⟩
 have hal:∀b,∀c∈p.allowedSuccessors none b,c∈start::p.edges.map GraphEdge.toNode:=by
  intro b c hc
  obtain ⟨e,he,-,rfl⟩:=mem_allowedSuccessors.mp hc
  exact mem_cons_of_mem _ (mem_map_of_mem he)
 obtain ⟨done,hs,hq⟩ : ∃done,
  Search.Searching (p.allowedSuccessors none) maxHops start done _ ∧ _ :=
  Search.drain_searching Search.turn_expand hal mem_cons_self
   (show _ ≤ p.edges.length+1 by simp)
 have hnone:∀s t,p.Follows start stop maxHops s t → s.pop=none → t.pop=none:=by
  rintro s t ⟨-,h⟩ hp
  refine pop_eq_none (.inr ?_)
  have hqu:=h.queue
  rw [Search.pop_eq_none.mp hp] at hqu
  exact map_eq_nil_iff.mp hqu
 have hsto:∀t : PathSearch,(∃es,t.found=some es ∧ p.FoundPath start stop maxHops es) →
  t.pop=none := by
  rintro t ⟨es,hes,-⟩
  exact pop_eq_none (.inl (by rw [hes]; rfl))
 rcases drain_related (p.Follows start stop maxHops) _ hnone (fun s t x s'=>Follows.step hdeg)
  hsto (p.edges.length+1) ⟨⟨[],Search.searching_start _ _ _⟩,hst⟩ with hsh | hf
 · refine .inr ⟨hsh.2.found,fun n hn hw=>hsh.2.away ?_⟩
   obtain ⟨d,-,hme⟩:=hs.met le_rfl (by simp [hq]) hn hw
   rw [hsh.2.visited]
   exact mem_map_of_mem hme
 · exact .inl hf

end

/-- Paths within the bound are found, and the one returned is a shortest one. -/
theorem shortestPath_least (p : HydratedGraphProjection)
 (hdeg : ∀ n,(p.edges.filter fun e => e.fromNode = n).length ≤ 1024) (start stop : NodeId)
 (maxHops : Nat) :
 ((p.shortestPath p.workspaceId start stop maxHops).isSome ↔
  ∃ es,p.EdgePath start es stop ∧ es.length ≤ maxHops) ∧
 ∀ path,p.shortestPath p.workspaceId start stop maxHops = some path →
  path.start = start ∧ path.stop = stop ∧ p.EdgePath start path.edges stop ∧
  (pathNodes start path.edges).Nodup ∧
  ∀ es,p.EdgePath start es stop → path.edges.length ≤ es.length := by
 rw [shortestPath,if_neg (not_not.mpr rfl)]
 by_cases hne : start=stop
 · rw [if_pos hne]
   refine ⟨⟨fun _=>⟨[],⟨by simp,hne⟩,Nat.zero_le _⟩,fun _=>rfl⟩,?_⟩
   rintro path ⟨⟩
   exact ⟨rfl,rfl,⟨by simp,hne⟩,by simp [pathNodes],by simp⟩
 rw [if_neg hne]
 rcases @drain_paths p start stop maxHops hdeg hne with ⟨es,hes,hf⟩|⟨hnone,hfa⟩
 · rw [hes]
   refine ⟨⟨fun _=>⟨es,hf.edgePath,hf.bounded⟩,fun _=>rfl⟩,?_⟩
   rintro path ⟨⟩
   exact ⟨rfl,rfl,hf.edgePath,hf.nodup,
    fun es' hes'=>hf.least _ (walk_iff_edgePath.mpr ⟨es',hes',rfl⟩)⟩
 · rw [hnone]
   refine ⟨⟨by simp,fun ⟨es,hes,hl⟩=>?_⟩,by simp⟩
   exact absurd (walk_iff_edgePath.mpr ⟨es,hes,rfl⟩) (hfa _ hl)

theorem edges_few (n : NodeId) :
 ((hydrate oneCall 1).edges.filter fun e=>e.fromNode=n).length ≤ 5 :=
 (length_filter_le _ _).trans (by decide)

theorem shortestPath_least_call :
 ((hydrate oneCall 1).shortestPath 1 (.symbol 1) (.symbol 2) 1).isSome :=
 (shortestPath_least (hydrate oneCall 1) (fun n=>(edges_few n).trans (by decide)) (.symbol 1)
  (.symbol 2) 1).1.mpr
  ⟨[⟨.calls,.symbol 1,.symbol 2,.resolved,.direct,none,"call",none⟩],
   ⟨by decide,rfl,rfl⟩,le_rfl⟩

/-- The list shows distances along `next`; a bound on its length cuts off the farthest nodes. -/
structure NearestFirst (next : NodeId → List NodeId) (seed : NodeId) (maxHops nodeLimit : Nat)
 (listed : List (NodeId × Nat)) : Prop where
 sorted : listed.Pairwise fun x y => x.2 ≤ y.2
 once : (listed.map Prod.fst).Nodup
 bounded : listed.length ≤ max nodeLimit 1
 start : (seed,0) ∈ listed
 distances : ∀ x ∈ listed,x.2 ≤ maxHops ∧ IsDist next seed x.1 x.2
 complete : listed.length < nodeLimit →
  ∀ n d,IsDist next seed n d → d ≤ maxHops → (n,d) ∈ listed
 nearest : 1 ≤ nodeLimit → ∀ n d,IsDist next seed n d → n ∉ listed.map Prod.fst →
  ∀ x ∈ listed,x.2 ≤ d

theorem weightedNeighborhood_nearestFirst (p : HydratedGraphProjection)
 (hdeg : ∀ n,(p.edges.filter fun e => e.fromNode = n).length ≤ 256) (seed : NodeId)
 (maxHops nodeLimit : Nat) (filter : Option (List String)) :
 NearestFirst (p.allowedSuccessors filter) seed maxHops nodeLimit
  (p.weightedNeighborhood p.workspaceId seed maxHops nodeLimit filter) := by
 have hnex:p.allowedNodes filter=p.allowedSuccessors filter:=by
  funext n
  rw [allowedNodes,outgoingEdges_eq hdeg,filter_filter,allowedSuccessors]
  congr 1
  refine filter_congr fun e _=>?_
  rw [Bool.and_comm]
  simp
 obtain ⟨met,heq,hn,ho,hme⟩:=
  p.weightedNeighborhood_eq seed maxHops nodeLimit filter
 rw [hnex] at hme
 rw [heq]
 refine ⟨ho.sublist (take_sublist _ _),
  hn.sublist ((take_sublist _ _).map _),length_take_le _ _,?_,fun x hx=>?_,
  fun hsh n d hdi hd=>?_,fun hon n d hdi hou x hx=>?_⟩
 · rw [take_cons (by omega)]
   exact mem_cons_self
 · exact (hme x.1 x.2).mp (mem_of_mem_take hx)
 · rw [take_of_length_le]
   · exact (hme n d).mpr ⟨hd,hdi⟩
   · rw [length_take] at hsh
     omega
 by_cases hd : d ≤ maxHops
 · -- a node within reach that is left out comes after the listed ones
   have hr:=(hme n d).mpr ⟨hd,hdi⟩
   rw [←take_append_drop (max nodeLimit 1) ((seed,0)::met),mem_append] at hr
   rw [←take_append_drop (max nodeLimit 1) ((seed,0)::met),pairwise_append] at ho
   rcases hr with hin|hr
   · exact absurd (mem_map_of_mem hin) hou
   · exact ho.2.2 x hx _ hr
 · have hx':=((hme x.1 x.2).mp (mem_of_mem_take hx)).1
   omega

theorem weightedNeighborhood_nearestFirst_call :
 NearestFirst ((hydrate oneCall 1).allowedSuccessors none) (.file 10) 2 2
  ((hydrate oneCall 1).weightedNeighborhood 1 (.file 10) 2 2 none) :=
 weightedNeighborhood_nearestFirst (hydrate oneCall 1) (fun n=>(edges_few n).trans (by decide))
  (.file 10) 2 2 none

end DhKit.Graphs.HydratedGraphProjection
