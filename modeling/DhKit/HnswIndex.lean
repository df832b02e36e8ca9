import Mathlib.Algebra.Order.Ring.Rat
import Mathlib.Data.Finset.Card
import Mathlib.Data.List.Sort
import DhKit.SearchHeaps

/-!
# The nearest-neighbour index

`HnswIndex` keeps the embeddings of one model as nodes of a layered graph and answers a query by a
greedy search through it.
-/
namespace DhKit.Embeddings
open BinaryHeaps SearchHeaps List

abbrev Vector := List Rat

structure HnswConfig where
 m : Nat := 16
 efConstruction : Nat := 200
 efSearch : Nat := 50

structure HnswNode where
 chunkId : String
 vector : Vector
 /-- The neighbours of the node in each of its layers. -/
 neighbors : List (List Nat)

structure HnswIndex where
 nodes : List HnswNode := []
 entryPointId : Option Nat := none
 maxLayer : Nat := 0
 config : HnswConfig := {}

namespace HnswIndex

section
variable (similarity : Vector → Vector → Rat) (index : HnswIndex)

def distance (a b : Vector) : Rat := 1-similarity a b

structure Frontier where
 visited : List Nat
 candidates : Array (HeapItem Rat)
 results : Array (HeapItem Rat)

def visit (query : Vector) (ef : Nat) (frontier : Frontier) (neighborId : Nat) : Frontier :=
 if neighborId ∈ frontier.visited then frontier
 else
  let visited := neighborId::frontier.visited
  match index.nodes[neighborId]? with
  | none => { frontier with visited }
  | some node =>
   let item : HeapItem Rat := ⟨neighborId,distance similarity query node.vector⟩
   if frontier.results.size < ef ∨ (MaxHeap.peek frontier.results).any (item.dist < ·.dist) then
    let results := MaxHeap.push frontier.results item
    { visited
      candidates := MinHeap.push frontier.candidates item
      results := if ef < results.size then (MaxHeap.pop results).2 else results }
   else { frontier with visited }

/-- The rounds of `_searchLayer`. Each round takes a node out of the candidates for good, so the
number of nodes bounds the rounds. -/
def searchRounds (query : Vector) (ef layer : Nat) : Nat → Frontier → Frontier
 | 0,frontier => frontier
 | rounds+1,frontier =>
  match MinHeap.pop frontier.candidates with
  | (none,_) => frontier
  | (some current,candidates) =>
   if ef ≤ frontier.results.size ∧
    (MaxHeap.peek frontier.results).any (·.dist < current.dist) then frontier
   else
    let neighborIds := (index.nodes[current.id]?.bind (·.neighbors[layer]?)).getD []
    searchRounds query ef layer rounds
     (neighborIds.foldl (visit similarity index query ef) { frontier with candidates })

def searchLayer (query : Vector) (entryId ef layer : Nat) : List (HeapItem Rat) :=
 match index.nodes[entryId]? with
 | none => []
 | some node =>
  let item : HeapItem Rat := ⟨entryId,distance similarity query node.vector⟩
  (searchRounds similarity index query ef layer index.nodes.length
   ⟨[entryId],#[item],#[item]⟩).results.toList.insertionSort fun a b => a.dist ≤ b.dist

/-- The greedy descent through the `layers` above `floor`, from the top. -/
def descend (query : Vector) (floor : Nat) : Nat → Nat → Nat
 | 0,entry => entry
 | layers+1,entry =>
  let closest := searchLayer similarity index query entry 1 (floor+layers+1)
  descend query floor layers ((closest.head?.map HeapItem.id).getD entry)

structure SearchHit where
 chunkId : String
 similarity : Rat

/-- None when a found item has no node, where the code throws. -/
def search (query : Vector) (k : Nat) : Option (List SearchHit) :=
 match index.entryPointId with
 | none => some []
 | some entry =>
  let entry := descend similarity index query 0 index.maxLayer entry
  let candidates := searchLayer similarity index query entry (max index.config.efSearch k) 0
  (candidates.take k).mapM fun item =>
   index.nodes[item.id]?.map fun node => ⟨node.chunkId,1-item.dist⟩

end

section
variable (similarity : Vector → Vector → Rat)

def pruneConnections (index : HnswIndex) (vector : Vector) (neighborIds : List Nat) : List Nat :=
 let scored := neighborIds.filterMap fun id =>
  index.nodes[id]?.map fun node => (⟨id,distance similarity vector node.vector⟩ : HeapItem Rat)
 ((scored.insertionSort fun a b => a.dist ≤ b.dist).take index.config.m).map HeapItem.id

def setNeighbors (index : HnswIndex) (id layer : Nat) (f : HnswNode → List Nat → List Nat) :
 HnswIndex :=
 { index with nodes := index.nodes.modify id fun node =>
    { node with neighbors := node.neighbors.modify layer (f node) } }

/-- The connection back from a neighbour, with the neighbours cut down when they are too many. -/
def connectBack (id layer : Nat) (index : HnswIndex) (neighbor : HeapItem Rat) : HnswIndex :=
 index.setNeighbors neighbor.id layer fun node ids =>
  let ids := ids++[id]
  if index.config.m*2 < ids.length then pruneConnections similarity index node.vector ids
  else ids

def insertAt (id : Nat) (vector : Vector) (state : HnswIndex × Nat) (layer : Nat) :
 HnswIndex × Nat :=
 let (index,entry) := state
 let candidates := searchLayer similarity index vector entry index.config.efConstruction layer
 let selected := candidates.take index.config.m
 let index := index.setNeighbors id layer fun _ _ => selected.map HeapItem.id
 (selected.foldl (connectBack similarity id layer) index,
  (candidates.head?.map HeapItem.id).getD entry)

def insertOne (index : HnswIndex) (nodeLayer : Nat) (chunkId : String) (vector : Vector) :
 HnswIndex :=
 if vector = [] then index
 else
  let id := index.nodes.length
  let grown := { index with
   nodes := index.nodes++[⟨chunkId,vector,List.replicate (nodeLayer+1) []⟩] }
  match index.entryPointId with
  | none => { grown with entryPointId := some id,maxLayer := nodeLayer }
  | some entry =>
   let entry := descend similarity grown vector nodeLayer (index.maxLayer-nodeLayer) entry
   let layers := (List.range (min nodeLayer index.maxLayer+1)).reverse
   let linked := (layers.foldl (insertAt similarity id vector) (grown,entry)).1
   if index.maxLayer < nodeLayer then
    { linked with maxLayer := nodeLayer,entryPointId := some id }
   else linked

end

section
variable {similarity : Vector → Vector → Rat}

def chunkIds (index : HnswIndex) : List String := index.nodes.map HnswNode.chunkId

theorem chunkIds_setNeighbors (index : HnswIndex) (id layer : Nat)
 (f : HnswNode → List Nat → List Nat) :
 (index.setNeighbors id layer f).chunkIds=index.chunkIds := by
 apply ext_getElem?
 intro i
 unfold chunkIds setNeighbors
 rw [getElem?_map,getElem?_map,getElem?_modify]
 cases index.nodes[i]? with
 | none => rfl
 | some node =>
  by_cases h : id=i
  · simp [h]
  · simp [h]

theorem chunkIds_connectBack (id layer : Nat) (index : HnswIndex) (items : List (HeapItem Rat)) :
 (items.foldl (connectBack similarity id layer) index).chunkIds=index.chunkIds := by
 induction items generalizing index with
 | nil => rfl
 | cons item items ih => rw [foldl_cons,ih,connectBack,chunkIds_setNeighbors]

theorem chunkIds_insertAt (id : Nat) (vector : Vector) (layers : List Nat)
 (state : HnswIndex × Nat) :
 (layers.foldl (insertAt similarity id vector) state).1.chunkIds=state.1.chunkIds := by
 induction layers generalizing state with
 | nil => rfl
 | cons layer layers ih =>
  rw [foldl_cons,ih,insertAt,chunkIds_connectBack,chunkIds_setNeighbors]

theorem chunkIds_insertOne (index : HnswIndex) (nodeLayer : Nat) (chunkId : String)
 (vector : Vector) :
 (insertOne similarity index nodeLayer chunkId vector).chunkIds =
  index.chunkIds++if vector=[] then [] else [chunkId] := by
 unfold insertOne
 by_cases hv : vector=[]
 · rw [if_pos hv,if_pos hv,append_nil]
 rw [if_neg hv,if_neg hv]
 cases index.entryPointId with
 | none => simp [chunkIds]
 | some entry =>
  have hl:=@chunkIds_insertAt similarity index.nodes.length vector
  by_cases hla : index.maxLayer < nodeLayer
  · simp only [hla]
    refine (hl _ _).trans ?_
    simp [chunkIds]
  · simp only [hla]
    refine (hl _ _).trans ?_
    simp [chunkIds]

end

section
variable {similarity : Vector → Vector → Rat} {index : HnswIndex} {query : Vector} {ef layer : Nat}
 {frontier : Frontier}

/-- The item stands for a node and has its distance from the query. -/
def Measured (similarity : Vector → Vector → Rat) (index : HnswIndex) (query : Vector)
 (item : HeapItem Rat) : Prop :=
 ∃ node,index.nodes[item.id]? = some node ∧ item.dist = distance similarity query node.vector

structure Frontier.Sound (similarity : Vector → Vector → Rat) (index : HnswIndex) (query : Vector)
 (frontier : Frontier) : Prop where
 measured : ∀ item ∈ frontier.results.toList,Measured similarity index query item
 visited : ∀ item ∈ frontier.results.toList,item.id ∈ frontier.visited
 nodup : (frontier.results.toList.map HeapItem.id).Nodup

theorem pop_subperm (data : Array (HeapItem Rat)) :
 (MaxHeap.pop data).2.toList <+~ data.toList := by
 cases hto : data[0]? with
 | none =>
  have hpo:MaxHeap.pop data=(none,data):=by simp [MaxHeap,heapOf,pop,hto]
  rw [hpo]
 | some top =>
  have hp:=(@pop_perm _ _ (OrderDual.toDual ∘ HeapItem.dist) _ _ _ hto).2
  exact (sublist_cons_self _ _).subperm.trans hp.symm.subperm

theorem Frontier.Sound.visit (h:frontier.Sound similarity index query) (neighborId : Nat) :
 (visit similarity index query ef frontier neighborId).Sound similarity index query := by
 unfold HnswIndex.visit
 by_cases hv : neighborId∈frontier.visited
 · rw [if_pos hv]
   exact h
 rw [if_neg hv]
 have hsa:Frontier.Sound similarity index query
  { frontier with visited:=neighborId::frontier.visited } :=
  ⟨h.measured,fun item hitem=>mem_cons_of_mem _ (h.visited item hitem),h.nodup⟩
 cases hn : index.nodes[neighborId]? with
 | none => exact hsa
 | some node =>
  -- the item is new: what is among the results was visited before
  let item : HeapItem Rat := ⟨neighborId,distance similarity query node.vector⟩
  have hgr:∀results : Array (HeapItem Rat),results.toList <+~ item::frontier.results.toList →
   ∀candidates,Frontier.Sound similarity index query
    ⟨neighborId::frontier.visited,candidates,results⟩ := by
   intro results hsu candidates
   refine ⟨fun found hf=>?_,fun found hf=>?_,?_⟩
   · rcases mem_cons.mp (hsu.subset hf) with rfl|hf
     · exact ⟨node,hn,rfl⟩
     · exact h.measured found hf
   · rcases mem_cons.mp (hsu.subset hf) with rfl|hf
     · exact mem_cons_self
     · exact mem_cons_of_mem _ (h.visited found hf)
   · obtain ⟨l,hp,hl⟩:=hsu
     refine (hp.map _).nodup_iff.mp (List.Nodup.sublist (hl.map _) ?_)
     rw [map_cons,nodup_cons]
     refine ⟨fun hme=>hv ?_,h.nodup⟩
     obtain ⟨found,hf,hid⟩:=mem_map.mp hme
     have hse:=h.visited found hf
     rwa [hid] at hse
  have hpu:(MaxHeap.push frontier.results item).toList <+~ item::frontier.results.toList:=
   (push_perm item).subperm
  dsimp only
  split
  · apply hgr
    split
    · exact (pop_subperm _).trans hpu
    · exact hpu
  · exact hsa

theorem Frontier.Sound.foldl_visit (h:frontier.Sound similarity index query) (ids : List Nat) :
 (ids.foldl (HnswIndex.visit similarity index query ef) frontier).Sound similarity index query := by
 induction ids generalizing frontier with
 | nil => exact h
 | cons id ids ih => exact ih (h.visit id)

theorem Frontier.Sound.searchRounds (h:frontier.Sound similarity index query) (rounds : Nat) :
 (searchRounds similarity index query ef layer rounds frontier).Sound similarity index query := by
 induction rounds generalizing frontier with
 | zero => exact h
 | succ rounds ih =>
  rw [HnswIndex.searchRounds]
  split
  · exact h
  split
  · exact h
  · apply ih
    apply Frontier.Sound.foldl_visit
    exact ⟨h.measured,h.visited,h.nodup⟩

theorem searchLayer_spec (entryId : Nat) :
 let found := searchLayer similarity index query entryId ef layer
 found.Pairwise (fun a b=>a.dist ≤ b.dist) ∧ (found.map HeapItem.id).Nodup ∧
  ∀item∈found,Measured similarity index query item := by
 unfold searchLayer
 cases hn : index.nodes[entryId]? with
 | none => exact ⟨.nil,nodup_nil,by simp⟩
 | some node =>
  have hst:Frontier.Sound similarity index query
   ⟨[entryId],#[⟨entryId,distance similarity query node.vector⟩],
    #[⟨entryId,distance similarity query node.vector⟩]⟩ :=
   ⟨by simpa using ⟨node,hn,rfl⟩,by simp,by simp⟩
  have hso:=@Frontier.Sound.searchRounds _ _ _ ef layer _ hst index.nodes.length
  refine ⟨pairwise_insertionSort _ _,((perm_insertionSort _ _).map _).nodup_iff.mpr hso.nodup,?_⟩
  intro item hitem
  exact hso.measured item ((perm_insertionSort _ _).mem_iff.mp hitem)

theorem mapM_eq_map {α β : Type} {f : α → Option β} {g : α → β} {l : List α}
 (h:∀a∈l,f a=some (g a)) : l.mapM f=some (l.map g) := by
 induction l with
 | nil => rfl
 | cons a l ih =>
  rw [mapM_cons,h a mem_cons_self,ih fun b hb=>h b (mem_cons_of_mem _ hb)]
  rfl

/-- A search finds at most `k` nodes, nearest first, and gives each with its similarity. -/
theorem search_eq (k : Nat) : ∃found : List (HeapItem Rat),found.length ≤ k ∧
 found.Pairwise (fun a b=>a.dist ≤ b.dist) ∧ (found.map HeapItem.id).Nodup ∧
 (∀item∈found,Measured similarity index query item) ∧
 search similarity index query k=some (found.map fun item=>
  ⟨(index.chunkIds[item.id]?).getD "",1-item.dist⟩) := by
 unfold search
 cases index.entryPointId with
 | none => exact ⟨[],by simp⟩
 | some entry =>
  dsimp only
  obtain ⟨hs,hno,hme⟩:=@searchLayer_spec similarity index query (max index.config.efSearch k) 0
   (descend similarity index query 0 index.maxLayer entry)
  generalize searchLayer similarity index query _ _ 0=all at hs hno hme ⊢
  have hsu:=take_sublist k all
  refine ⟨all.take k,length_take_le _ _,hs.sublist hsu,hno.sublist (hsu.map _),
   fun item hi=>hme item (hsu.subset hi),mapM_eq_map fun item hi=>?_⟩
  obtain ⟨node,hn,-⟩:=hme item (hsu.subset hi)
  simp [hn,chunkIds]

theorem nodup_search (h:index.chunkIds.Nodup) {k : Nat} {hits : List SearchHit}
 (hs:search similarity index query k=some hits) : (hits.map SearchHit.chunkId).Nodup := by
 obtain ⟨found,-,-,hno,hme,heq⟩:=@search_eq similarity index query k
 cases hs.symm.trans heq
 rw [map_map]
 refine Nodup.map_on ?_ hno.of_map
 intro a ha b hb hab
 obtain ⟨node,hn,-⟩:=hme a ha
 obtain ⟨node',hn',-⟩:=hme b hb
 have hc:index.chunkIds[a.id]?=index.chunkIds[b.id]?:=by
  simpa [chunkIds,hn,hn'] using hab
 have hlt:a.id < index.chunkIds.length:=by
  simpa [chunkIds] using (List.getElem?_eq_some_iff.mp hn).1
 exact inj_on_of_nodup_map hno ha hb ((getElem?_inj hlt h).mp hc)

def work (index : HnswIndex) (frontier : Frontier) : Nat :=
 frontier.candidates.size+(Finset.range index.nodes.length \ frontier.visited.toFinset).card

theorem work_visit (neighborId : Nat) :
 work index (visit similarity index query ef frontier neighborId) ≤ work index frontier := by
 unfold visit
 by_cases hv : neighborId∈frontier.visited
 · rw [if_pos hv]
 rw [if_neg hv]
 unfold work
 cases hn : index.nodes[neighborId]? with
 | none =>
  simp only [toFinset_cons,Finset.sdiff_insert]
  exact Nat.add_le_add_left Finset.card_erase_le _
 | some node =>
  have hlt:=(List.getElem?_eq_some_iff.mp hn).1
  have ho:=Finset.card_erase_lt_of_mem (s:=Finset.range index.nodes.length \
   frontier.visited.toFinset) (a:=neighborId) (by simp [hlt,hv])
  have hp:∀item,(MinHeap.push frontier.candidates item).size=frontier.candidates.size+1:=
   fun item=>(push_perm item).length_eq
  dsimp only
  split
  · simp only [toFinset_cons,Finset.sdiff_insert,hp]
    omega
  · simp only [toFinset_cons,Finset.sdiff_insert]
    omega

theorem work_foldl_visit (ids : List Nat) :
 work index (ids.foldl (visit similarity index query ef) frontier) ≤ work index frontier := by
 induction ids generalizing frontier with
 | nil => exact le_refl _
 | cons id ids ih => exact ih.trans (work_visit id)

theorem size_pop {data rest : Array (HeapItem Rat)} {top : HeapItem Rat}
 (h:MinHeap.pop data=(some top,rest)) : data.size=rest.size+1 := by
 have hto:data[0]?=some top:=by
  cases hd : data[0]? with
  | none => simp [MinHeap,heapOf,pop,hd] at h
  | some first =>
   have hf:=(@pop_perm _ _ HeapItem.dist _ _ _ hd).1
   change (MinHeap.pop data).1=_ at hf
   rw [h] at hf
   exact hf.symm
 have hl:=(@pop_perm _ _ HeapItem.dist _ _ _ hto).2.length_eq
 change data.size=(MinHeap.pop data).2.size+1 at hl
 rwa [h] at hl

theorem searchRounds_enough {rounds : Nat} (h:work index frontier ≤ rounds) (extra : Nat) :
 searchRounds similarity index query ef layer (rounds+extra) frontier =
  searchRounds similarity index query ef layer rounds frontier := by
 induction rounds generalizing frontier with
 | zero =>
  have hem:frontier.candidates = #[]:=Array.eq_empty_of_size_eq_zero (by
   unfold work at h
   omega)
  cases extra <;> simp [searchRounds,hem,MinHeap,heapOf,pop]
 | succ rounds ih =>
  rw [Nat.add_right_comm,searchRounds,searchRounds]
  split
  · rfl
  · next current candidates hpo =>
    split
    · rfl
    apply ih
    refine (work_foldl_visit _).trans ?_
    have hl:=size_pop hpo
    unfold work at h ⊢
    dsimp only
    omega

/-- The loop ends by itself within as many rounds as there are nodes. -/
theorem searchLayer_complete (entry : Fin index.nodes.length) (item : HeapItem Rat) (extra : Nat) :
 searchRounds similarity index query ef layer (index.nodes.length+extra)
  ⟨[entry],#[item],#[item]⟩ =
 searchRounds similarity index query ef layer index.nodes.length ⟨[entry],#[item],#[item]⟩ := by
 refine searchRounds_enough ?_ extra
 have ho:=Finset.card_erase_lt_of_mem (Finset.mem_range.mpr entry.isLt)
 simp only [work,List.size_toArray,length_singleton,toFinset_cons,toFinset_nil,Finset.sdiff_insert,
  Finset.sdiff_empty]
 rw [Finset.card_range] at ho
 omega
end

end HnswIndex

end DhKit.Embeddings
