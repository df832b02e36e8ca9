import DhKit.ImpactAnalysis

/-!
# Distances in an impact analysis

The recursive query keeps no depth, so that an analysis asks it twice and knows of each node
only whether it is within one hop.
-/
namespace DhKit.Queries.Store
open BreadthFirst List
open Graphs (NodeId)

section
variable (db : Store) (workspaceId : Int)

def neighbors (n : NodeId) : List NodeId :=
 db.graph.outgoingNodes workspaceId none n++db.graph.incomingNodes workspaceId none n

abbrev Labels := NodeId → Option (String × Option String)

def fileLabels : Labels
 | .file id => ((db.listFilesByWorkspace workspaceId).find? fun f => f.id = id).map fun f =>
  (f.relPath,some f.relPath)
 | _ => none

def symbolLabels : Labels
 | .symbol id => (db.findSymbolById workspaceId id).map fun s =>
  (s.qualifiedName,(db.findFileById workspaceId s.fileId).map (·.relPath))
 | _ => none

end

section
variable (db : Store) (query : ImpactAnalysisQuery)

def impactTarget : Option (NodeId × Labels) :=
 match (db.listFilesByWorkspace query.workspaceId).find? fun f => f.relPath = query.target with
 | some file => some (.file file.id,db.fileLabels query.workspaceId)
 | none => (db.findSymbolDefinitions query.workspaceId query.target 1).head?.map fun s =>
  (.symbol s.id,db.symbolLabels query.workspaceId)

/-- The labelled nodes at the distances from `least` to the hop limit, each once and with
 what `shown` makes of its distance. -/
def ListsFrom (least : Nat) (shown : Nat → Nat) (db : Store) (query : ImpactAnalysisQuery)
 (target : NodeId) (labels : Labels) (nodes : List ImpactNode) : Prop :=
 ∃ met : List (NodeId × Nat),met.Nodup ∧
  (∀ n d,(n,d) ∈ met ↔ least ≤ d ∧ d ≤ query.hopLimit ∧
   IsDist (db.neighbors query.workspaceId) target n d) ∧
  nodes.Perm (met.filterMap fun x => (labels x.1).map fun label =>
   ⟨label.1,label.2,if shown x.2 = 1 then .direct else .transitive,shown x.2⟩)

def TrueDistances : Prop :=
 ∀ target labels,db.impactTarget query = some (target,labels) →
  ListsFrom 1 id db query target labels (db.impactAnalysis query).impactNodes

/-- The node limit is larger than the number of nodes reachable from the target. -/
def RoomForAll : Prop :=
 ∀ target labels,db.impactTarget query = some (target,labels) →
  ∀ nodes : List NodeId,nodes.Nodup →
   (∀ n ∈ nodes,∃ d,Walk (db.neighbors query.workspaceId) d target n) →
   nodes.length < query.nodeLimit

end

variable {db : Store} {query : ImpactAnalysisQuery} {target : NodeId} {labels : Labels}

theorem nodup_eraseDups {α : Type} [DecidableEq α] : ∀l : List α,l.eraseDups.Nodup
 | [] => by simp
 | a::l => by
  rw [eraseDups_cons,nodup_cons]
  exact ⟨by simp,nodup_eraseDups _⟩
termination_by l => l.length
decreasing_by exact Nat.lt_succ_of_le (length_filter_le _ _)

section
variable {kind : Int → NodeId} {idOf : NodeId → Option Int}
 (hid : ∀ n id,idOf n = some id ↔ n = kind id)
 (hroom : ∀ nodes : List NodeId,nodes.Nodup →
  (∀ n ∈ nodes,∃ d,Walk (db.neighbors query.workspaceId) d target n) →
  nodes.length < query.nodeLimit)
include hid

theorem kind_inj {id id' : Int} (h:kind id=kind id') : id=id' := by
 have hso:=(hid (kind id) id).mpr rfl
 rw [h,(hid _ _).mpr rfl] at hso
 exact (Option.some.inj hso).symm

include hroom

theorem boundedNeighborhood_spec (hopLimit:Nat) :
 (db.boundedNeighborhood query.workspaceId target idOf hopLimit query.nodeLimit).Nodup ∧
 ∀id,id∈db.boundedNeighborhood query.workspaceId target idOf hopLimit query.nodeLimit ↔
  ∃d,d ≤ hopLimit ∧ Walk (db.neighbors query.workspaceId) d target (kind id) := by
 let ids:=((walkRows (db.neighbors query.workspaceId) target hopLimit).filterMap
  fun r=>idOf r.1).eraseDups
 have hme:∀id,id∈ids ↔
  ∃d,d ≤ hopLimit ∧ Walk (db.neighbors query.workspaceId) d target (kind id) := by
  intro id
  simp only [ids,mem_eraseDups,mem_filterMap,Prod.exists,hid,mem_walkRows]
  constructor
  · rintro ⟨n,d,⟨hd,hw⟩,rfl⟩
    exact ⟨d,hd,hw⟩
  · rintro ⟨d,hd,hw⟩
    exact ⟨_,d,⟨hd,hw⟩,rfl⟩
 have hl:=hroom (ids.map kind) ((nodup_eraseDups _).map_on fun _ _ _ _ h=>kind_inj hid h) (by
  intro n hn
  obtain ⟨id,h,rfl⟩:=mem_map.mp hn
  obtain ⟨d,-,hw⟩:=(hme id).mp h
  exact ⟨d,hw⟩)
 rw [length_map] at hl
 change (ids.take query.nodeLimit).Nodup ∧ ∀id,id∈ids.take query.nodeLimit ↔ _
 rw [take_of_length_le hl.le]
 exact ⟨nodup_eraseDups _,hme⟩

theorem listsFrom_neighborhood (hl:∀n,idOf n=none → labels n=none) :
 ListsFrom 0 (fun d=>min (max d 1) 2) db query target labels
  ((db.boundedNeighborhood query.workspaceId target idOf query.hopLimit
   query.nodeLimit).filterMap fun id=>(labels (kind id)).map fun label=>impactNode
    (id∈db.boundedNeighborhood query.workspaceId target idOf 1 query.nodeLimit)
    label.1 label.2) := by
 obtain ⟨hno,hmem⟩:=boundedNeighborhood_spec hid hroom query.hopLimit
 obtain ⟨-,hdi⟩:=boundedNeighborhood_spec hid hroom 1
 let met:=minDepths (walkRows (db.neighbors query.workspaceId) target query.hopLimit)
 have hme:∀x∈met,IsDist (db.neighbors query.workspaceId) target x.1 x.2:=fun x hx=>
  (mem_minDepths_walkRows.mp hx).2
 have hnod:(met.map Prod.fst).Nodup:=by
  refine (nodup_minDepths _).map_on fun x hx y hy h=>Prod.ext h ?_
  have hy:=hme y hy
  rw [←h] at hy
  exact (hme x hx).unique hy
 have hp:(db.boundedNeighborhood query.workspaceId target idOf query.hopLimit
  query.nodeLimit).Perm ((met.map Prod.fst).filterMap idOf) := by
  refine (perm_ext_iff_of_nodup hno (hnod.filterMap fun a b id ha hb=>?_)).mpr fun id=>?_
  · rw [(hid _ _).mp ha,(hid _ _).mp hb]
  rw [hmem]
  simp only [mem_filterMap,hid,mem_map,exists_eq_right,Prod.exists,met,mem_minDepths_walkRows]
  constructor
  · rintro ⟨n,hn,hw⟩
    obtain ⟨d,hd,h⟩:=exists_isDist hw
    exact ⟨_,d,⟨hd.trans hn,h⟩,rfl⟩
  · rintro ⟨_,d,⟨hd,h⟩,rfl⟩
    exact ⟨d,hd,h.walk⟩
 refine ⟨met,nodup_minDepths _,fun n d=>by simp [met,mem_minDepths_walkRows],?_⟩
 refine (hp.filterMap _).trans (.of_eq ?_)
 rw [filterMap_filterMap,filterMap_map]
 refine filterMap_congr fun x hx=>?_
 have hx:=hme x hx
 cases hn : idOf x.1 with
 | none => simp [hl _ hn,hn]
 | some id =>
  have hk:=(hid _ _).mp hn
  have hnea:id∈db.boundedNeighborhood query.workspaceId target idOf 1 query.nodeLimit ↔
   x.2 ≤ 1 := by
   rw [hdi,←hk]
   exact ⟨fun ⟨d,hd,hw⟩=>(hx.least d hw).trans hd,fun h=>⟨x.2,h,hx.walk⟩⟩
  have hsh:min (max x.2 1) 2=if x.2 ≤ 1 then 1 else 2:=by split_ifs <;> omega
  simp only [Function.comp_apply,hn,Option.bind_some,←hk,hnea,hsh]
  by_cases h1 : x.2 ≤ 1 <;> simp [impactNode,h1]

end

theorem mem_listFilesByWorkspace {workspaceId : Int} {f : Graphs.FileRow} :
 f∈db.listFilesByWorkspace workspaceId ↔ f∈db.filesOf workspaceId := by
 simp [listFilesByWorkspace]

theorem not_exists_of_find?_none {workspaceId : Int} {path : String}
 (h:(db.listFilesByWorkspace workspaceId).find? (·.relPath=path)=none) :
 ¬∃f∈db.filesOf workspaceId,f.relPath=path := by
 rintro ⟨f,hf,hp⟩
 simpa [hp] using find?_eq_none.mp h f (mem_listFilesByWorkspace.mpr hf)

theorem findSymbolDefinitions_one_eq_nil {workspaceId : Int} {name : String} :
 db.findSymbolDefinitions workspaceId name 1=[] ↔
  ∀s∈db.symbolsOf workspaceId,s.name≠name ∧ s.qualifiedName≠name := by
 rw [findSymbolDefinitions,take_eq_nil_iff,or_iff_right (by omega),←length_eq_zero_iff,
  length_insertionSort,length_eq_zero_iff,filter_eq_nil_iff]
 simp

theorem mem_findSymbolDefinitions {workspaceId : Int} {name : String} {limit : Nat} {s : Symbol}
 (h:s∈db.findSymbolDefinitions workspaceId name limit) : s∈db.symbolsOf workspaceId :=
 (mem_filter.mp ((mem_insertionSort _).mp (mem_of_mem_take h))).1

def NamesTarget (db : Store) (workspaceId : Int) (target : String) : Prop :=
 (∃ f ∈ db.filesOf workspaceId,f.relPath = target) ∨
  ∃ s ∈ db.symbolsOf workspaceId,s.name = target ∨ s.qualifiedName = target

theorem impactTarget_eq_none :
 db.impactTarget query=none ↔ ¬db.NamesTarget query.workspaceId query.target := by
 unfold impactTarget NamesTarget
 split
 · next file hfi =>
   refine iff_of_false (by simp) (not_not.mpr (.inl ⟨file,?_,by simpa using find?_some hfi⟩))
   exact mem_listFilesByWorkspace.mp (mem_of_find?_eq_some hfi)
 · next hfi =>
   have hn:=not_exists_of_find?_none hfi
   rw [Option.map_eq_none_iff,head?_eq_none_iff,findSymbolDefinitions_one_eq_nil,
    or_iff_right hn]
   simp

theorem impactAnalysis_lists (hroom:db.RoomForAll query)
 (h:db.impactTarget query=some (target,labels)) : (labels target).isSome ∧
 ListsFrom 0 (fun d=>min (max d 1) 2) db query target labels
  (db.impactAnalysis query).impactNodes := by
 have hla:=hroom _ _ h
 unfold impactTarget at h
 unfold impactAnalysis
 cases hf:(db.listFilesByWorkspace query.workspaceId).find? fun f=>f.relPath=query.target with
 | some file =>
   rw [hf] at h
   cases h
   simp only [impactResult]
   constructor
   · simpa [fileLabels] using ⟨file,mem_of_find?_eq_some hf,rfl⟩
   have hid:∀n id,(fun | .file id => some id | _ => none : NodeId → Option Int) n=some id ↔
    n = .file id := fun n id=>by cases n <;> simp
   have hl:=listsFrom_neighborhood hid hla fun n hn=>show db.fileLabels
    query.workspaceId n=none by cases n <;> simp_all [fileLabels]
   simp only [fileLabels,Option.map_map] at hl
   exact hl
 | none =>
   rw [hf] at h
   obtain ⟨symbol,hsy,heq⟩:=Option.map_eq_some_iff.mp h
   cases heq
   obtain ⟨rest,hde⟩:=head?_eq_some_iff.mp hsy
   rw [hde]
   simp only [impactResult]
   constructor
   · simpa [symbolLabels,findSymbolById] using
      ⟨symbol,mem_findSymbolDefinitions (mem_of_mem_head? hsy),rfl⟩
   · have hid:∀n id,(fun | .symbol id => some id | _ => none : NodeId → Option Int) n =
      some id ↔ n = .symbol id := fun n id=>by cases n <;> simp
     have hl:=listsFrom_neighborhood hid hla fun n hn=>show db.symbolLabels
      query.workspaceId n=none by cases n <;> simp_all [symbolLabels]
     simp only [symbolLabels,Option.map_map] at hl
     exact hl

theorem length_listed (g : NodeId × Nat → String × Option String → ImpactNode)
 (met : List (NodeId × Nat)) :
 (met.filterMap fun x=>(labels x.1).map (g x)).length =
  (met.filterMap fun x=>labels x.1).length := by
 induction met with
 | nil => rfl
 | cons x met ih => cases h : labels x.1 <;> simp [h,ih]

/-- Both lists hold what the other lists at the distances from one on, and the target. -/
theorem ListsFrom.length_eq {shown shown' : Nat → Nat} {nodes nodes' : List ImpactNode}
 (h:ListsFrom 0 shown db query target labels nodes)
 (h':ListsFrom 1 shown' db query target labels nodes') (hl:(labels target).isSome) :
 nodes.length=nodes'.length+1 := by
 obtain ⟨met,hn,hme,hp⟩:=h
 obtain ⟨met',hn',hme',hp'⟩:=h'
 have hz:∀n,IsDist (db.neighbors query.workspaceId) target n 0 ↔ n=target:=fun n=>
  ⟨fun h=>walk_zero.mp h.walk,fun h=>⟨walk_zero.mpr h,fun _ _=>Nat.zero_le _⟩⟩
 have hpe:met.Perm ((target,0)::met'):=by
  refine (perm_ext_iff_of_nodup hn (nodup_cons.mpr ⟨fun h=>?_,hn'⟩)).mpr ?_
  · exact absurd ((hme' _ _).mp h).1 (by omega)
  rintro ⟨n,d⟩
  rw [mem_cons,hme,hme',Prod.mk.injEq]
  rcases Nat.eq_zero_or_pos d with rfl|hd
  · simp [hz]
  · simp [Nat.pos_iff_ne_zero.mp hd,Nat.one_le_iff_ne_zero]
 obtain ⟨label,hl⟩:=Option.isSome_iff_exists.mp hl
 rw [hp.length_eq,hp'.length_eq,length_listed,length_listed,
  (hpe.filterMap fun x=>labels x.1).length_eq]
 simp [hl]

/-- An analysis lists the nodes within the hop limit, its target among them, and gives every
 node a distance of one or of two; so its distances are the true ones only where it has no
 target. -/
theorem impactAnalysis_trueDistances_iff (db : Store) (query : ImpactAnalysisQuery)
 (hroom : db.RoomForAll query) :
 (∀ target labels,db.impactTarget query = some (target,labels) →
  ListsFrom 0 (fun d => min (max d 1) 2) db query target labels
   (db.impactAnalysis query).impactNodes) ∧
 (db.TrueDistances query ↔ ¬ db.NamesTarget query.workspaceId query.target) := by
 refine ⟨fun target labels h=>(impactAnalysis_lists hroom h).2,?_⟩
 rw [←impactTarget_eq_none]
 constructor
 · intro htr
   cases h : db.impactTarget query with
   | none => rfl
   | some t =>
    obtain ⟨hl,hli⟩:=impactAnalysis_lists hroom h
    have := hli.length_eq (htr _ _ h) hl
    omega
 · intro hnone target labels h
   rw [hnone] at h
   cases h

/-- A workspace with one file and no edges. -/
def loneFile : Store where
 files := ⟨[⟨1,1,"src/a.ts",none⟩],nodup_singleton _⟩
 symbols := ⟨[],nodup_nil⟩
 chunks := ⟨[],nodup_nil⟩
 edges := ⟨[],nodup_nil⟩

theorem loneFile_walk {d : Nat} {n : NodeId}
 (h:Walk (loneFile.neighbors 1) d (.file 1) n) : d=0 ∧ n = .file 1 := by
 cases d with
 | zero => exact ⟨rfl,walk_zero.mp h⟩
 | succ d =>
  obtain ⟨m,-,hn⟩:=walk_succ.mp h
  exact absurd hn not_mem_nil

theorem loneFile_roomForAll : loneFile.RoomForAll ⟨1,"src/a.ts",2,10⟩ := by
 intro target labels h nodes hno hnodes
 cases h
 have hl:nodes.length ≤ [NodeId.file 1].length := by
  refine (hno.subperm fun n hn=>?_).length_le
  obtain ⟨d,hw⟩:=hnodes n hn
  exact mem_singleton.mpr (loneFile_walk hw).2
 exact Nat.lt_of_le_of_lt hl (by decide)

theorem impactAnalysis_trueDistances_self :
 loneFile.NamesTarget 1 "src/a.ts" ∧ ¬ loneFile.TrueDistances ⟨1,"src/a.ts",2,10⟩ := by
 have hna:loneFile.NamesTarget 1 "src/a.ts" := by
  have hta:loneFile.impactTarget ⟨1,"src/a.ts",2,10⟩≠none:=nofun
  exact not_not.mp (impactTarget_eq_none.not.mp hta)
 exact ⟨hna,fun h=>(impactAnalysis_trueDistances_iff _ _ loneFile_roomForAll).2.mp h hna⟩

/-- The file is listed as its own dependent. -/
theorem loneFile_impacts_itself :
 loneFile.RoomForAll ⟨1,"src/a.ts",2,10⟩ ∧
 (loneFile.impactAnalysis ⟨1,"src/a.ts",2,10⟩).impactNodes =
  [⟨"src/a.ts",some "src/a.ts",.direct,1⟩] ∧
 ¬ loneFile.TrueDistances ⟨1,"src/a.ts",2,10⟩ := by
 have hno:(loneFile.impactAnalysis ⟨1,"src/a.ts",2,10⟩).impactNodes =
  [⟨"src/a.ts",some "src/a.ts",.direct,1⟩] := by decide +kernel
 refine ⟨loneFile_roomForAll,hno,fun htr=>?_⟩
 obtain ⟨met,-,hme,hp⟩:=htr (.file 1) _ rfl
 have hni:met=[]:=by
  refine eq_nil_iff_forall_not_mem.mpr fun x hx=>?_
  obtain ⟨hd,-,hdi⟩:=(hme x.1 x.2).mp hx
  have hz:=(loneFile_walk hdi.walk).1
  omega
 rw [hno,hni] at hp
 simpa using hp.length_eq

end DhKit.Queries.Store
