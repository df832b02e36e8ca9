import DhKit.GraphServices

/-!
# Edges of a node in the database and in the projection

The database adds the edges between a file and its symbols to those it reads for one node; the
projection has added them for all nodes.
-/
namespace DhKit.Graphs
open KeyedTables HydratedGraphProjection List

def nearEnd (incoming : Bool) (e : GraphEdge) : NodeId := if incoming then e.toNode else e.fromNode

namespace Database
variable (db : Database) (workspaceId : Int)

/-- `find_outgoing_edges` and `find_incoming_edges`. -/
def findEdges (incoming : Bool) (n : NodeId) (limit : Nat) : List GraphEdge :=
 (((db.edgesByWorkspace workspaceId).filter fun e => nearEnd incoming e.edge = n).take limit).map
  EdgeRow.edge

def findSymbolsByFile (fileId : Int) : List SymbolRow :=
 (db.symbols.rows.filter fun s => s.fileId = fileId).insertionSort fun a b =>
  a.span.startByte ≤ b.span.startByte

def findSymbolById (symbolId : Int) : Option SymbolRow :=
 (db.findSymbolsByWorkspace workspaceId).find? fun s => s.id = symbolId

/-- The loop over the symbols of a file stops once there are `limit` edges. -/
def pushEdges (limit : Nat) (edges : List GraphEdge) : List GraphEdge → List GraphEdge
 | [] => edges
 | e::rest =>
  if limit ≤ (edges++[e]).length then edges++[e] else pushEdges limit (edges++[e]) rest

/-- The two directions differ in which of the two edges of a symbol is at the file. -/
def graphEdges (incoming : Bool) (n : NodeId) (limit : Nat) : List GraphEdge :=
 let edges := db.findEdges workspaceId incoming n limit
 match n with
 | .file fileId => (pushEdges limit edges ((db.findSymbolsByFile fileId).map
  (if incoming then definitionEdge else containsEdge))).take limit
 | .symbol symbolId => (edges++((db.findSymbolById workspaceId symbolId).map
  (if incoming then containsEdge else definitionEdge)).toList).take limit
 | .chunk _ => []

def graphOutgoingEdges (n : NodeId) (limit : Nat) : List GraphEdge :=
 db.graphEdges workspaceId false n limit

def graphIncomingEdges (n : NodeId) (limit : Nat) : List GraphEdge :=
 db.graphEdges workspaceId true n limit

def adjacency (incoming : Bool) (n : NodeId) : List GraphEdge :=
 ((db.edgesByWorkspace workspaceId).map EdgeRow.edge ++
  (db.findSymbolsByWorkspace workspaceId).flatMap fun s =>
   [containsEdge s,definitionEdge s]).filter
   fun e => nearEnd incoming e = n

/-- The symbols of the workspace, and of the file asked about, are in live files of the
 workspace. -/
def SymbolsLive (n : NodeId) : Prop :=
 ∀ s ∈ db.symbols.rows,s.workspaceId = workspaceId ∨ .file s.fileId = n →
  s.workspaceId = workspaceId ∧ ∃ f ∈ db.listFilesByWorkspace workspaceId,
   f.id = s.fileId ∧ f.deletedAtUnixMs = none

variable {db workspaceId} {incoming : Bool} {n : NodeId}

theorem take_pushEdges {limit : Nat} (edges l : List GraphEdge) :
 (pushEdges limit edges l).take limit=(edges++l).take limit := by
 induction l generalizing edges with
 | nil => rw [pushEdges,append_nil]
 | cons e rest ih =>
  rw [pushEdges]
  split_ifs with hf
  · rw [append_cons edges e rest,take_append_of_le_length hf]
  · rw [ih,append_assoc,singleton_append]

theorem take_findEdges (limit : Nat) (l : List GraphEdge) :
 (db.findEdges workspaceId incoming n limit++l).take limit =
  (((db.edgesByWorkspace workspaceId).map EdgeRow.edge).filter
   (fun e=>nearEnd incoming e=n)++l).take limit := by
 have hst:db.findEdges workspaceId incoming n limit =
  (((db.edgesByWorkspace workspaceId).map EdgeRow.edge).filter
   fun e=>nearEnd incoming e=n).take limit := by
  rw [findEdges,map_take,filter_map]
  rfl
 rw [hst,take_append,take_append,take_take,min_self,length_take]
 congr 2
 omega

theorem filter_synthetic {p : GraphEdge → Bool} {q : SymbolRow → Bool} {f : SymbolRow → GraphEdge}
 (h:∀s,[containsEdge s,definitionEdge s].filter p=if q s then [f s] else [])
 (symbols : List SymbolRow) :
 (symbols.flatMap fun s=>[containsEdge s,definitionEdge s]).filter p =
  (symbols.filter q).map f := by
 induction symbols with
 | nil => rfl
 | cons s symbols ih =>
  rw [flatMap_cons,filter_append,h,ih,filter_cons]
  split_ifs <;> rfl

theorem findSymbolById_toList (symbolId : Int) :
 (db.findSymbolById workspaceId symbolId).toList =
  (db.findSymbolsByWorkspace workspaceId).filter fun s=>s.id=symbolId := by
 have hk:((db.findSymbolsByWorkspace workspaceId).map SymbolRow.id).Nodup:=
  db.symbols.nodup.sublist (filter_sublist.map _)
 unfold findSymbolById
 generalize db.findSymbolsByWorkspace workspaceId=symbols at hk
 induction symbols with
 | nil => rfl
 | cons s symbols ih =>
  obtain ⟨hs,hk⟩:=nodup_cons.mp hk
  by_cases hid : s.id=symbolId
  · have hr:symbols.filter (fun s=>s.id=symbolId)=[]:=by
     refine filter_eq_nil_iff.mpr fun s' hs' hid'=>hs ?_
     rw [hid,←of_decide_eq_true hid']
     exact mem_map_of_mem hs'
    simp [hid,hr]
  · simpa [hid] using ih hk

theorem adjacency_perm (hl:db.SymbolsLive workspaceId n) (limit : Nat)
 (hn:∀chunkId,n≠.chunk chunkId) :
 ∃l : List GraphEdge,l.Perm (db.adjacency workspaceId incoming n) ∧
  db.graphEdges workspaceId incoming n limit=l.take limit := by
 unfold adjacency graphEdges
 rw [filter_append]
 cases n with
 | chunk chunkId => exact absurd rfl (hn chunkId)
 | symbol symbolId =>
  refine ⟨_,.refl _,?_⟩
  dsimp only
  rw [filter_synthetic (q := fun s=>s.id=symbolId)
   (f := if incoming then containsEdge else definitionEdge),←findSymbolById_toList,
   take_findEdges]
  · cases db.findSymbolById workspaceId symbolId <;> rfl
  · intro s
    cases incoming <;> simp [nearEnd,containsEdge,definitionEdge,filter_cons]
 | file fileId =>
  dsimp only
  rw [take_pushEdges,take_findEdges]
  refine ⟨_,Perm.append_left _ ?_,rfl⟩
  rw [filter_synthetic (q := fun s=>s.fileId=fileId)
   (f := if incoming then definitionEdge else containsEdge)]
  · refine Perm.map _ ((perm_insertionSort _ _).trans (.of_eq ?_))
    rw [findSymbolsByWorkspace,filter_filter]
    refine filter_congr fun s hs=>?_
    have := fun h : s.fileId=fileId => (hl s hs (.inr (by rw [h]))).1
    by_cases h : s.fileId=fileId <;> simp [h,this]
  · intro s
    cases incoming <;> simp [nearEnd,containsEdge,definitionEdge,filter_cons]

theorem hydrate_adjacency (hl:db.SymbolsLive workspaceId n) :
 (hydrate db workspaceId).edges.filter (fun e=>nearEnd incoming e=n) =
  db.adjacency workspaceId incoming n := by
 refine congrArg _ (congrArg _ (flatMap_congr fun s hs=>if_pos ?_))
 obtain ⟨hs,hw⟩:=mem_filter.mp hs
 obtain ⟨-,f,hf,hid,hnone⟩:=hl s hs (.inl (of_decide_eq_true hw))
 exact any_eq_true.mpr ⟨f,mem_filter.mpr ⟨hf,by simp [hnone]⟩,by simpa using hid⟩

end Database

/-- Up to `limit` of the edges, and all of them when there are no more. -/
def UpTo (limit : Nat) (all edges : List GraphEdge) : Prop :=
 (all.length ≤ limit → edges.Perm all) ∧
  (limit < all.length → edges.length = limit ∧ edges.Subperm all)

theorem upTo_take {limit : Nat} {all l : List GraphEdge} (h:l.Perm all) :
 UpTo limit all (l.take limit) := by
 refine ⟨fun hle=>?_,fun hlt=>⟨?_,(take_sublist _ _).subperm.trans h.subperm⟩⟩
 · rwa [take_of_length_le (h.length_eq ▸ hle)]
 · rw [length_take,h.length_eq]
   omega

/-- The two implementations give a node the same edges. -/
theorem adjacency_agrees (db : Database) (workspaceId : Int) (n : NodeId)
 (hlive : db.SymbolsLive workspaceId n) (hn : ∀ chunkId,n≠.chunk chunkId) (limit : Nat) :
 UpTo limit (db.adjacency workspaceId false n) (db.graphOutgoingEdges workspaceId n limit) ∧
 UpTo limit (db.adjacency workspaceId false n) ((hydrate db workspaceId).outgoingEdges n limit) ∧
 UpTo limit (db.adjacency workspaceId true n) (db.graphIncomingEdges workspaceId n limit) ∧
 UpTo limit (db.adjacency workspaceId true n)
  ((hydrate db workspaceId).incomingEdges n limit) := by
 have hda:∀incoming,UpTo limit (db.adjacency workspaceId incoming n)
  (db.graphEdges workspaceId incoming n limit) := by
  intro incoming
  obtain ⟨l,hpe,heq⟩:=@Database.adjacency_perm _ _ incoming _ hlive limit hn
  rw [heq]
  exact upTo_take hpe
 have hp:∀incoming,UpTo limit (db.adjacency workspaceId incoming n)
  (((hydrate db workspaceId).edges.filter fun e=>nearEnd incoming e=n).take limit) :=
  fun incoming=>upTo_take (.of_eq (Database.hydrate_adjacency hlive))
 exact ⟨hda false,hp false,hda true,hp true⟩

theorem adjacency_agrees_one_call :
 (oneCall.adjacency 1 false (.symbol 1)).map (fun e => (e.kind,e.toNode)) =
  [(.calls,.symbol 2),(.definition,.file 10)] ∧
 (oneCall.graphOutgoingEdges 1 (.symbol 1) 3).Perm (oneCall.adjacency 1 false (.symbol 1)) ∧
 ((hydrate oneCall 1).outgoingEdges (.symbol 1) 3).Perm
  (oneCall.adjacency 1 false (.symbol 1)) ∧
 (oneCall.adjacency 1 true (.symbol 1)).map (fun e => (e.kind,e.fromNode)) =
  [(.contains,.file 10)] ∧
 (oneCall.graphIncomingEdges 1 (.symbol 1) 3).Perm (oneCall.adjacency 1 true (.symbol 1)) ∧
 ((hydrate oneCall 1).incomingEdges (.symbol 1) 3).Perm
  (oneCall.adjacency 1 true (.symbol 1)) := by
 have hlive:∀s∈oneCall.symbols.rows,s.workspaceId=1 ∧
  ∃f∈oneCall.listFilesByWorkspace 1,f.id=s.fileId ∧ f.deletedAtUnixMs=none := by decide
 obtain ⟨hdo,hpo,hdi,hpi⟩:=adjacency_agrees oneCall 1 (.symbol 1) (fun s hs _=>hlive s hs) nofun 3
 exact ⟨by decide,hdo.1 (by decide),hpo.1 (by decide),by decide,hdi.1 (by decide),
  hpi.1 (by decide)⟩

end DhKit.Graphs
