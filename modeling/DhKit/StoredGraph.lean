import Mathlib.Data.List.Sort
import DhKit.BreadthFirst
import DhKit.IndexTypes

/-!
# The stored graph and its projection

Two implementations of one service.
-/
namespace DhKit.Graphs
open KeyedTables BreadthFirst
open Indexer (EdgeKind EdgeResolution EdgeConfidence Span)

inductive NodeId where
 | file (id : Int)
 | symbol (id : Int)
 | chunk (id : Int)
deriving DecidableEq

inductive NodeKind where
 | file | symbol | chunk
deriving DecidableEq

structure GraphEdge where
 kind : EdgeKind
 fromNode : NodeId
 toNode : NodeId
 resolution : EdgeResolution
 confidence : EdgeConfidence
 span : Option Span
 reason : String
 payloadJson : Option String
deriving DecidableEq

structure EdgeRow where
 id : Int
 workspaceId : Int
 edge : GraphEdge
deriving DecidableEq

structure FileRow where
 id : Int
 workspaceId : Int
 relPath : String
 deletedAtUnixMs : Option Int
deriving DecidableEq

structure SymbolRow where
 id : Int
 workspaceId : Int
 fileId : Int
 name : String
 qualifiedName : String
 span : Span
deriving DecidableEq

structure ChunkRow where
 id : Int
 workspaceId : Int
 fileId : Int
 title : String
deriving DecidableEq

structure Database where
 files : Table Int FileRow FileRow.id
 symbols : Table Int SymbolRow SymbolRow.id
 chunks : Table Int ChunkRow ChunkRow.id
 edges : Table Int EdgeRow EdgeRow.id

structure GraphNode where
 id : NodeId
 kind : NodeKind
 label : String
 filePath : Option String
deriving DecidableEq

structure CallHierarchyNode where
 node : GraphNode
 callDepth : Nat
deriving DecidableEq

def edgeKindToStr : EdgeKind → String
 | .imports => "imports"
 | .reExports => "re_exports"
 | .calls => "calls"
 | .references => "references"
 | .contains => "contains"
 | .definition => "definition"
 | .definesChunk => "defines_chunk"
 | .extends => "extends"
 | .implements => "implements"
 | .typeReferences => "type_references"
 | .exports => "exports"

/-! ## The database -/

variable (db : Database) (workspaceId : Int)

namespace Database

def listFilesByWorkspace : List FileRow :=
 db.files.rows.filter fun f => f.workspaceId = workspaceId

def findSymbolsByWorkspace : List SymbolRow :=
 db.symbols.rows.filter fun s => s.workspaceId = workspaceId

def findChunksByWorkspace : List ChunkRow :=
 db.chunks.rows.filter fun c => c.workspaceId = workspaceId

def edgesByWorkspace : List EdgeRow :=
 db.edges.rows.filter fun e => e.workspaceId = workspaceId

def findFileById (workspaceId fileId : Int) : Option FileRow :=
 (db.listFilesByWorkspace workspaceId).find? fun f => f.id = fileId

def node : NodeId → Option GraphNode
 | .file fileId => (db.findFileById workspaceId fileId).map fun f =>
  ⟨.file f.id,.file,f.relPath,some f.relPath⟩
 | .symbol symbolId => ((db.findSymbolsByWorkspace workspaceId).find? fun s => s.id = symbolId).map
  fun s => ⟨.symbol s.id,.symbol,
   if s.qualifiedName = "" then s.name else s.qualifiedName,
   (db.findFileById workspaceId s.fileId).map FileRow.relPath⟩
 | .chunk chunkId => ((db.findChunksByWorkspace workspaceId).find? fun c => c.id = chunkId).map
  fun c => ⟨.chunk c.id,.chunk,c.title,
   (db.findFileById workspaceId c.fileId).map FileRow.relPath⟩

section
variable (filter : Option (List String))

/-- `e.kind IN (..)`; an empty list is `1=0`. -/
def kindClause (e : EdgeRow) : Bool :=
 filter.all fun kinds => edgeKindToStr e.edge.kind ∈ kinds

def outgoingNodes (n : NodeId) : List NodeId :=
 ((db.edgesByWorkspace workspaceId).filter fun e =>
  e.edge.fromNode = n && kindClause filter e).map fun e => e.edge.toNode

def incomingNodes (n : NodeId) : List NodeId :=
 ((db.edgesByWorkspace workspaceId).filter fun e =>
  e.edge.toNode = n && kindClause filter e).map fun e => e.edge.fromNode

end

/-- `GROUP BY node ORDER BY min_depth LIMIT`, over the rows of a recursive `UNION ALL`
 whose step is `next`. -/
def reachable (next : NodeId → List NodeId) (seed : NodeId) (maxHops nodeLimit : Nat) :
 List (NodeId × Nat) :=
 ((minDepths (walkRows next seed maxHops)).insertionSort fun x y => x.2 ≤ y.2).take nodeLimit

inductive Direction where
 | outgoing | incoming

section
variable (seed : NodeId) (direction : Direction) (maxHops nodeLimit : Nat)
 (filter : Option (List String))

def directionalNeighborhood : List (NodeId × Nat) :=
 match direction with
 | .outgoing => reachable (db.outgoingNodes workspaceId filter) seed maxHops nodeLimit
 | .incoming => reachable (db.incomingNodes workspaceId filter) seed maxHops nodeLimit

def weightedNeighborhood : List (NodeId × Nat) :=
 reachable (fun n => db.outgoingNodes workspaceId filter n++db.incomingNodes workspaceId filter n)
  seed maxHops nodeLimit

def callHierarchy (maxDepth : Nat) : List CallHierarchyNode :=
 (db.directionalNeighborhood workspaceId seed direction maxDepth 1000 (some ["call"])).filterMap
  fun x => (db.node workspaceId x.1).map fun n => ⟨n,x.2⟩

end

def findCallers (callee : NodeId) (maxDepth : Nat) :
 List CallHierarchyNode :=
 db.callHierarchy workspaceId callee .incoming maxDepth

def findCallees (caller : NodeId) (maxDepth : Nat) :
 List CallHierarchyNode :=
 db.callHierarchy workspaceId caller .outgoing maxDepth

end Database

/-! ## The projection -/

/-- `edges` in the order in which they were pushed, from which the edges of each node are
 read off. -/
structure HydratedGraphProjection where
 workspaceId : Int
 filesById : List FileRow
 symbolsById : List SymbolRow
 edges : List GraphEdge

variable (p : HydratedGraphProjection)

namespace HydratedGraphProjection

def containsEdge (s : SymbolRow) : GraphEdge where
 kind := .contains
 fromNode := .file s.fileId
 toNode := .symbol s.id
 resolution := .resolved
 confidence := .direct
 span := some s.span
 reason := "file contains symbol " ++ s.name
 payloadJson := none

def definitionEdge (s : SymbolRow) : GraphEdge where
 kind := .definition
 fromNode := .symbol s.id
 toNode := .file s.fileId
 resolution := .resolved
 confidence := .direct
 span := some s.span
 reason := "defined in file " ++ toString s.fileId
 payloadJson := none

def syntheticEdges (files : List FileRow) (symbols : List SymbolRow) : List GraphEdge :=
 symbols.flatMap fun s =>
  if files.any fun f => f.id = s.fileId then [containsEdge s,definitionEdge s] else []

def hydrate : HydratedGraphProjection :=
 let files := (db.listFilesByWorkspace workspaceId).filter fun f => f.deletedAtUnixMs.isNone
 let symbols := db.findSymbolsByWorkspace workspaceId
 { workspaceId := workspaceId
   filesById := files
   symbolsById := symbols
   edges := (db.edgesByWorkspace workspaceId).map EdgeRow.edge++syntheticEdges files symbols }

def outgoingEdges (n : NodeId) (limit : Nat) : List GraphEdge :=
 (p.edges.filter fun e => e.fromNode = n).take limit

def incomingEdges (n : NodeId) (limit : Nat) : List GraphEdge :=
 (p.edges.filter fun e => e.toNode = n).take limit

def nodeFromProjection : NodeId → Option GraphNode
 | .file fileId => (p.filesById.find? fun f => f.id = fileId).map fun f =>
  ⟨.file f.id,.file,f.relPath,some f.relPath⟩
 | .symbol symbolId => (p.symbolsById.find? fun s => s.id = symbolId).map fun s =>
  ⟨.symbol s.id,.symbol,if s.qualifiedName = "" then s.name else s.qualifiedName,
   (p.filesById.find? fun f => f.id = s.fileId).map FileRow.relPath⟩
 | .chunk _ => none

/-- The filter also accepts `call` for the stored kind `calls`. -/
def edgeKindAllowed (kind : EdgeKind) : Option (List String) → Bool
 | none => true
 | some kinds => kinds.any fun candidate =>
  candidate = edgeKindToStr kind || candidate = "call" && kind = .calls

/-! ### Call hierarchies -/

structure CallSearch where
 visited : List NodeId
 queue : List (NodeId × Nat)
 out : List CallHierarchyNode

def CallSearch.pop (s : CallSearch) : Option ((NodeId × Nat) × CallSearch) :=
 match s.queue with
 | [] => none
 | x::rest => some (x,{ s with queue := rest })

/-- A node found at `depth` is expanded later unless it is at the bound. -/
def CallSearch.enqueue (s : CallSearch) (next : NodeId) (depth maxDepth : Nat) : CallSearch :=
 if depth < maxDepth then { s with queue := s.queue++[(next,depth)] } else s

def callEnd (incoming : Bool) (edge : GraphEdge) : NodeId :=
 if incoming then edge.fromNode else edge.toNode

/-- The loop over the edges of a node; a full result breaks it. -/
def visitCalls (p : HydratedGraphProjection) (incoming : Bool) (maxDepth limit depth : Nat) :
 List GraphEdge → CallSearch → CallSearch
 | [],s => s
 | edge::rest,s =>
  let next := callEnd incoming edge
  if edge.kind≠.calls ∨ next ∈ s.visited then visitCalls p incoming maxDepth limit depth rest s
  else
   let seen := { s with visited := s.visited++[next] }
   match p.nodeFromProjection next with
   | none => visitCalls p incoming maxDepth limit depth rest (seen.enqueue next depth maxDepth)
   | some n =>
    let full := { seen with out := s.out++[⟨n,depth⟩] }
    if limit ≤ full.out.length then full
    else visitCalls p incoming maxDepth limit depth rest (full.enqueue next depth maxDepth)

def expandCalls (incoming : Bool) (maxDepth limit : Nat)
 (x : NodeId × Nat) (s : CallSearch) : CallSearch :=
 if maxDepth ≤ x.2 ∨ limit ≤ s.out.length then s
 else
  let bound := max (limit*4) 16
  let edges := if incoming then p.incomingEdges x.1 bound else p.outgoingEdges x.1 bound
  visitCalls p incoming maxDepth limit (x.2+1) edges s

def callHierarchyDirection (seed : NodeId) (incoming : Bool)
 (maxDepth limit : Nat) : List CallHierarchyNode :=
 (drain CallSearch.pop (p.expandCalls incoming maxDepth limit) (p.edges.length+1)
  ⟨[seed],[(seed,0)],[]⟩).out

def findCallers (workspaceId : Int) (callee : NodeId)
 (maxDepth : Nat) : List CallHierarchyNode :=
 if workspaceId≠p.workspaceId then [] else p.callHierarchyDirection callee true maxDepth 1000

def findCallees (workspaceId : Int) (caller : NodeId)
 (maxDepth : Nat) : List CallHierarchyNode :=
 if workspaceId≠p.workspaceId then [] else p.callHierarchyDirection caller false maxDepth 1000

/-! ### Neighborhoods -/

/-- The loop over the allowed successors of a node; reaching the limit breaks it. -/
def visitNodes (nodeLimit depth : Nat) : List NodeId → Search NodeId → Search NodeId
 | [],s => s
 | next::rest,s =>
  if next ∈ s.visited.map Prod.fst then visitNodes nodeLimit depth rest s
  else
   let visited := s.visited++[(next,depth)]
   if nodeLimit ≤ visited.length then { s with visited := visited }
   else visitNodes nodeLimit depth rest ⟨visited,s.queue++[(next,depth)]⟩

def allowedNodes (filter : Option (List String)) (n : NodeId) :
 List NodeId :=
 ((p.outgoingEdges n 256).filter fun e => edgeKindAllowed e.kind filter).map GraphEdge.toNode

def expandWeighted (maxHops nodeLimit : Nat)
 (filter : Option (List String)) (x : NodeId × Nat) (s : Search NodeId) : Search NodeId :=
 if maxHops ≤ x.2 ∨ nodeLimit ≤ s.visited.length then s
 else visitNodes nodeLimit (x.2+1) (p.allowedNodes filter x.1) s

def weightedNeighborhood (workspaceId : Int) (seed : NodeId)
 (maxHops nodeLimit : Nat) (filter : Option (List String)) : List (NodeId × Nat) :=
 if workspaceId≠p.workspaceId then []
 else (drain Search.pop (p.expandWeighted maxHops nodeLimit filter) (p.edges.length+1)
  (Search.start seed)).visited.insertionSort fun x y => x.2 ≤ y.2

end HydratedGraphProjection
end DhKit.Graphs
