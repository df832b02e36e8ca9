import DhKit.StoredGraph

/-!
# Impact analysis

`impact_analysis` reads the neighborhood of its target off the stored edges.
-/
namespace DhKit.Queries
open KeyedTables BreadthFirst
open Graphs (NodeId FileRow SymbolRow ChunkRow EdgeRow)

structure Symbol extends SymbolRow where
 exported : Bool
deriving DecidableEq

structure Store where
 files : Table Int FileRow FileRow.id
 symbols : Table Int Symbol fun s => s.id
 chunks : Table Int ChunkRow ChunkRow.id
 edges : Table Int EdgeRow EdgeRow.id

variable (db : Store) (workspaceId : Int)

namespace Store

def graph : Graphs.Database where
 files := db.files
 symbols := ⟨db.symbols.rows.map Symbol.toSymbolRow,by rw [List.map_map]; exact db.symbols.nodup⟩
 chunks := db.chunks
 edges := db.edges

/-! ## Storage -/

def filesOf : List FileRow :=
 db.files.rows.filter fun f => f.workspaceId = workspaceId

def listFilesByWorkspace : List FileRow :=
 (db.filesOf workspaceId).insertionSort fun a b => a.relPath ≤ b.relPath

def findFileById (workspaceId fileId : Int) : Option FileRow :=
 (db.filesOf workspaceId).find? fun f => f.id = fileId

def symbolsOf : List Symbol :=
 db.symbols.rows.filter fun s => s.workspaceId = workspaceId

def findSymbolDefinitions (symbolName : String) (limit : Nat) :
 List Symbol :=
 (((db.symbolsOf workspaceId).filter fun s =>
  s.name = symbolName ∨ s.qualifiedName = symbolName).insertionSort fun a b =>
   (b.exported = true → a.exported = true) ∧
    (a.exported = b.exported → a.id ≤ b.id)).take limit

def findSymbolById (workspaceId symbolId : Int) : Option Symbol :=
 (db.symbolsOf workspaceId).find? fun s => s.id = symbolId

/-- The nodes of one kind among the rows of the recursive query, each once; the query walks
edges forwards and backwards, and its rows leave the queue in the order they entered it. -/
def boundedNeighborhood (seed : NodeId)
 (idOf : NodeId → Option Int) (hopLimit nodeLimit : Nat) : List Int :=
 let next n := db.graph.outgoingNodes workspaceId none n ++
  db.graph.incomingNodes workspaceId none n
 (((walkRows next seed hopLimit).filterMap fun r => idOf r.1).eraseDups).take nodeLimit

def boundedFileNeighborhood (workspaceId fileId : Int) (hopLimit nodeLimit : Nat) :
 List Int :=
 db.boundedNeighborhood workspaceId (.file fileId)
  (fun | .file id => some id | _ => none) hopLimit nodeLimit

def boundedSymbolNeighborhood (workspaceId symbolId : Int)
 (hopLimit nodeLimit : Nat) : List Int :=
 db.boundedNeighborhood workspaceId (.symbol symbolId)
  (fun | .symbol id => some id | _ => none) hopLimit nodeLimit

end Store

/-! ## Evidence -/

inductive EvidenceSource where
 | graph | query | storage | semantic
deriving DecidableEq

inductive EvidenceConfidence where
 | grounded | partially
deriving DecidableEq

inductive AnswerState where
 | grounded | partially | insufficient | unsupported
deriving DecidableEq

inductive QuestionClass where
 | findSymbol | buildEvidence | definition | references | dependencies | dependents
 | callHierarchy | traceFlow | impact
deriving DecidableEq

inductive EvidenceKind where
 | definition | reference | dependency | dependent | call | traceStep | impactEdge | chunk
deriving DecidableEq

structure EvidenceEntry where
 kind : EvidenceKind
 filePath : String
 symbol : Option String
 lineStart : Option Nat
 lineEnd : Option Nat
 snippet : Option String
 reason : String
 source : EvidenceSource
 confidence : EvidenceConfidence
deriving DecidableEq

structure EvidenceBounds where
 hopCount : Option Nat
 nodeLimit : Option Nat
 traversalScope : Option String
 stopReason : Option String
deriving DecidableEq

structure EvidencePacket where
 answerState : AnswerState
 questionClass : QuestionClass
 subject : String
 summary : String
 conclusion : String
 evidence : List EvidenceEntry
 gaps : List String
 bounds : EvidenceBounds
deriving DecidableEq

def unknownPath : String := "<unknown>"

def pathOrUnknown (file : Option FileRow) : String := (file.map (·.relPath)).getD unknownPath

def dedupe (input : List String) : List String :=
 (input.insertionSort (· ≤ ·)).destutter (· ≠ ·)

/-! ## Impact -/

structure ImpactAnalysisQuery where
 workspaceId : Int
 target : String
 hopLimit : Nat
 nodeLimit : Nat

inductive ImpactCategory where
 | direct | transitive
deriving DecidableEq

structure ImpactNode where
 qualifiedName : String
 filePath : Option String
 category : ImpactCategory
 hopDistance : Nat
deriving DecidableEq

structure ImpactAnalysisResult where
 answerState : AnswerState
 impacted : List String
 impactNodes : List ImpactNode
 evidence : EvidencePacket
deriving DecidableEq

def impactNode (direct : Bool) (qualifiedName : String) (filePath : Option String) : ImpactNode :=
 if direct then ⟨qualifiedName,filePath,.direct,1⟩
 else ⟨qualifiedName,filePath,.transitive,2⟩

def impactResult (query : ImpactAnalysisQuery) (nodes : List ImpactNode) (conclusion scope : String)
 (evidence : EvidenceEntry) : ImpactAnalysisResult :=
 let state : AnswerState := if nodes.isEmpty then .insufficient else .grounded
 { answerState := state
   impacted := dedupe (nodes.map ImpactNode.qualifiedName)
   impactNodes := nodes
   evidence := ⟨state,.impact,query.target,"Impact analysis",conclusion,[evidence],[],
    ⟨some query.hopLimit,some query.nodeLimit,some scope,none⟩⟩ }

namespace Store

def fileImpact (query : ImpactAnalysisQuery) (file : FileRow) : List ImpactNode :=
 let direct := db.boundedFileNeighborhood query.workspaceId file.id 1 query.nodeLimit
 (db.boundedFileNeighborhood query.workspaceId file.id query.hopLimit query.nodeLimit).filterMap
  fun id => ((db.listFilesByWorkspace query.workspaceId).find? fun f => f.id = id).map fun f =>
   impactNode (id ∈ direct) f.relPath (some f.relPath)

def symbolImpact (query : ImpactAnalysisQuery) (symbol : Symbol) : List ImpactNode :=
 let direct := db.boundedSymbolNeighborhood query.workspaceId symbol.id 1 query.nodeLimit
 (db.boundedSymbolNeighborhood query.workspaceId symbol.id query.hopLimit
  query.nodeLimit).filterMap fun id =>
   (db.findSymbolById query.workspaceId id).map fun s => impactNode (id ∈ direct) s.qualifiedName
    ((db.findFileById query.workspaceId s.fileId).map (·.relPath))

def impactAnalysis (query : ImpactAnalysisQuery) : ImpactAnalysisResult :=
 match (db.listFilesByWorkspace query.workspaceId).find? fun f => f.relPath = query.target with
 | some file => impactResult query (db.fileImpact query file) "bounded file neighborhood"
  "impact_file_neighborhood"
  ⟨.impactEdge,file.relPath,none,none,none,none,
   "bounded neighborhood expansion from file",.graph,.grounded⟩
 | none =>
  match db.findSymbolDefinitions query.workspaceId query.target 1 with
  | symbol::_ => impactResult query (db.symbolImpact query symbol)
   "bounded symbol neighborhood" "impact_symbol_neighborhood"
   ⟨.impactEdge,pathOrUnknown (db.findFileById query.workspaceId symbol.fileId),
    some symbol.qualifiedName,some symbol.span.startLine,some symbol.span.endLine,none,
    "bounded neighborhood expansion from symbol",.graph,.grounded⟩
  | [] => ⟨.unsupported,[],[],⟨.unsupported,.impact,query.target,"Impact analysis",
   "target is not an indexed file or symbol",[],["unsupported target shape"],
   ⟨some 0,some query.nodeLimit,some "impact",some "unsupported_target"⟩⟩⟩

end Store
end DhKit.Queries
