import DhKit.IndexStorage
import DhKit.IndexSources

/-!
# Linking extracted facts into graph edges

`linkFile` turns the imports, calls and references of one file into edges against a snapshot of
files and symbols.
-/
namespace DhKit.Indexer
open KeyedTables

structure WorkspaceSnapshot where
 normalizePath : Path → Path
 filesByAbsPath : HashMap Path FileId
 symbols : List Symbol

def WorkspaceSnapshot.new (disk : Disk) (workspaceRoot : Path) (rootPaths : HashMap RootId Path)
 (files : List File) (symbols : List Symbol) : WorkspaceSnapshot where
 normalizePath := disk.normalizePath
 filesByAbsPath := HashMap.collect
  ((files.filter fun f => f.deletedAtUnixMs.isNone).map fun f =>
   (disk.normalizePath ((rootPaths.get f.rootId).getD (disk.normalizePath workspaceRoot)
    ++ relComponents f.relPath),fileKeyForFile f))
 symbols := symbols

def pushUnique {α : Type} [DecidableEq α] (unique : List α) (a : α) : List α :=
 if a ∈ unique then unique else unique++[a]

def uniqueSymbolIds (ids : List SymbolId) : List SymbolId := ids.foldl pushUnique []

def uniqueSymbolId : List SymbolId → Option SymbolId
 | [candidate] => some candidate
 | _ => none

variable (snapshot : WorkspaceSnapshot)

namespace WorkspaceSnapshot

def fileIdForAbsPath (path : Path) : Option FileId :=
 snapshot.filesByAbsPath.get (snapshot.normalizePath path)

def symbolForId (id : SymbolId) : Option Symbol :=
 snapshot.symbols.find? fun s => s.id = id

def answersTo (name : String) (symbol : Symbol) : Bool :=
 symbol.name = name ∨ symbol.qualifiedName = name

def exportedSymbols (fileId : FileId) (importedName : String) :
 List SymbolId :=
 uniqueSymbolIds ((snapshot.symbols.filter fun s =>
  s.fileId = fileId ∧ s.exported ∧ answersTo importedName s).map Symbol.id)

def symbolsInFile (fileId : FileId) (name : String) :
 List SymbolId :=
 uniqueSymbolIds ((snapshot.symbols.filter fun s =>
  s.fileId = fileId ∧ answersTo name s).map Symbol.id)

def symbolsByName (name : String) : List SymbolId :=
 uniqueSymbolIds ((snapshot.symbols.filter fun s => answersTo name s).map Symbol.id)

end WorkspaceSnapshot

structure ImportBinding where
 targetFileId : FileId
 importedName : Option String
 localName : String
deriving DecidableEq

structure SourceScope where
 importBindings : List ImportBinding
 namespaceImports : List (String × FileId)
deriving DecidableEq

variable (scope : SourceScope)

namespace SourceScope

def addImport (targetFileId : FileId) (importedName : Option String)
 (localName : Option String) : SourceScope :=
 match localName.filter (· ≠ "") with
 | none => scope
 | some name =>
  if importedName = some "*" then
   { scope with namespaceImports := scope.namespaceImports++[(name,targetFileId)] }
  else
   { scope with importBindings := scope.importBindings++[⟨targetFileId,importedName,name⟩] }

def directImports (localName : String) : List ImportBinding :=
 scope.importBindings.filter fun b => b.localName = localName

def namespaceTargets (localName : String) : List FileId :=
 (scope.namespaceImports.filter fun n => n.1 = localName).map Prod.snd

end SourceScope

def resolvedImportFileId (imp : Import) : Option FileId :=
 imp.resolvedFileId <|>
  (imp.resolutionError.bind fun e => e.parsed.bind fun r => r.resolvedAbsPath.bind
   snapshot.fileIdForAbsPath) <|>
  (imp.resolutionError.bind fun e => e.resolvedAbsPath.bind snapshot.fileIdForAbsPath)

def SourceScope.new (imports : List Import) : SourceScope :=
 imports.foldl (fun scope i => match resolvedImportFileId snapshot i with
  | none => scope
  | some target => scope.addImport target i.importedName i.localName) ⟨[],[]⟩

def targetFileId (edge : GraphEdge) (snapshot : WorkspaceSnapshot) : Option FileId :=
 match edge.toNode with
 | .file id => some id
 | .symbol id => (snapshot.symbolForId id).map Symbol.fileId
 | .chunk _ => none

def SourceScope.fromEdges (edges : List GraphEdge) : SourceScope :=
 edges.foldl (fun scope e => match e.isImport,e.payload with
  | true,some payload => match targetFileId e snapshot <|> payload.targetFileId with
   | none => scope
   | some target => scope.addImport target payload.importedName payload.localName
  | _,_ => scope) ⟨[],[]⟩

structure SymbolResolution where
 target : Option SymbolId
 linkStatus : String
 linkReason : String
 reasonDetail : String
 candidateSymbolIds : List SymbolId
deriving DecidableEq

def SymbolResolution.resolved (target : SymbolId) (linkReason : String) : SymbolResolution where
 target := some target
 linkStatus := "linked"
 linkReason := linkReason
 reasonDetail := linkReason
 candidateSymbolIds := [target]

def SymbolResolution.unresolved (linkReason reasonDetail : String) (candidates : List SymbolId) :
 SymbolResolution where
 target := none
 linkStatus := "unresolved"
 linkReason := linkReason
 reasonDetail := reasonDetail
 candidateSymbolIds := candidates

def SymbolResolution.prebound (target : SymbolId) : SymbolResolution :=
 .resolved target "prebound_symbol_id"

def SymbolResolution.siteLink (resolution : SymbolResolution) : SiteLink where
 linkStatus := resolution.linkStatus
 linkReason := resolution.linkReason
 symbolId := resolution.target
 candidateSymbolIds := resolution.candidateSymbolIds

def splitNamespaceQualifiedName (value : String) : Option (String × String) :=
 match splitChars '.' value.toList with
 | [space,member] =>
  if space = [] ∨ member = [] then none else some (String.ofList space,String.ofList member)
 | _ => none

def bindingCandidates (binding : ImportBinding) : List SymbolId :=
 snapshot.exportedSymbols binding.targetFileId
  ((binding.importedName.filter (· ≠ "default")).getD binding.localName) ++
  if binding.importedName = some "default" then
   snapshot.exportedSymbols binding.targetFileId "default"
  else []

def namespaceCandidates (qualifiedName : Option String) : List SymbolId :=
 match qualifiedName.bind splitNamespaceQualifiedName with
 | none => []
 | some (space,member) =>
  (scope.namespaceTargets space).flatMap fun id => snapshot.exportedSymbols id member

def importedSymbolCandidates (displayName : String) (qualifiedName : Option String) :
 List SymbolId :=
 uniqueSymbolIds
  ((scope.directImports displayName).flatMap (bindingCandidates snapshot) ++
   namespaceCandidates snapshot scope qualifiedName)

/-- A lookup step of `resolve_source_symbol`: one candidate resolves, several are
 ambiguous, none passes on to the next step. -/
def resolveAmong (candidates : List SymbolId) (linkReason ambiguousReason : String)
 (detail : Nat → String) (otherwise : SymbolResolution) : SymbolResolution :=
 match uniqueSymbolId candidates with
 | some target => .resolved target linkReason
 | none =>
  if candidates.length > 1 then
   .unresolved ambiguousReason (ambiguousReason ++ ": " ++ detail candidates.length) candidates
  else otherwise

def globalCandidates (displayName : String)
 (qualifiedName : Option String) : List SymbolId :=
 uniqueSymbolIds (snapshot.symbolsByName displayName ++
  snapshot.symbolsByName ((qualifiedName.filter (· ≠ "")).getD displayName))

variable (sourceFile : FileId)

def resolveSourceSymbol (displayName : Option String) (qualifiedName : Option String)
 (missingReason : String) :
 SymbolResolution :=
 match displayName.filter (· ≠ "") with
 | none => .unresolved missingReason missingReason []
 | some name =>
  resolveAmong (snapshot.symbolsInFile sourceFile name) "source_file_local_symbol_matched"
   "ambiguous_source_file_local_symbol"
   (fun n => toString n ++ " local candidates for '" ++ name ++ "'")
   (resolveAmong (importedSymbolCandidates snapshot scope name qualifiedName)
    "imported_symbol_matched" "ambiguous_imported_symbol"
    (fun n => toString n ++ " imported candidates for '" ++ name ++ "'")
    (resolveAmong (globalCandidates snapshot name qualifiedName)
     "unique_workspace_symbol_matched" "ambiguous_workspace_symbol"
     (fun n => toString n ++ " candidates for '" ++ name
      ++ "' remain after local/import scope lookup")
     (.unresolved missingReason missingReason [])))

def resolutionOf {α : Type} (target : Option α) : EdgeResolution :=
 if target.isSome then .resolved else .unresolved

def confidenceOf {α : Type} (target : Option α) : EdgeConfidence :=
 if target.isSome then .direct else .bestEffort

def importTarget (imp : Import) : Option NodeId :=
 let fileId := resolvedImportFileId snapshot imp
 let symbolId := imp.resolvedSymbolId <|> fileId.bind fun id => imp.importedName.bind fun name =>
  uniqueSymbolId (snapshot.exportedSymbols id name)
 let fileId := fileId <|> symbolId.bind fun id => (snapshot.symbolForId id).map Symbol.fileId
 fileId.map NodeId.file <|> symbolId.map NodeId.symbol

def importReason (imp : Import) : String :=
 match imp.resolutionError with
 | none => "missing_resolver_metadata"
 | some e => match e.parsed with
  | none => "resolver_metadata_unparsed"
  | some r => r.reason.asStr

def importPayload (imp : Import) (target : Option NodeId) : Payload :=
 { Payload.blank with
   specifier := some imp.rawSpecifier
   importedName := imp.importedName
   localName := imp.localName
   resolvedAbsPath := imp.resolutionError.bind fun e => e.parsed.bind fun r => r.resolvedAbsPath
   targetFileId := match target with
    | some (.file id) => some id
    | _ => none }

def linkImport (imp : Import) : GraphEdge :=
 let target := importTarget snapshot imp
 { kind := if imp.isReexport then .reExports else .imports
   fromNode := .file imp.sourceFileId
   toNode := target.getD (.file imp.sourceFileId)
   resolution := resolutionOf target
   confidence := confidenceOf target
   span := some imp.span
   reason :=
    if target.isSome then "resolved import '" ++ imp.rawSpecifier ++ "'"
    else "unresolved import '" ++ imp.rawSpecifier ++ "': " ++ importReason imp
   payload := some (importPayload imp target) }

def callResolution (call : CallEdge) : SymbolResolution :=
 match call.calleeSymbolId with
 | some target => .prebound target
 | none => resolveSourceSymbol snapshot scope sourceFile (some call.calleeDisplayName)
  call.calleeQualifiedName "callee_symbol_not_found"

def siteEdge (kind : EdgeKind) (word : String) (sourceFile : FileId) (source : Option SymbolId)
 (name : String) (span : Span) (resolution : SymbolResolution) (payload : Payload) :
 GraphEdge where
 kind := kind
 fromNode := (source.map NodeId.symbol).getD (.file sourceFile)
 toNode := (resolution.target.map NodeId.symbol).getD (.file sourceFile)
 resolution := resolutionOf resolution.target
 confidence := confidenceOf resolution.target
 span := some span
 reason :=
  if resolution.target.isSome then "resolved " ++ word ++ " '" ++ name ++ "'"
  else "unresolved " ++ word ++ " '" ++ name ++ "': " ++ resolution.reasonDetail
 payload := some payload

def linkCall (call : CallEdge) : GraphEdge :=
 siteEdge .calls "call" call.sourceFileId call.callerSymbolId call.calleeDisplayName call.span
  (callResolution snapshot scope sourceFile call)
  { Payload.blank with
    calleeDisplayName := some call.calleeDisplayName
    calleeQualifiedName := call.calleeQualifiedName
    link := some (callResolution snapshot scope sourceFile call).siteLink }

def referenceResolution (reference : Reference) : SymbolResolution :=
 match reference.targetSymbolId with
 | some target => .prebound target
 | none => resolveSourceSymbol snapshot scope sourceFile (some reference.targetName) none
  "target_symbol_not_found"

def linkReference (reference : Reference) : GraphEdge :=
 siteEdge .references "reference" reference.sourceFileId reference.sourceSymbolId
  reference.targetName reference.span (referenceResolution snapshot scope sourceFile reference)
  { Payload.blank with
    targetName := some reference.targetName
    link := some (referenceResolution snapshot scope sourceFile reference).siteLink }

def linkFile (imports : List Import)
 (callEdges : List CallEdge) (references : List Reference) : List GraphEdge :=
 let scope := SourceScope.new snapshot imports
 imports.map (linkImport snapshot)++callEdges.map (linkCall snapshot scope sourceFile) ++
  references.map (linkReference snapshot scope sourceFile)

def relinkImportEdge (edge : GraphEdge) : GraphEdge :=
 match edge.payload with
 | none => edge
 | some payload => match payload.resolvedAbsPath.bind snapshot.fileIdForAbsPath with
  | none => edge
  | some target =>
   { edge with
     toNode := .file target
     resolution := .resolved
     confidence := .direct
     reason := "resolved import '" ++ payload.specifier.getD "" ++ "'"
     payload := some { payload with targetFileId := some target } }

def relinkSite (word : String) (name : Option String) (resolution : SymbolResolution)
 (edge : GraphEdge) : GraphEdge :=
 let payload := edge.payload.map fun p => { p with link := some resolution.siteLink }
 match resolution.target with
 | none =>
  { edge with
    resolution := .unresolved
    confidence := .bestEffort
    reason := "unresolved " ++ word ++ " '" ++ name.getD "" ++ "': " ++ resolution.reasonDetail
    payload := payload }
 | some target =>
  { edge with
    toNode := .symbol target
    resolution := .resolved
    confidence := .direct
    reason := "resolved " ++ word ++ " '" ++ name.getD "" ++ "'"
    payload := payload }

def relinkCallEdge (edge : GraphEdge) : GraphEdge :=
 match edge.payload with
 | none => edge
 | some payload => relinkSite "call" payload.calleeDisplayName
  (resolveSourceSymbol snapshot scope sourceFile payload.calleeDisplayName
   payload.calleeQualifiedName "callee_symbol_not_found") edge

def relinkReferenceEdge (edge : GraphEdge) : GraphEdge :=
 match edge.payload with
 | none => edge
 | some payload => relinkSite "reference" payload.targetName
  (resolveSourceSymbol snapshot scope sourceFile payload.targetName none
   "target_symbol_not_found") edge

/-- Only an unresolved import, call or reference is tried again. -/
def relinkEdge (edge : GraphEdge) : GraphEdge :=
 match edge.kind,edge.resolution with
 | .imports,.unresolved => relinkImportEdge snapshot edge
 | .reExports,.unresolved => relinkImportEdge snapshot edge
 | .calls,.unresolved => relinkCallEdge snapshot scope sourceFile edge
 | .references,.unresolved => relinkReferenceEdge snapshot scope sourceFile edge
 | _,_ => edge

def relinkExistingEdges (edges : List GraphEdge) : List GraphEdge :=
 edges.map (relinkEdge snapshot (SourceScope.fromEdges snapshot edges) sourceFile)

/-- The rows of every live file are linked against the snapshot, then replaced in
 one transaction. -/
def Db.linkWorkspace (db : Db) (disk : Disk) (workspaceRoot : Path)
 (rootPaths : HashMap RootId Path) : Option Db :=
 let files := db.listFilesByWorkspace
 let snapshot := WorkspaceSnapshot.new disk workspaceRoot rootPaths files
  db.findSymbolsByWorkspace
 let relinked := (files.filter fun f => f.deletedAtUnixMs.isNone).map fun f =>
  (fileKeyForFile f,relinkExistingEdges snapshot (fileKeyForFile f)
   (db.findEdgesByFile (fileKeyForFile f)))
 relinked.foldlM (fun db entry =>
  (db.filterEdges fun r => !decide (r.sourceFileId = entry.1)).insertEdges entry.2 entry.1) db

end DhKit.Indexer
