import DhKit.KeyedTables

/-!
# Domain types of the indexer

The ids of files, symbols and chunks are hashes of a material string that the code assumes free of
collisions.
-/
namespace DhKit.Indexer
open KeyedTables

abbrev RootId := Int

abbrev Path := List String

def displayPath (path : Path) : String := "/" ++ String.intercalate "/" path

def replaceBackslash (text : String) : String :=
 String.ofList (text.toList.map fun c => if c = '\\' then '/' else c)

structure RelPath where
 text : String
 slashed : '\\' ∉ text.toList
deriving DecidableEq

theorem replaceBackslash_slashed (text : String) : '\\' ∉ (replaceBackslash text).toList := by
 intro h
 simp only [replaceBackslash,String.toList_ofList,List.mem_map] at h
 obtain ⟨c,-,hc⟩:=h
 by_cases hb : c = '\\'
 · simp [hb] at hc
 · simp [hb] at hc

def normalizeRelPath (path : List String) : RelPath :=
 ⟨replaceBackslash (String.intercalate "/" path),replaceBackslash_slashed _⟩

structure FileKey where
 rootId : RootId
 relPath : RelPath
deriving DecidableEq

/-- The id of a file row is the stable id of `file|workspace|root|rel_path`. -/
abbrev FileId := FileKey

inductive LanguageId where
 | typeScript | tsx | javaScript | jsx | python | go | rust | unknown
deriving DecidableEq

inductive ParseStatus where
 | pending | parsed | parsedWithErrors | failed | skipped
deriving DecidableEq

inductive FreshnessState where
 | retainedCurrent | refreshedCurrent | degradedPartial | notCurrent | deleted
deriving DecidableEq

inductive FreshnessReason where
 | unchangedUnaffected | contentChanged | structureChanged | publicApiChanged
 | dependentInvalidated | resolutionScopeChanged | deletedPath | pathInvalidated
 | recoverableParseIssues | fatalReadFailure | fatalParseFailure | fatalPersistFailure
deriving DecidableEq

structure Span where
 startByte : Nat
 endByte : Nat
 startLine : Nat
 startColumn : Nat
 endLine : Nat
 endColumn : Nat
deriving DecidableEq

structure File where
 rootId : RootId
 relPath : RelPath
 language : LanguageId
 sizeBytes : Nat
 mtimeUnixMs : Int
 contentHash : String
 structureHash : Option String
 publicApiHash : Option String
 parseStatus : ParseStatus
 parseError : Option String
 symbolCount : Nat
 chunkCount : Nat
 lastIndexedAtUnixMs : Option Int
 deletedAtUnixMs : Option Int
 freshnessState : FreshnessState
 freshnessReason : Option FreshnessReason
 lastFreshnessRunId : Option String
deriving DecidableEq

def fileKeyForFile (file : File) : FileKey := ⟨file.rootId,file.relPath⟩

inductive SymbolKind where
 | module | nameSpace | function | method | classDef | struct | interface | trait | typeAlias
 | enum | enumMember | variable | constant | field | property | parameter
deriving DecidableEq

/-- The material of a symbol id. The root of the file is not part of it. -/
structure SymbolId where
 relPath : RelPath
 qualifiedName : String
 kind : SymbolKind
 startByte : Nat
 endByte : Nat
 exported : Bool
 signature : String
deriving DecidableEq

structure Symbol where
 fileId : FileId
 kind : SymbolKind
 name : String
 qualifiedName : String
 signature : Option String
 exported : Bool
 asyncFlag : Bool
 staticFlag : Bool
 span : Span
deriving DecidableEq

def Symbol.id (symbol : Symbol) : SymbolId where
 relPath := symbol.fileId.relPath
 qualifiedName := symbol.qualifiedName
 kind := symbol.kind
 startByte := symbol.span.startByte
 endByte := symbol.span.endByte
 exported := symbol.exported
 signature := symbol.signature.getD ""

structure ChunkId where
 fileId : FileId
 label : String
deriving DecidableEq

structure Chunk where
 fileId : FileId
 label : String
 title : String
 content : String
 contentHash : String
deriving DecidableEq

def Chunk.id (chunk : Chunk) : ChunkId := ⟨chunk.fileId,chunk.label⟩

inductive ModuleResolutionStatus where
 | resolved | unresolved | ambiguous | external | notSafe | degraded
deriving DecidableEq

inductive ModuleResolutionReason where
 | relativePathResolved | indexFallbackResolved | aliasPathResolved | baseUrlResolved
 | workspacePackageResolved | packageExportResolved | crossRootResolved | externalPackage
 | missingSpecifier | nonLiteralSpecifier | missingSourcePath | missingRootContext | notFound
 | aliasTargetNotFound | packageTargetNotFound | ambiguousCandidates | crossRootAmbiguous
 | outsideAllowedRoots | configParseFailed | configExtendsDepthExceeded | configExtendsCycle
 | configExtendsMissing | configExtendsUnsupported | packageMetadataMissing
 | packageMetadataInvalid | packageExportUnsupported
deriving DecidableEq

def ModuleResolutionReason.asStr : ModuleResolutionReason → String
 | relativePathResolved => "relative_path_resolved"
 | indexFallbackResolved => "index_fallback_resolved"
 | aliasPathResolved => "alias_path_resolved"
 | baseUrlResolved => "base_url_resolved"
 | workspacePackageResolved => "workspace_package_resolved"
 | packageExportResolved => "package_export_resolved"
 | crossRootResolved => "cross_root_resolved"
 | externalPackage => "external_package"
 | missingSpecifier => "missing_specifier"
 | nonLiteralSpecifier => "non_literal_specifier"
 | missingSourcePath => "missing_source_path"
 | missingRootContext => "missing_root_context"
 | notFound => "not_found"
 | aliasTargetNotFound => "alias_target_not_found"
 | packageTargetNotFound => "package_target_not_found"
 | ambiguousCandidates => "ambiguous_candidates"
 | crossRootAmbiguous => "cross_root_ambiguous"
 | outsideAllowedRoots => "outside_allowed_roots"
 | configParseFailed => "config_parse_failed"
 | configExtendsDepthExceeded => "config_extends_depth_exceeded"
 | configExtendsCycle => "config_extends_cycle"
 | configExtendsMissing => "config_extends_missing"
 | configExtendsUnsupported => "config_extends_unsupported"
 | packageMetadataMissing => "package_metadata_missing"
 | packageMetadataInvalid => "package_metadata_invalid"
 | packageExportUnsupported => "package_export_unsupported"

structure ModuleResolution where
 status : ModuleResolutionStatus
 reason : ModuleResolutionReason
 resolvedAbsPath : Option Path
deriving DecidableEq

/-- The two readings the linker takes of an import's resolution text: the parsed
 resolution, and the path that follows `resolved_abs_path=`. -/
structure ResolutionError where
 parsed : Option ModuleResolution
 resolvedAbsPath : Option Path
deriving DecidableEq

inductive ImportKind where
 | esmDefault | esmNamed | esmNamespace | esmSideEffect | commonJsRequire | dynamic
 | conditionalRequire | reExport
deriving DecidableEq

structure Import where
 sourceFileId : FileId
 rawSpecifier : String
 importedName : Option String
 localName : Option String
 aliasName : Option String
 kind : ImportKind
 isTypeOnly : Bool
 isReexport : Bool
 resolvedFileId : Option FileId
 resolvedSymbolId : Option SymbolId
 span : Span
 resolutionError : Option ResolutionError
deriving DecidableEq

structure CallEdge where
 sourceFileId : FileId
 callerSymbolId : Option SymbolId
 calleeSymbolId : Option SymbolId
 calleeQualifiedName : Option String
 calleeDisplayName : String
 span : Span
deriving DecidableEq

structure Reference where
 sourceFileId : FileId
 sourceSymbolId : Option SymbolId
 targetSymbolId : Option SymbolId
 targetName : String
 span : Span
deriving DecidableEq

structure ExportFact where
 exportedName : String
 localName : Option String
 rawSpecifier : Option String
 isDefault : Bool
 isStar : Bool
 isTypeOnly : Bool
deriving DecidableEq

inductive NodeId where
 | file (id : FileId)
 | symbol (id : SymbolId)
 | chunk (id : ChunkId)
deriving DecidableEq

def NodeId.isFile : NodeId → Bool
 | .file _ => true
 | .symbol _ => false
 | .chunk _ => false

inductive EdgeKind where
 | contains | definition | imports | reExports | references | calls | extends | implements
 | typeReferences | exports | definesChunk
deriving DecidableEq

inductive EdgeResolution where
 | resolved | unresolved
deriving DecidableEq

inductive EdgeConfidence where
 | direct | bestEffort
deriving DecidableEq

/-- The keys of a call's or reference's payload that say how its name was resolved;
 `symbolId` is its `callee_symbol_id` or `target_symbol_id`. -/
structure SiteLink where
 linkStatus : String
 linkReason : String
 symbolId : Option SymbolId
 candidateSymbolIds : List SymbolId
deriving DecidableEq

/-- The keys of an edge's JSON payload that the linker reads back or writes again. -/
structure Payload where
 specifier : Option String
 importedName : Option String
 localName : Option String
 resolvedAbsPath : Option Path
 targetFileId : Option FileId
 calleeDisplayName : Option String
 calleeQualifiedName : Option String
 targetName : Option String
 link : Option SiteLink
deriving DecidableEq

def Payload.blank : Payload := ⟨none,none,none,none,none,none,none,none,none⟩

structure GraphEdge where
 kind : EdgeKind
 fromNode : NodeId
 toNode : NodeId
 resolution : EdgeResolution
 confidence : EdgeConfidence
 span : Option Span
 reason : String
 payload : Option Payload
deriving DecidableEq

def GraphEdge.isImport (edge : GraphEdge) : Bool :=
 edge.kind = .imports ∨ edge.kind = .reExports

structure FileCandidate where
 absPath : Path
 relPath : RelPath
 rootId : RootId
 language : LanguageId
 sizeBytes : Nat
 mtimeUnixMs : Int
deriving DecidableEq

def fileKeyForCandidate (candidate : FileCandidate) : FileKey :=
 ⟨candidate.rootId,candidate.relPath⟩

inductive IndexRunStatus where
 | idle | scanning | hashing | parsing | writing | completed | failed
deriving DecidableEq

structure IndexState where
 schemaVersion : Nat
 indexVersion : Nat
 status : IndexRunStatus
 activeRunId : Option String
 totalFiles : Nat
 indexedFiles : Nat
 dirtyFiles : Nat
 deletedFiles : Nat
 lastScanStartedAtUnixMs : Option Int
 lastScanFinishedAtUnixMs : Option Int
 lastSuccessfulIndexAtUnixMs : Option Int
 queuedEmbeddings : Nat
 lastError : Option String
deriving DecidableEq

def defaultStateFor : IndexState where
 schemaVersion := 1
 indexVersion := 0
 status := .idle
 activeRunId := none
 totalFiles := 0
 indexedFiles := 0
 dirtyFiles := 0
 deletedFiles := 0
 lastScanStartedAtUnixMs := none
 lastScanFinishedAtUnixMs := none
 lastSuccessfulIndexAtUnixMs := none
 queuedEmbeddings := 0
 lastError := none

end DhKit.Indexer
