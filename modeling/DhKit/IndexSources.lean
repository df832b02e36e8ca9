import Mathlib.Data.List.Sort
import Mathlib.Data.String.Basic
import DhKit.IndexTypes

/-!
# The workspace on disk and the facts extracted from it

A call sees one disk, and a parser is any function that keeps the promises the adapters keep.
-/
namespace DhKit.Indexer
open KeyedTables List

/-- Opening a file and reading its bytes can fail apart from each other. -/
inductive Access where
 | readable
 | readFails (err : String)
 | openFails (err : String)
deriving DecidableEq

structure DiskEntry where
 absPath : Path
 sizeBytes : Nat
 mtimeUnixMs : Int
 content : String
 access : Access
deriving DecidableEq

/-- The regular files of the file system, what the ignore rules leave out of the
 walk of a root, and the canonical form of the paths that exist. -/
structure Disk where
 entries : Table Path DiskEntry DiskEntry.absPath
 ignored : Path → Path → Bool
 canonicalize : Path → Option Path

namespace Disk

def openFile (disk : Disk) (path : Path) : Except String Unit :=
 match disk.entries.find path with
 | none => .error "No such file or directory"
 | some entry => match entry.access with
  | .openFails err => .error err
  | _ => .ok ()

def readFile (disk : Disk) (path : Path) : Except String String :=
 match disk.entries.find path with
 | none => .error "No such file or directory"
 | some entry => match entry.access with
  | .openFails err => .error err
  | .readFails err => .error err
  | .readable => .ok entry.content

def stripRoot : Path → Path → Option (List String)
 | [],path => some path
 | _::_,[] => none
 | r::root,p::path => if r = p then stripRoot root path else none

def normalizePathLexically (path : Path) : Path :=
 path.foldl (fun done c =>
  if c = "." then done else if c = ".." then done.dropLast else done ++ [c]) []

def normalizePath (disk : Disk) (path : Path) : Path :=
 (disk.canonicalize path).getD (normalizePathLexically path)

end Disk

def splitChars (sep : Char) : List Char → List (List Char)
 | [] => [[]]
 | c::cs =>
  if c = sep then []::splitChars sep cs
  else match splitChars sep cs with
   | [] => [[c]]
   | word::words => (c::word)::words

def relComponents (path : RelPath) : List String :=
 ((splitChars '/' path.text.toList).filter (· ≠ [])).map String.ofList

structure Blake3 where
 hex : String → String
 injective : Function.Injective hex
 hex_ne_empty : ∀ text,hex text ≠ ""

structure ExtractionContext where
 fileId : FileId
 source : String
 absPath : Path
 workspaceRoot : Path
 workspaceRoots : List Path
 packageRoots : List Path

/-- What an adapter reads from one source text. The adapters take callers from the
 symbols of the same file, and their binding passes leave targets unbound. -/
structure ParsedFacts (fileId : FileId) where
 hasErrors : Bool
 diagnostics : List String
 symbols : List Symbol
 imports : List Import
 exports : List ExportFact
 callEdges : List CallEdge
 references : List Reference
 chunks : List Chunk
 symbol_file : ∀ s ∈ symbols,s.fileId = fileId
 chunk_file : ∀ c ∈ chunks,c.fileId = fileId
 import_unbound : ∀ i ∈ imports,
  i.sourceFileId = fileId ∧ i.resolvedFileId = none ∧ i.resolvedSymbolId = none
 call_unbound : ∀ c ∈ callEdges,c.sourceFileId = fileId ∧ c.calleeSymbolId = none
 caller_local : ∀ c ∈ callEdges,∀ id ∈ c.callerSymbolId,id ∈ symbols.map Symbol.id
 reference_unbound : ∀ r ∈ references,r.sourceFileId = fileId ∧ r.targetSymbolId = none
 source_local : ∀ r ∈ references,∀ id ∈ r.sourceSymbolId,id ∈ symbols.map Symbol.id

structure Parser where
 parse : (fileId : FileId) → LanguageId → String → Except String (ParsedFacts fileId)
 resolve : Disk → ExtractionContext → String → ResolutionError

def SymbolKind.debug : SymbolKind → String
 | .module => "Module"
 | .nameSpace => "Namespace"
 | .function => "Function"
 | .method => "Method"
 | .classDef => "Class"
 | .struct => "Struct"
 | .interface => "Interface"
 | .trait => "Trait"
 | .typeAlias => "TypeAlias"
 | .enum => "Enum"
 | .enumMember => "EnumMember"
 | .variable => "Variable"
 | .constant => "Constant"
 | .field => "Field"
 | .property => "Property"
 | .parameter => "Parameter"

def ImportKind.debug : ImportKind → String
 | .esmDefault => "EsmDefault"
 | .esmNamed => "EsmNamed"
 | .esmNamespace => "EsmNamespace"
 | .esmSideEffect => "EsmSideEffect"
 | .commonJsRequire => "CommonJsRequire"
 | .dynamic => "Dynamic"
 | .conditionalRequire => "ConditionalRequire"
 | .reExport => "ReExport"

def fingerprintEntry (fields : List String) : String := String.intercalate "|" fields

def structureEntryOfSymbol (s : Symbol) : String :=
 fingerprintEntry ["S",s.kind.debug,s.qualifiedName,s.signature.getD "",toString s.exported,
  toString s.asyncFlag,toString s.staticFlag,toString s.span.startByte]

def structureEntryOfImport (i : Import) : String :=
 fingerprintEntry ["I",i.kind.debug,i.rawSpecifier,i.importedName.getD "",
  i.localName.getD "",i.aliasName.getD "",toString i.isTypeOnly,toString i.isReexport]

def exportEntry (tag : String) (e : ExportFact) : String :=
 fingerprintEntry [tag,e.exportedName,e.localName.getD "",e.rawSpecifier.getD "",
  toString e.isDefault,toString e.isStar,toString e.isTypeOnly]

def publicEntryOfSymbol (s : Symbol) : String :=
 fingerprintEntry ["PS",s.kind.debug,s.qualifiedName,s.signature.getD "",
  toString s.span.startByte]

def joinSorted (entries : List String) : String :=
 String.intercalate "\n" (entries.insertionSort (· ≤ ·))

section
variable (blake3 : Blake3) (symbols : List Symbol) (imports : List Import)
 (exports : List ExportFact)

def structureFingerprint : String :=
 blake3.hex (joinSorted (symbols.map structureEntryOfSymbol++imports.map structureEntryOfImport
  ++ exports.map (exportEntry "E")))

def publicApiFingerprint :
 String :=
 blake3.hex (joinSorted ((symbols.filter Symbol.exported).map publicEntryOfSymbol
  ++ exports.map (exportEntry "PE")))

end

structure ExtractedFacts where
 parseStatus : ParseStatus
 parseError : Option String
 hasErrors : Bool
 symbols : List Symbol
 imports : List Import
 callEdges : List CallEdge
 references : List Reference
 chunks : List Chunk
 structureFingerprint : String
 publicApiFingerprint : String

def ExtractedFacts.skipped : ExtractedFacts :=
 ⟨.skipped,none,false,[],[],[],[],[],"",""⟩

def resolveImports (parser : Parser) (disk : Disk) (ctx : ExtractionContext)
 (imports : List Import) : List Import :=
 imports.map fun i =>
  if i.resolvedFileId.isSome ∨ i.resolvedSymbolId.isSome then i
  else { i with resolutionError := some (parser.resolve disk ctx i.rawSpecifier) }

def extractFileFacts (blake3 : Blake3) (parser : Parser) (disk : Disk) (language : LanguageId)
 (ctx : ExtractionContext) : Except String ExtractedFacts :=
 if language = .unknown then .ok .skipped
 else match parser.parse ctx.fileId language ctx.source with
  | .error err => .error err
  | .ok facts =>
   let imports := resolveImports parser disk ctx facts.imports
   .ok
    { parseStatus :=
       if facts.hasErrors ∨ facts.diagnostics≠[] then .parsedWithErrors else .parsed
      parseError :=
       if facts.diagnostics = [] then none
       else some (String.intercalate "; " (facts.diagnostics.take 5))
      hasErrors := facts.hasErrors
      symbols := facts.symbols
      imports := imports
      callEdges := facts.callEdges
      references := facts.references
      chunks := facts.chunks
      structureFingerprint := structureFingerprint blake3 facts.symbols imports facts.exports
      publicApiFingerprint := publicApiFingerprint blake3 facts.symbols facts.exports }

/-- The promises of `ParsedFacts` as they reach the indexer. -/
structure ExtractedFacts.Local (facts : ExtractedFacts) (fileId : FileId) : Prop where
 symbol_file : ∀ s ∈ facts.symbols,s.fileId = fileId
 chunk_file : ∀ c ∈ facts.chunks,c.fileId = fileId
 import_unbound : ∀ i ∈ facts.imports,
  i.sourceFileId = fileId ∧ i.resolvedFileId = none ∧ i.resolvedSymbolId = none
 call_unbound : ∀ c ∈ facts.callEdges,c.sourceFileId = fileId ∧ c.calleeSymbolId = none
 caller_local : ∀ c ∈ facts.callEdges,∀ id ∈ c.callerSymbolId,id ∈ facts.symbols.map Symbol.id
 reference_unbound : ∀ r ∈ facts.references,r.sourceFileId = fileId ∧ r.targetSymbolId = none
 source_local : ∀ r ∈ facts.references,∀ id ∈ r.sourceSymbolId,
  id ∈ facts.symbols.map Symbol.id

theorem extractFileFacts_local {blake3 : Blake3} {parser : Parser} {disk : Disk}
 {language : LanguageId} {ctx : ExtractionContext} {facts : ExtractedFacts}
 (h:extractFileFacts blake3 parser disk language ctx = .ok facts) :
 facts.Local ctx.fileId := by
 unfold extractFileFacts at h
 split at h
 · cases h
   constructor <;> simp [ExtractedFacts.skipped]
 split at h
 · cases h
 · next parsed _ =>
   cases h
   refine ⟨parsed.symbol_file,parsed.chunk_file,?_,parsed.call_unbound,parsed.caller_local,
    parsed.reference_unbound,parsed.source_local⟩
   intro i hi
   obtain ⟨j,hj,rfl⟩:=mem_map.mp hi
   obtain ⟨hfi,hf,hs⟩:=parsed.import_unbound j hj
   simp [hfi,hf,hs]

def Blake3.tagged : Blake3 where
 hex text := "#" ++ text
 injective := by
  intro a b h
  have := congrArg String.toList h
  simpa [String.toList_append,String.toList_inj] using this
 hex_ne_empty text h := by
  have := congrArg String.toList h
  simp [String.toList_append] at this

/-- A source text by what it declares and uses; a site names the index of the
 symbol that encloses it. -/
structure SourceSketch where
 hasErrors : Bool
 symbols : List (String × Nat × Nat)
 imports : List (String × String × Bool)
 calls : List (Option Nat × String)
 references : List (Option Nat × String)

def SourceSketch.blank : SourceSketch := ⟨false,[],[],[],[]⟩

def Span.ofBytes (startByte endByte : Nat) : Span := ⟨startByte,endByte,1,startByte,1,endByte⟩

namespace SourceSketch
variable (sketch : SourceSketch) (fileId : FileId)

def symbolRows : List Symbol :=
 sketch.symbols.map fun s => ⟨fileId,.function,s.1,s.1,none,true,false,false,
  Span.ofBytes s.2.1 s.2.2⟩

def enclosing (index : Option Nat) : Option SymbolId :=
 index.bind fun i => ((sketch.symbolRows fileId).map Symbol.id)[i]?

def importRows : List Import :=
 sketch.imports.map fun i => ⟨fileId,i.1,some i.2.1,some i.2.1,none,
  if i.2.2 then .reExport else .esmNamed,false,i.2.2,none,none,Span.ofBytes 0 0,none⟩

def callRows : List CallEdge :=
 sketch.calls.map fun c =>
  ⟨fileId,sketch.enclosing fileId c.1,none,none,c.2,Span.ofBytes 0 0⟩

def referenceRows : List Reference :=
 sketch.references.map fun r =>
  ⟨fileId,sketch.enclosing fileId r.1,none,r.2,Span.ofBytes 0 0⟩

theorem enclosing_local {index : Option Nat} {id : SymbolId}
 (h:id∈sketch.enclosing fileId index) : id∈(sketch.symbolRows fileId).map Symbol.id := by
 simp only [enclosing,Option.mem_def,Option.bind_eq_some_iff] at h
 obtain ⟨i,-,hi⟩:=h
 exact mem_of_getElem? hi

def facts : ParsedFacts fileId where
 hasErrors := sketch.hasErrors
 diagnostics := []
 symbols := sketch.symbolRows fileId
 imports := sketch.importRows fileId
 exports := []
 callEdges := sketch.callRows fileId
 references := sketch.referenceRows fileId
 chunks := [⟨fileId,"header","header","",""⟩]
 symbol_file := forall_mem_map.mpr fun _ _ => rfl
 chunk_file := by simp
 import_unbound := forall_mem_map.mpr fun _ _ => ⟨rfl,rfl,rfl⟩
 call_unbound := forall_mem_map.mpr fun _ _ => ⟨rfl,rfl⟩
 caller_local := by
  intro c hc id hid
  obtain ⟨d,-,rfl⟩ := mem_map.mp hc
  exact sketch.enclosing_local fileId hid
 reference_unbound := forall_mem_map.mpr fun _ _ => ⟨rfl,rfl⟩
 source_local := by
  intro r hr id hid
  obtain ⟨d,-,rfl⟩ := mem_map.mp hr
  exact sketch.enclosing_local fileId hid

end SourceSketch

/-- The parser of a language whose texts are listed with their sketches, and whose
 specifiers are listed with the paths they resolve to. -/
def Parser.ofTable (sketches : List (String × SourceSketch)) (paths : List (String × Path)) :
 Parser where
 parse fileId _ source := match sketches.find? fun s => s.1 = source with
  | some (_,sketch) => .ok (sketch.facts fileId)
  | none => .error "unexpected token"
 resolve _ _ specifier := match paths.find? fun p => p.1 = specifier with
  | some (_,path) => ⟨some ⟨.resolved,.relativePathResolved,some path⟩,none⟩
  | none => ⟨some ⟨.unresolved,.notFound,none⟩,none⟩

def Disk.ofFiles (entries : Table Path DiskEntry DiskEntry.absPath) : Disk where
 entries := entries
 ignored _ _ := false
 canonicalize := some

end DhKit.Indexer
