import Mathlib.Data.List.Dedup
import Mathlib.Data.String.Basic
import DhKit.JsonRpc
import DhKit.PosixPaths

/-!
# The module resolver

The file that an import specifier names, by way of a path, the nearest `tsconfig.json` or the
packages of the workspace.
-/
namespace DhKit.Modules
open JsonRpc

/-! ## Paths -/

/-- The components of a path: `/` only at the beginning of an absolute path, `.` only at the
beginning of a relative one. -/
abbrev Path := List String

variable (p : Path)

namespace Path

def ofText (text : String) : Path :=
 let parts := PosixPaths.parts text
 (if PosixPaths.isAbsolute text then ["/"] else if parts.head? = some "." then ["."] else []) ++
  parts.filter fun part => part ≠ "" ∧ part ≠ "."

def isAbsolute : Bool := p.head? = some "/"

def join (p q : Path) : Path :=
 if isAbsolute q ∨ p = [] then q else p ++ q.filter (· ≠ ".")

def parent : Option Path := if p = [] ∨ p = ["/"] then none else some p.dropLast

def fileName : Option String :=
 p.getLast?.filter fun name => name ∉ ["/",".",".."]

/-- The stem and the extension of a name that has one: what stands before and after its last dot,
the beginning of the name apart. -/
def splitAtDot (name : String) : Option (String × String) :=
 match name.toList.reverse.dropWhile (· ≠ '.') with
 | _::c::before => some (String.ofList (c::before).reverse,
  String.ofList (name.toList.reverse.takeWhile (· ≠ '.')).reverse)
 | _ => none

def extension : Option String := ((fileName p).bind splitAtDot).map Prod.snd

/-- A name `.` behind another component is none. -/
def pushName (name : String) : Path := if name = "." ∧ p ≠ [] then p else p ++ [name]

def stem (name : String) : String := ((splitAtDot name).map Prod.fst).getD name

def withExtension (ext : String) : Path :=
 match fileName p with
 | none => p
 | some name =>
  pushName p.dropLast (if ext = "" then stem name else stem name ++ "." ++ ext)

def normalStep (absolute : Bool) (normalized : Path) (component : String) : Path :=
 if component = "." then normalized
 else if component = ".." then
  match parent normalized with
  | some up => up
  | none => if absolute then normalized else normalized ++ [".."]
 else normalized++[component]

def normalizePathLexically : Path :=
 let normalized := p.foldl (normalStep (isAbsolute p)) []
 if normalized = [] then ["."] else normalized

def pathFromBase (base : Path) (target : String) : Path :=
 normalizePathLexically (join base (ofText target))

end Path

open Modules.Path

/-- What the resolver sees of the disk, which stays as it is meanwhile: a real path is its own real
path and leads to the same file. -/
structure FileSystem where
 isFile : Path → Bool
 canonicalize : Path → Option Path
 /-- The content, or the text of the error. -/
 readToString : Path → Except String String
 readDir : Path → Option (List Path)
 canonical_of_file : ∀ {p},isFile p → ∃ q,canonicalize p = some q
 isFile_canonical : ∀ {p q},canonicalize p = some q → isFile q = isFile p
 canonical_canonical : ∀ {p q},canonicalize p = some q → canonicalize q = some q

variable (fs : FileSystem)

def FileSystem.canonicalizeIfExists (p : Path) : Path :=
 (fs.canonicalize p).getD (normalizePathLexically p)

def FileSystem.pathIsWithin (path root : Path) : Bool :=
 (fs.canonicalizeIfExists root).isPrefixOf (fs.canonicalizeIfExists path)

/-! ## Resolutions -/

inductive Status where
 | resolved | unresolved | ambiguous | external | outside | degraded
deriving DecidableEq

inductive Kind where
 | relative | absolute | alias | baseUrl | workspacePackage | packageExport | external
deriving DecidableEq

inductive Reason where
 | relativePathResolved | indexFallbackResolved | aliasPathResolved | baseUrlResolved
 | workspacePackageResolved | packageExportResolved | crossRootResolved | externalPackage
 | missingSpecifier | nonLiteralSpecifier | missingSourcePath | missingRootContext | notFound
 | aliasTargetNotFound | packageTargetNotFound | ambiguousCandidates | crossRootAmbiguous
 | outsideAllowedRoots | configParseFailed | configExtendsDepthExceeded | configExtendsCycle
 | configExtendsMissing | configExtendsUnsupported | packageMetadataMissing
 | packageMetadataInvalid | packageExportUnsupported
deriving DecidableEq

/-- The confidence is in hundredths. -/
structure ModuleResolution where
 specifier : String
 status : Status
 reason : Reason
 resolvedAbsPath : Option Path := none
 resolutionKind : Option Kind
 configPath : Option Path := none
 sourceRoot : Option Path
 targetRoot : Option Path := none
 confidence : Nat
 candidates : List Path := []
 detail : Option String := none

/-! ## The configuration -/

structure PathMapping where
 pattern : String
 targets : List String
 baseDir : Path

structure TsConfig where
 configPath : Path
 baseUrl : Option Path
 paths : List PathMapping

inductive ConfigLoadProblem where
 | parse (path : Path) (message : String)
 | extendsDepthExceeded (path : Path)
 | extendsCycle (path : Path)
 | extendsMissing (path : Path)
 | extendsUnsupported (value : String)

def display : String :=
 match p with
 | "/" :: rest => "/" ++ "/".intercalate rest
 | _ => "/".intercalate p

namespace ConfigLoadProblem

def reason : ConfigLoadProblem → Reason
 | .parse .. => .configParseFailed
 | .extendsDepthExceeded _ => .configExtendsDepthExceeded
 | .extendsCycle _ => .configExtendsCycle
 | .extendsMissing _ => .configExtendsMissing
 | .extendsUnsupported _ => .configExtendsUnsupported

def detail : ConfigLoadProblem → String
 | .parse path message => "failed to parse " ++ display path ++ ": " ++ message
 | .extendsDepthExceeded path => "tsconfig/jsconfig extends depth exceeded at " ++ display path
 | .extendsCycle path => "tsconfig/jsconfig extends cycle at " ++ display path
 | .extendsMissing path => "extended tsconfig/jsconfig not found: " ++ display path
 | .extendsUnsupported value =>
  "package-style tsconfig/jsconfig extends is unsupported: " ++ value

end ConfigLoadProblem

def asObject : Json → Option (List (String × Json))
 | .object fields => some fields
 | _ => none

def targetTexts : Json → List String
 | .array items => items.filterMap Json.asStr
 | .string text => [text]
 | _ => []

section
variable (fs : FileSystem) (fromStr : String → Except String Json)

def resolveExtendsPath (configDir : Path) (target : String) : Except ConfigLoadProblem Path :=
 if target.toList.head? ≠ some '.' ∧ target.toList.head? ≠ some '/' then
  .error (.extendsUnsupported target)
 else
  let raw := pathFromBase configDir target
  let candidates := if (extension raw).isSome then [raw,join raw ["tsconfig.json"]]
   else [raw,withExtension raw "json",join raw ["tsconfig.json"]]
  match candidates.find? fs.isFile with
  | some candidate => .ok (fs.canonicalizeIfExists candidate)
  | none => .error (.extendsMissing raw)

def addMapping (baseDir : Path) (config : TsConfig) (field : String × Json) : TsConfig :=
 { config with paths := config.paths.filter (·.pattern≠field.1) ++
    [⟨field.1,targetTexts field.2,baseDir⟩] }

def applyOptions (configDir : Path) (options : Json) (config : TsConfig) : TsConfig :=
 let config := match (options.get "baseUrl").bind Json.asStr with
  | some baseUrl => { config with baseUrl := some (pathFromBase configDir baseUrl) }
  | none => config
 match (options.get "paths").bind asObject with
 | some fields => fields.foldl (addMapping (config.baseUrl.getD configDir)) config
 | none => config

def maxExtendsDepth : Nat := 8

/-- None when `fuel` nested calls are not enough; `fromStr` is `serde_json::from_str` after the
comments have been stripped. -/
def loadTsConfigRecursive :
 Nat → Path → Nat → List Path → Option (Except ConfigLoadProblem TsConfig)
 | 0,_,_,_ => none
 | fuel+1,path,depth,visited =>
  let path := fs.canonicalizeIfExists path
  if maxExtendsDepth < depth then some (.error (.extendsDepthExceeded path))
  else if path ∈ visited then some (.error (.extendsCycle path))
  else
   match (fs.readToString path).bind fromStr with
   | .error message => some (.error (.parse path message))
   | .ok value =>
    let configDir := (parent path).getD ["."]
    let finish (config : TsConfig) : TsConfig :=
     let config := { config with configPath := path }
     match (value.get "compilerOptions").filter fun options => (asObject options).isSome with
     | some options => applyOptions configDir options config
     | none => config
    match (value.get "extends").bind Json.asStr with
    | none => some (.ok (finish ⟨path,none,[]⟩))
    | some target =>
     match resolveExtendsPath fs configDir target with
     | .error problem => some (.error problem)
     | .ok base =>
      (loadTsConfigRecursive fuel base (depth+1) (path::visited)).map fun loaded =>
       loaded.map finish

/-- The recursion ends at the depth that is not allowed, whatever extends what. -/
theorem loadTsConfigRecursive_isSome {fuel depth : Nat} (h:maxExtendsDepth+2 ≤ fuel+depth)
 (hde:depth ≤ maxExtendsDepth+1) (path : Path) (visited : List Path) :
 (loadTsConfigRecursive fs fromStr fuel path depth visited).isSome := by
 induction fuel generalizing path depth visited with
 | zero => omega
 | succ fuel ih =>
  unfold loadTsConfigRecursive
  dsimp only
  split_ifs with hdee hse
  · rfl
  · rfl
  split
  · rfl
  split
  · rfl
  split
  · rfl
  · rw [Option.isSome_map]
    exact ih (by omega) (by omega) _ _

def loadTsConfig (path : Path) : Except ConfigLoadProblem TsConfig :=
 (loadTsConfigRecursive fs fromStr (maxExtendsDepth+2) (fs.canonicalizeIfExists path) 0 []).getD
  (.error (.extendsDepthExceeded path))

end

/-! ## Patterns and packages -/

def matchPathPattern (pattern specifier : String) : Option String :=
 let stars := pattern.toList.count '*'
 if stars = 0 then if pattern = specifier then some "" else none
 else if stars≠1 then none
 else
  let before := pattern.toList.takeWhile (· ≠ '*')
  let after := (pattern.toList.dropWhile (· ≠ '*')).drop 1
  let text := specifier.toList
  if ¬ before.isPrefixOf text ∨ ¬ after.isSuffixOf text then none
  else if text.length < before.length+after.length then none
  else some (String.ofList ((text.drop before.length).take
   (text.length-before.length-after.length)))

def applyTargetPattern (target capture : String) : String :=
 if target.toList.count '*' = 1 then
  String.ofList (target.toList.flatMap fun c => if c = '*' then capture.toList else [c])
 else target

def exportKeys : List String :=
 ["types","import","module","require","default","browser","node"]

mutual
def firstExportString : Json → Option String
 | .string text => some text
 | .object fields =>
  let texts := exportStrings fields
  exportKeys.findSome? fun key => (texts.find? (·.1 = key)).bind Prod.snd
 | _ => none
def exportStrings : List (String × Json) → List (String × Option String)
 | [] => []
 | (key,value)::fields => (key,firstExportString value)::exportStrings fields
end

/-- The targets of an export, and whether its shape is not supported. -/
def exportTargets (exports : Json) (subpath : String) : List String × Bool :=
 match if subpath = "" then firstExportString exports else none with
 | some target => ([target],false)
 | none =>
  match exports with
  | .object fields =>
   let exportKey := if subpath = "" then "." else "./" ++ subpath
   match (exports.get exportKey).bind firstExportString with
   | some target => ([target],false)
   | none =>
    match fields.findSome? fun field => (matchPathPattern field.1 exportKey).map (field.2,·) with
    | some (value,capture) =>
     match firstExportString value with
     | some target => ([applyTargetPattern target capture],false)
     | none => ([],true)
    | none => ([],false)
  | .string _ => ([],false)
  | _ => ([],true)

structure PackageMetadata where
 root : Path
 name : Option String := none
 exports : Option Json := none
 entryFields : List String := []
 invalidMetadata : Bool := false

/-- The targets, whether they are exports, and whether the exports are not supported. -/
def PackageMetadata.resolveTargets (package : PackageMetadata) (subpath : String) :
 List String × Bool × Bool :=
 let plain := if subpath = "" then package.entryFields ++ ["."] else [subpath]
 match package.exports.map (exportTargets · subpath) with
 | some (targets,unsupported) =>
  if targets≠[] ∨ unsupported then (targets,true,unsupported) else (plain,false,false)
 | none => (plain,false,false)

def loadPackageMetadata (fromStr : String → Except String Json) (root : Path) :
 PackageMetadata :=
 let root := fs.canonicalizeIfExists root
 let packageJson := join root ["package.json"]
 if ¬ fs.isFile packageJson then { root := root }
 else
  match (fs.readToString packageJson).bind fromStr with
  | .error _ => { root := root,invalidMetadata := true }
  | .ok value =>
   { root := root
     name := (value.get "name").bind Json.asStr
     exports := value.get "exports"
     entryFields := ["types","module","main","browser"].filterMap fun key =>
      (value.get key).bind Json.asStr }

/-! ## The resolver -/

structure ResolverContext where
 sourcePath : Option Path
 workspaceRoot : Option Path
 workspaceRoots : List Path
 packageRoots : List Path

structure ModuleResolver where
 fs : FileSystem
 fromStr : String → Except String Json
 context : ResolverContext
 allowedRoots : List Path
 packages : List PackageMetadata

def dedupePaths (paths : List Path) : List Path :=
 (paths.map fs.canonicalizeIfExists).reverse.dedup.reverse

def discoverWorkspacePackageRoots (roots : List Path) : List Path :=
 let isPackage (path : Path) : Bool := fs.isFile (join path ["package.json"])
 let entries (path : Path) : List Path := (fs.readDir path).getD []
 dedupePaths fs (roots.flatMap fun root =>
  (if isPackage root then [root] else []) ++
   (["packages","apps"].flatMap fun container => entries (join root [container])).flatMap
    fun path =>
     if isPackage path then [fs.canonicalizeIfExists path]
     else if (fileName path).any fun name => name.toList.head? = some '@' then
      ((entries path).filter isPackage).map fs.canonicalizeIfExists
     else [])

inductive PathProbe where
 | found (candidates : List Path) (usedIndex : Bool)
 | outside (path : Path)
 | notFound

def probeExtensions : List String := ["ts","tsx","js","jsx","mjs"]

def gather (probes : List PathProbe) : List Path × Option Path :=
 probes.foldl (fun (candidates,escaped) probe =>
  match probe with
  | .found found _ => (candidates++found,escaped)
  | .outside path => (candidates,some path)
  | .notFound => (candidates,escaped)) ([],none)

namespace ModuleResolver

def new (fromStr : String → Except String Json) (context : ResolverContext) :
 ModuleResolver :=
 let roots := (context.workspaceRoots++context.workspaceRoot.toList ++
  context.packageRoots).map fs.canonicalizeIfExists
 let packageRoots := if context.packageRoots = [] then discoverWorkspacePackageRoots fs roots
  else context.packageRoots
 { fs := fs
   fromStr := fromStr
   context := context
   allowedRoots := dedupePaths fs (roots++packageRoots.map fs.canonicalizeIfExists)
   packages := (dedupePaths fs packageRoots).map (loadPackageMetadata fs fromStr) }

variable (resolver : ModuleResolver)

def isAllowedPath (path : Path) : Bool :=
 resolver.allowedRoots.any fun root => resolver.fs.pathIsWithin path root

def probeFirst (paths : List Path) (usedIndex : Bool) : Option PathProbe :=
 (paths.find? resolver.fs.isFile).map fun path =>
  let exact := resolver.fs.canonicalizeIfExists path
  if resolver.isAllowedPath exact then .found [exact] usedIndex else .outside exact

def probePath (base : Path) : PathProbe :=
 let base := normalizePathLexically base
 if resolver.allowedRoots = [] ∨ ¬ resolver.isAllowedPath base then .outside base
 else
  let baseWithoutExt := if (extension base).isSome then some (withExtension base "") else none
  let probeBase := baseWithoutExt.getD base
  ((resolver.probeFirst (base::baseWithoutExt.toList) false).orElse fun _ =>
   (resolver.probeFirst (probeExtensions.map (withExtension probeBase)) false).orElse fun _ =>
    resolver.probeFirst (probeExtensions.map fun ext => join probeBase ["index." ++ ext])
     true).getD .notFound

def sourcePath : Option Path := resolver.context.sourcePath.map resolver.fs.canonicalizeIfExists

def bestRootFor (path : Path) : Option Path :=
 let path := resolver.fs.canonicalizeIfExists path
 (resolver.allowedRoots.filter (·.isPrefixOf path)).foldl (fun best root =>
  if best.any (root.length < ·.length) then best else some root) none

def sourceRoot : Option Path := resolver.sourcePath.bind resolver.bestRootFor

variable (specifier : String)

def basicResolution (status : Status) (reason : Reason) (kind : Option Kind)
 (confidence : Nat) (detail : Option String) : ModuleResolution :=
 { specifier,status,reason,resolutionKind := kind,sourceRoot := resolver.sourceRoot,
   confidence,detail }

def unresolvedResolution (reason : Reason) (kind : Option Kind)
 (configPath : Option Path) (detail : Option String) : ModuleResolution :=
 { specifier,status := .unresolved,reason,resolutionKind := kind,configPath,
   sourceRoot := resolver.sourceRoot,confidence := 0,detail }

def unsafeResolution (kind : Kind) (path : Path) (detail : String) :
 ModuleResolution :=
 { specifier,status := .outside,reason := .outsideAllowedRoots,resolutionKind := some kind,
   sourceRoot := resolver.sourceRoot,confidence := 0,
   candidates := [normalizePathLexically path],detail := some detail }

def normalizeDedupSort (candidates : List Path) : List Path :=
 (candidates.map resolver.fs.canonicalizeIfExists).dedup.mergeSort fun p q => decide (p ≤ q)

def finalizeCandidates (kind : Kind) (candidates : List Path)
 (resolvedReason : Reason) (configPath : Option Path) : ModuleResolution :=
 match resolver.normalizeDedupSort candidates with
 | [] => resolver.unresolvedResolution specifier .notFound (some kind) configPath none
 | [path] =>
  let targetRoot := resolver.bestRootFor path
  let isCrossRoot := resolver.sourceRoot.isSome ∧ targetRoot.isSome ∧
   resolver.sourceRoot≠targetRoot
  { specifier,status := .resolved,
    reason := if isCrossRoot then .crossRootResolved else resolvedReason,
    resolvedAbsPath := some path,resolutionKind := some kind,configPath,
    sourceRoot := resolver.sourceRoot,targetRoot,
    confidence := if isCrossRoot then 90 else 100 }
 | several =>
  { specifier,status := .ambiguous,
    reason := if 1 < (several.filterMap resolver.bestRootFor).dedup.length then
     .crossRootAmbiguous else .ambiguousCandidates,
    resolutionKind := some kind,configPath,sourceRoot := resolver.sourceRoot,confidence := 40,
    candidates := several,
    detail := some "specifier matched multiple existing module candidates" }

/-- `resolve_relative` and `resolve_absolute` once the base is known. -/
def resolveBase (kind : Kind) (base : Path) (escapes : String) :
 ModuleResolution :=
 match resolver.probePath base with
 | .found candidates usedIndex =>
  resolver.finalizeCandidates specifier kind candidates
   (if usedIndex then .indexFallbackResolved else .relativePathResolved) none
 | .outside path => resolver.unsafeResolution specifier kind path escapes
 | .notFound => resolver.unresolvedResolution specifier .notFound (some kind) none none

def resolveRelative : ModuleResolution :=
 let degraded (reason : Reason) : ModuleResolution :=
  resolver.basicResolution specifier .degraded reason (some .relative) 10 none
 match resolver.sourcePath with
 | none => degraded .missingSourcePath
 | some sourcePath =>
  if resolver.allowedRoots = [] then degraded .missingRootContext
  else
   match parent sourcePath with
   | none => degraded .missingSourcePath
   | some sourceDir =>
    resolver.resolveBase specifier .relative (join sourceDir (ofText specifier))
     "relative specifier escapes configured workspace/package roots"

def resolveAbsolute : ModuleResolution :=
 if resolver.allowedRoots = [] then
  resolver.basicResolution specifier .degraded .missingRootContext (some .absolute) 10 none
 else
  resolver.resolveBase specifier .absolute (ofText specifier)
   "absolute specifier is outside configured workspace/package roots"

def configIn (dir : Path) : Option Path :=
 ((["tsconfig.json","jsconfig.json"].map fun name => join dir [name]).find?
  resolver.fs.isFile).map resolver.fs.canonicalizeIfExists

/-- The directories from `dir` upwards, at most `n` of them above it. -/
def configAbove (boundary : Option Path) : Nat → Path → Option Path
 | 0,dir => resolver.configIn dir
 | n+1,dir =>
  (resolver.configIn dir).orElse fun _ =>
   if boundary = some dir then none else (parent dir).bind (configAbove boundary n)

def findNearestConfig (sourcePath : Path) : Option Path :=
 (parent sourcePath).bind fun dir =>
  resolver.configAbove (resolver.bestRootFor sourcePath) dir.length dir

def aliasProbes (config : TsConfig) (specifier : String) : Option (List PathProbe) :=
 match config.paths.filterMap fun mapping =>
  (matchPathPattern mapping.pattern specifier).map fun capture =>
   mapping.targets.map fun target => resolver.probePath
    (pathFromBase mapping.baseDir (applyTargetPattern target capture)) with
 | [] => none
 | probes => some probes.flatten

def resolveAliasOrBaseUrl : Option ModuleResolution :=
 match resolver.sourcePath.bind resolver.findNearestConfig with
 | none => none
 | some configPath =>
  match loadTsConfig resolver.fs resolver.fromStr configPath with
  | .error problem =>
   some { specifier,status := .degraded,reason := problem.reason,
          resolutionKind := some .alias,configPath := some configPath,
          sourceRoot := resolver.sourceRoot,confidence := 10,detail := some problem.detail }
  | .ok config =>
   match (resolver.aliasProbes config specifier).map gather with
   | some (_,some path) =>
    some (resolver.unsafeResolution specifier .alias path
     "alias target escapes configured workspace/package roots")
   | some ([],none) =>
    some (resolver.unresolvedResolution specifier .aliasTargetNotFound (some .alias)
     (some config.configPath)
     (some "tsconfig/jsconfig path alias matched but no probed target exists"))
   | some (candidates,none) =>
    some (resolver.finalizeCandidates specifier .alias candidates .aliasPathResolved
     (some config.configPath))
   | none =>
    match config.baseUrl.map fun baseUrl =>
     resolver.probePath (join baseUrl (ofText specifier)) with
    | some (.found candidates _) =>
     some (resolver.finalizeCandidates specifier .baseUrl candidates .baseUrlResolved
      (some config.configPath))
    | some (.outside path) =>
     some (resolver.unsafeResolution specifier .baseUrl path
      "baseUrl target escapes configured workspace/package roots")
    | _ => none

def behindName (specifier name : String) : Option (List Char) :=
 if specifier = name then some []
 else if (name.toList ++ ['/']).isPrefixOf specifier.toList then
  some (specifier.toList.drop name.length)
 else none

def probeTarget (root : Path) (target : String) : PathProbe :=
 let targetPath := pathFromBase root target
 if ¬ resolver.fs.pathIsWithin targetPath root then .outside targetPath
 else resolver.probePath targetPath

def resolveWorkspacePackage : Option ModuleResolution :=
 let matched := resolver.packages.filterMap fun package =>
  (package.name.bind (behindName specifier)).map fun rest =>
   (package,String.ofList (rest.dropWhile (· = '/')))
 if matched = [] then none
 else if matched.any (·.1.invalidMetadata) then
  some (resolver.basicResolution specifier .degraded .packageMetadataInvalid
   (some .workspacePackage) 20
   (some "one or more matching package.json files could not be parsed"))
 else
  let targets := matched.map fun (package,subpath) => (package,package.resolveTargets subpath)
  let exportUsed := targets.any (·.2.2.1)
  let unsupportedExport := targets.any (·.2.2.2)
  let kind : Kind := if exportUsed then .packageExport else .workspacePackage
  match gather (targets.flatMap fun (package,texts,_) =>
   texts.map (resolver.probeTarget package.root)) with
  | (_,some path) =>
   some (resolver.unsafeResolution specifier .packageExport path
    "workspace package target escapes its package root or allowed roots")
  | ([],none) =>
   some (resolver.unresolvedResolution specifier
    (if unsupportedExport then .packageExportUnsupported else .packageTargetNotFound) (some kind)
    none (some "workspace package name matched but no package entry target exists"))
  | (candidates,none) =>
   some (resolver.finalizeCandidates specifier kind candidates
    (if exportUsed then .packageExportResolved else .workspacePackageResolved) none)

def isRelativeSpecifier : Bool :=
 specifier = "." ∨ specifier = ".." ∨ "./".toList.isPrefixOf specifier.toList ∨
  "../".toList.isPrefixOf specifier.toList

/-- The specifier has been trimmed. -/
def resolve : ModuleResolution :=
 if specifier = "" then
  resolver.basicResolution specifier .unresolved .missingSpecifier none 0 none
 else if specifier = "<dynamic-expression>" then
  resolver.basicResolution specifier .degraded .nonLiteralSpecifier none 10
   (some "import/require specifier is not a string literal")
 else if isRelativeSpecifier specifier then resolver.resolveRelative specifier
 else if isAbsolute (ofText specifier) then resolver.resolveAbsolute specifier
 else
  match (resolver.resolveAliasOrBaseUrl specifier).filter (·.status≠.external) with
  | some resolution => resolution
  | none =>
   (resolver.resolveWorkspacePackage specifier).getD
    (resolver.basicResolution specifier .external .externalPackage (some .external) 100 none)

end ModuleResolver

end DhKit.Modules
