import DhKit.WorklistSearch
import DhKit.IndexFileWrite

/-!
# Expansion of confirmed invalidations

The confirmed changes are expanded: other files are queued for a second extraction, or marked not
current when they cannot be scanned.
-/
namespace DhKit.Indexer
open KeyedTables CommitRules WorklistSearch

def collectKeys (keys : List FileKey) : List FileKey := keys.foldl pushUnique []

structure RefreshQueue where
 queue : List PlannedFile
 queued : List FileKey
 counters : FreshnessCounters
deriving DecidableEq

structure ExpansionInput where
 scannedByPath : HashMap FileKey FileCandidate
 existingByPath : HashMap FileKey File
 initialIndexed : List FileKey

def queueCandidateForRefresh (inp : ExpansionInput) (level : InvalidationLevel) (key : FileKey)
 (q : RefreshQueue) : Option RefreshQueue :=
 if key ∈ inp.initialIndexed ∨ key ∈ q.queued then none
 else (inp.scannedByPath.get key).map fun candidate =>
  { q with queue := q.queue++[⟨candidate,level⟩],queued := pushUnique q.queued key }

variable (env : Env)

def markQueued (file : File) (message : String) (reason : FreshnessReason)
 (q : RefreshQueue) : IndexM RefreshQueue := do
 markNotCurrentWithoutRefresh env file message reason
 pure { q with counters := q.counters.register .notCurrent }

/-- Queue a key, or mark its row when the path was not scanned. -/
def queueOrMark (inp : ExpansionInput) (level : InvalidationLevel) (message : String)
 (reason : FreshnessReason) (q : RefreshQueue) (key : FileKey) : IndexM RefreshQueue :=
 match queueCandidateForRefresh inp level key q with
 | some q => pure q
 | none => match inp.existingByPath.get key,inp.scannedByPath.get key with
  | some existing,none => markQueued env existing message reason q
  | _,_ => pure q

section
variable (inp : ExpansionInput) (q : RefreshQueue)

/-- The loop over dependents marks a row whenever its key was not queued by this
 call, also when the path was scanned and an earlier call queued it. -/
def queueOrMarkDependent (key : FileKey) :
 IndexM RefreshQueue :=
 match queueCandidateForRefresh inp .dependent key q with
 | some q => pure q
 | none => match inp.existingByPath.get key with
  | some existing => markQueued env existing
   "dependent invalidated but path is not currently scannable" .dependentInvalidated q
  | none => pure q

def refreshInScope (key : FileKey) :
 IndexM RefreshQueue :=
 match inp.existingByPath.get key with
 | none => pure q
 | some existing =>
  if existing.deletedAtUnixMs.isSome ∨ key ∈ inp.initialIndexed then pure q
  else queueOrMark env inp .resolutionScope
   "resolution basis changed while path is not currently scannable" .resolutionScopeChanged
   q key

def applyResolutionScopeInvalidation :
 IndexM RefreshQueue :=
 (env.order .resolutionScope (inp.existingByPath.rows.map Prod.fst)).foldlM
  (refreshInScope env inp) q

def liveImporter (existing : HashMap FileKey File) (edge : GraphEdge) : Option FileKey :=
 if edge.kind = .imports then
  match edge.fromNode with
  | .file id => match existing.get id with
   | some file => if file.deletedAtUnixMs.isNone then some (fileKeyForFile file) else none
   | none => none
  | _ => none
 else none

section
variable (db : Db) (existing : HashMap FileKey File)

def importersOf (id : FileId) : List FileKey :=
 (db.findIncomingEdges id 200000).filterMap (liveImporter existing)

/-- The breadth-first loop over stored imports; `fuel` bounds the rows it may pop. -/
def dependentSearch (fuel : Nat)
 (search : Worklist FileId) : Worklist FileId :=
 search.run (importersOf db existing) fuel

def startSearch (roots : List FileKey) : Worklist FileId :=
 Worklist.start (roots.filter fun key => (existing.get key).isSome)

def stripPrefixChars : List Char → List Char → Option (List Char)
 | [],text => some text
 | _::_,[] => none
 | p::pattern,c::text => if p = c then stripPrefixChars pattern text else none

/-- Remove a pattern from the front as often as it occurs there. -/
def trimStartMatches (pattern : List Char) : Nat → List Char → List Char
 | 0,text => text
 | fuel+1,text => match stripPrefixChars pattern text with
  | some rest => if pattern = [] then text else trimStartMatches pattern fuel rest
  | none => text

def trimEndMatches (ending text : List Char) : List Char :=
 (trimStartMatches ending.reverse text.length text.reverse).reverse

def isBlank (c : Char) : Bool := c.isWhitespace

def trimBlanks (text : List Char) : List Char :=
 ((text.dropWhile isBlank).reverse.dropWhile isBlank).reverse

def moduleExtensions : List String := [".ts",".tsx",".js",".jsx",".py",".go",".rs",".d.ts"]

def trimModuleExtensions (text : List Char) : List Char :=
 moduleExtensions.foldl (fun text ext => trimEndMatches ext.toList text) text

def normalizeModuleSpecifier (rawSpecifier : String) : List Char :=
 let specifier := (replaceBackslash (String.ofList (trimBlanks rawSpecifier.toList))).toList
 let specifier := trimStartMatches "./".toList specifier.length specifier
 let specifier := trimStartMatches "../".toList specifier.length specifier
 trimModuleExtensions specifier

def lastComponent (text : List Char) : List Char := (splitChars '/' text).getLastD []

def modulePathVariants (relPath : RelPath) : List (List Char) :=
 let withoutExt := trimModuleExtensions relPath.text.toList
 let parents := match stripPrefixChars "/index".toList.reverse withoutExt.reverse with
  | some parent => [parent.reverse,lastComponent parent.reverse]
  | none => []
 [withoutExt,lastComponent withoutExt]++parents

def importSpecifierMatchesRelPath (rawSpecifier : String) (relPath : RelPath) : Bool :=
 let specifier := normalizeModuleSpecifier rawSpecifier
 if specifier = [] then false
 else (modulePathVariants relPath).any fun variant =>
  specifier = variant || ('/' :: variant).isSuffixOf specifier

/-- The fallback looks for the root's path in the reason text of stored imports. -/
def matchesFallback (roots : List FileKey) (importer : File) : Bool :=
 importer.deletedAtUnixMs.isNone && decide (fileKeyForFile importer ∉ roots) &&
  (db.findEdgesByFile (fileKeyForFile importer)).any fun e =>
   e.kind = .imports && roots.any fun root =>
    importSpecifierMatchesRelPath e.reason root.relPath

def dependentKeys (roots : List FileKey) :
 List FileKey :=
 let search := dependentSearch db existing existing.rows.length (startSearch existing roots)
 collectKeys (search.found ++
  ((existing.rows.map Prod.snd).filter (matchesFallback db roots)).map fileKeyForFile)

end

def refreshUnless (skip : List FileKey)
 (level : InvalidationLevel) (message : String) (reason : FreshnessReason) (q : RefreshQueue)
 (key : FileKey) : IndexM RefreshQueue :=
 if key ∈ skip ∨ key ∈ inp.initialIndexed then pure q
 else queueOrMark env inp level message reason q key

def refreshDependent (roots : List FileKey) (q : RefreshQueue)
 (key : FileKey) : IndexM RefreshQueue :=
 if key ∈ roots ∨ key ∈ inp.initialIndexed then pure q else queueOrMarkDependent env inp q key

def applyDependentInvalidation (publicApiRoots deletedKeys forcedRoots : List FileKey)
 (q : RefreshQueue) : IndexM RefreshQueue := do
 let roots := collectKeys (publicApiRoots++deletedKeys++forcedRoots)
 let q ← (env.order .dependentRoots roots).foldlM (refreshUnless env inp [] .dependent
  "dependent expansion requested but path is not currently scannable" .dependentInvalidated) q
 let dependents ← readDb fun db => dependentKeys db inp.existingByPath roots
 (env.order .dependents dependents).foldlM (refreshDependent env inp roots) q

def structuralMessage : String :=
 "structural-local invalidation but path is not currently scannable"

def applyStructuralInvalidation (roots : List FileKey)
 (q : RefreshQueue) : IndexM RefreshQueue := do
 let q ← (env.order .structuralRoots roots).foldlM (refreshUnless env inp [] .structuralLocal
  structuralMessage .structureChanged) q
 let direct ← readDb fun db => collectKeys
  ((roots.filter fun key => (inp.existingByPath.get key).isSome).flatMap
   (importersOf db inp.existingByPath))
 (env.order .structuralDirect direct).foldlM (refreshUnless env inp roots .structuralLocal
  structuralMessage .structureChanged) q

end

structure ConfirmedChanges where
 changedFiles : HashMap FileKey File
 deltas : HashMap FileKey ConfirmedDelta
 deletedKeys : List FileKey
 forcedRoots : List FileKey

def ConfirmedChanges.publicApiRoots (c : ConfirmedChanges) : List FileKey :=
 (c.deltas.rows.filter fun e => e.2.publicApiChanged).map Prod.fst

def ConfirmedChanges.structuralRoots (c : ConfirmedChanges) : List FileKey :=
 (c.deltas.rows.filter fun e => e.2.structureChanged).map Prod.fst

def ConfirmedChanges.changesResolutionScope (c : ConfirmedChanges) : Bool :=
 (c.deltas.rows.map Prod.fst++c.changedFiles.rows.map Prod.fst).any fun key =>
  isResolutionScopePath key.relPath

section
variable (env : Env) (inp : ExpansionInput) (c : ConfirmedChanges) (q : RefreshQueue)

def expandResolutionScope : IndexM RefreshQueue :=
 if c.changesResolutionScope then applyResolutionScopeInvalidation env inp q else pure q

def expandDependents : IndexM RefreshQueue :=
 if c.publicApiRoots = [] ∧ c.deletedKeys = [] ∧ c.forcedRoots = [] then pure q
 else applyDependentInvalidation env inp c.publicApiRoots c.deletedKeys c.forcedRoots q

def expandStructural : IndexM RefreshQueue :=
 if c.structuralRoots = [] then pure q
 else applyStructuralInvalidation env inp c.structuralRoots q

def applyConfirmedInvalidationExpansion : IndexM RefreshQueue :=
 if c.changedFiles.rows = [] ∧ c.deletedKeys = [] ∧ c.forcedRoots = [] then pure q
 else do
  let q ← expandResolutionScope env inp c q
  let q ← expandDependents env inp c q
  expandStructural env inp c q

end

end DhKit.Indexer
