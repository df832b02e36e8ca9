import DhKit.IndexInvalidation

/-!
# Indexing runs

`indexWorkspace`, `indexPaths` and `invalidatePaths`, the three calls that write
the index.
-/
namespace DhKit.Indexer
open KeyedTables CommitRules

structure IndexWorkspaceRequest where
 roots : List Path
 forceFull : Bool
 maxFiles : Option Nat

inductive RequestPath where
 | absolute (path : Path)
 | relative (path : List String)
deriving DecidableEq

structure IndexPathsRequest where
 workspaceId : Int
 paths : List RequestPath
 expandDependents : Bool

/-- One `process_and_write_file` of a run, with the database it found. -/
structure WriteRecord where
 planned : PlannedFile
 before : Db

/-- The report of a run, with the keys it indexed and its writes, the last first,
 which the source keeps to itself. -/
structure IndexReport where
 scannedFiles : Nat
 changedFiles : Nat
 reindexedFiles : Nat
 deletedFiles : Nat
 counters : FreshnessCounters
 indexed : List FileKey
 writes : List WriteRecord

structure RunState where
 counters : FreshnessCounters
 reindexedFiles : Nat
 indexed : List FileKey
 writes : List WriteRecord
 changedFiles : HashMap FileKey File
 deltas : HashMap FileKey ConfirmedDelta
 contractChanged : HashMap FileKey File
 fatalRoots : List FileKey

def RunState.start : RunState :=
 ⟨.zero,0,[],[],Table.empty,Table.empty,Table.empty,[]⟩

/-- What a run has fixed before its first file write. -/
structure RunPlan where
 roots : RunRoots
 candidates : List FileCandidate
 existingFiles : List File
 hashed : HashCandidatesResult
 dirty : DirtySet
 snapshot : Option WorkspaceSnapshot
 forceFull : Bool

def RunPlan.existing (plan : RunPlan) : HashMap FileKey File := existingByKey plan.existingFiles

def ConfirmedDelta.contractChanged (delta : ConfirmedDelta) : Bool :=
 delta.publicApiChanged || delta.structureChanged

def recordOutcome (st : RunState) (write : WriteRecord) (outcome : ProcessOutcome) :
 RunState where
 counters := st.counters.register outcome.persistedFile.freshnessState
 reindexedFiles := st.reindexedFiles+1
 indexed := pushUnique st.indexed write.planned.key
 writes := write::st.writes
 changedFiles := st.changedFiles.upsert (write.planned.key,outcome.persistedFile)
 deltas := st.deltas.upsert (write.planned.key,outcome.delta)
 contractChanged :=
  if outcome.delta.contractChanged then
   st.contractChanged.upsert (write.planned.key,outcome.persistedFile)
  else st.contractChanged
 fatalRoots :=
  if isFatalFailureInvalidationRoot outcome.persistedFile then
   pushUnique st.fatalRoots write.planned.key
  else st.fatalRoots

variable (env : Env)

section
variable (plan : RunPlan) (st : RunState) (planned : PlannedFile)

def indexPlanned :
 IndexM RunState := do
 let before ← readDb id
 let outcome ← processAndWriteFile env plan.roots plan.snapshot planned
  (contentHashForPlannedFile planned.candidate plan.hashed.hashes plan.existing)
  (plan.existing.get planned.key)
 pure (recordOutcome st ⟨planned,before⟩ outcome)

def recordFailure (key : FileKey) : RunState :=
 { st with
   counters := st.counters.register .notCurrent
   reindexedFiles := st.reindexedFiles+1
   indexed := pushUnique st.indexed key
   fatalRoots := pushUnique st.fatalRoots key }

/-- A candidate that could not be read for hashing has its row marked failed,
 unless it was indexed already or has no row. -/
def markHashFailed (candidate : FileCandidate) :
 IndexM RunState :=
 let key := fileKeyForCandidate candidate
 match plan.hashed.hashFailures.get key,plan.existing.get key with
 | some message,some existing =>
  if key ∈ st.indexed then pure st
  else do
   markHashReadFailure env existing candidate message
   pure (recordFailure st key)
 | _,_ => pure st

def refreshQueued :
 IndexM RunState :=
 if planned.key ∈ st.indexed then pure st
 else match plan.hashed.hashes.get planned.key,plan.hashed.hashFailures.get planned.key with
  | none,some _ => markHashFailed env plan st planned.candidate
  | _,_ => indexPlanned env plan st planned

def expansionInput (initialIndexed : List FileKey) : ExpansionInput where
 scannedByPath := HashMap.collect (plan.candidates.map fun c => (fileKeyForCandidate c,c))
 existingByPath := plan.existing
 initialIndexed := initialIndexed

def expandAndRefresh (initialIndexed forced : List FileKey)
 (st : RunState) : IndexM RunState := do
 let q ← applyConfirmedInvalidationExpansion env (expansionInput plan initialIndexed)
  { changedFiles := st.changedFiles
    deltas := st.deltas
    deletedKeys := plan.dirty.toDelete
    forcedRoots := collectKeys (forced++st.fatalRoots) }
  ⟨[],[],st.counters⟩
 q.queue.foldlM (refreshQueued env plan) { st with counters := q.counters }

def deleteFile (id : FileId) : IndexM RunState :=
 match plan.existing.get id with
 | none => pure st
 | some existing => do
  commit fun db => .ok (db.markDeletedFile existing env.now env.runIdMarker)
  pure { st with counters := st.counters.register .deleted }

def contentOnlyIncremental : Bool :=
 !plan.forceFull && decide (plan.dirty.toDelete = []) &&
  decide (st.changedFiles.rows.length = st.indexed.length) &&
  (st.changedFiles.rows.all fun e => (plan.existing.get e.1).isSome) &&
  (st.deltas.rows.all fun e => !e.2.contractChanged) && decide (st.fatalRoots = [])

def relinkRun : IndexM Unit :=
 if st.indexed = [] ∧ plan.dirty.toDelete = [] then pure ()
 else if contentOnlyIncremental plan st then pure ()
 else if plan.dirty.toDelete = [] ∧ st.contractChanged.rows≠[] then
  commit fun db => db.relinkContractChangedFiles
   (env.order .relinkChanged (st.changedFiles.rows.map Prod.fst))
   (env.order .relinkContract (st.contractChanged.rows.map Prod.fst))
 else
  commit fun db =>
   match db.linkWorkspace env.disk plan.roots.workspaceRoot plan.roots.rootPaths with
   | some db => .ok db
   | none => .error "Query returned no rows"

def settleRun : IndexM RunState := do
 let st ← plan.dirty.toDelete.foldlM (deleteFile env plan) st
 let counters ← refreshUnchangedFiles env st.indexed st.counters
 pure { st with counters := counters }

def completedState (state : IndexState) :
 IndexState :=
 { state with
   status := .completed
   indexVersion := state.indexVersion+1
   activeRunId := none
   totalFiles := plan.candidates.length
   indexedFiles := st.reindexedFiles
   dirtyFiles := plan.dirty.toIndex.length
   deletedFiles := plan.dirty.toDelete.length
   lastScanFinishedAtUnixMs := some env.now
   lastSuccessfulIndexAtUnixMs := some env.now
   lastError := none }

def reportOf : IndexReport where
 scannedFiles := plan.candidates.length
 changedFiles := plan.dirty.toIndex.length
 reindexedFiles := st.reindexedFiles
 deletedFiles := plan.dirty.toDelete.length
 counters := st.counters
 indexed := st.indexed
 writes := st.writes

end

def saveState (state : IndexState) : IndexM Unit := commit fun db => .ok (db.updateState state)

/-- The end of a run, behind the state row that calls it completed: the projection is hydrated and
the row of the run is written. Both may fail, and no table that is modelled changes. -/
def upsertRun : IndexM Unit := commit .ok

def normalizeRootPath (root : Path) : String := replaceBackslash (displayPath root)

def Db.rootPathsById (db : Db) : List (RootId × Path) :=
 (db.roots.rows.map fun r => (r.id,r.absPath)).insertionSort fun a b => a.1 ≤ b.1

def i64Max : Int := 9223372036854775807

def saturatingAdd (a b : Int) : Int := min (a+b) i64Max

structure RootAssignment where
 known : HashMap String RootId
 nextRootId : RootId
 assignments : List (RootId × Path)

def assignRoot (a : RootAssignment) (root : Path) : RootAssignment :=
 let text := normalizeRootPath root
 match a.known.get text with
 | some id => { a with assignments := a.assignments++[(id,root)] }
 | none =>
  { known := a.known.upsert (text,a.nextRootId)
    nextRootId := saturatingAdd a.nextRootId 1
    assignments := a.assignments++[(a.nextRootId,root)] }

def highestRootId (registered : List (RootId × Path)) : Int :=
 (registered.map Prod.fst).max?.getD 0

def assignWorkspaceRootIds (registered : List (RootId × Path)) (roots : List Path) :
 List (RootId × Path) :=
 (roots.foldl assignRoot
  { known := HashMap.collect (registered.map fun r => (normalizeRootPath r.2,r.1))
    nextRootId := saturatingAdd (highestRootId registered) 1
    assignments := [] }).assignments

/-- A root whose path another root row holds fails the unique constraint. -/
def Db.ensureWorkspaceAndRoot (db : Db) (root : RootId × Path) : Except String Db :=
 if h : ∀ r ∈ db.roots.rows,r.id≠root.1 → r.absPath≠root.2 then
  .ok { db with
   workspaceRoot := db.workspaceRoot <|> some root.2
   roots := db.roots.upsert ⟨root.1,root.2⟩
   rootPaths := db.roots.nodup_upsert RootRow.absPath db.rootPaths ⟨root.1,root.2⟩ h }
 else .error "UNIQUE constraint failed: roots.workspace_id, roots.abs_path"

def canonicalizeRoots (disk : Disk) (roots : List Path) : Except String (List Path) :=
 roots.mapM fun root => match disk.canonicalize root with
  | some path => .ok path
  | none => .error ("canonicalize workspace root: " ++ displayPath root)

def truncateCandidates (maxFiles : Option Nat) (candidates : List FileCandidate) :
 List FileCandidate :=
 match maxFiles with
 | some n => candidates.take n
 | none => candidates

variable (req : IndexWorkspaceRequest)

def workspaceDirtySet (candidates : List FileCandidate)
 (existingFiles : List File) (hashed : HashCandidatesResult) : DirtySet :=
 if hashed.hashes.rows = [] ∧ req.forceFull = false then
  buildMetadataOnlyDirtySet (env.order .toDelete) candidates existingFiles
 else
  buildDirtySet (env.order .toDelete) candidates hashed.hashes existingFiles req.forceFull []

section
variable (roots : RunRoots) (assignments : List (RootId × Path))

def workspacePlan (db : Db) : RunPlan :=
 let candidates := truncateCandidates req.maxFiles (scanRoots env.disk assignments)
 let existingFiles := db.listFilesByWorkspace
 let hashed := hashIncrementalCandidates env.blake3 env.disk candidates existingFiles
  req.forceFull []
 let dirty := workspaceDirtySet env req candidates existingFiles hashed
 { roots := roots
   candidates := candidates
   existingFiles := existingFiles
   hashed := hashed
   dirty := dirty
   snapshot := if dirty.toIndex.length > 1 ∨ req.forceFull then
    some (roots.snapshotOf env.disk db)
    else none
   forceFull := req.forceFull }

def settledWorkspace (plan : RunPlan) : IndexM RunState := do
 let st ← plan.dirty.toIndex.foldlM (indexPlanned env plan) RunState.start
 let initialIndexed := st.indexed
 let st ← plan.candidates.foldlM (markHashFailed env plan) st
 let st ← expandAndRefresh env plan initialIndexed [] st
 settleRun env plan st

def runWorkspacePlan (plan : RunPlan) : IndexM RunState := do
 let st ← settledWorkspace env plan
 relinkRun env plan st
 pure st

def completeWorkspace (state : IndexState) : IndexM IndexReport := do
 let plan ← readDb (workspacePlan env req roots assignments)
 let hashing := { state with status := .hashing,totalFiles := plan.candidates.length }
 saveState hashing
 let parsing := { hashing with
  status := .parsing
  dirtyFiles := plan.dirty.toIndex.length
  deletedFiles := plan.dirty.toDelete.length }
 saveState parsing
 let st ← runWorkspacePlan env plan
 saveState (completedState env plan st parsing)
 pure (reportOf plan st)

def runWorkspaceBody (state : IndexState) : IndexM IndexReport := do
 let report ← completeWorkspace env req roots assignments state
 upsertRun
 pure report

/-- A run that fails leaves its error in the state; a killed one leaves nothing. -/
def recordFailedRun : IndexError → IndexM Unit
 | .killed => pure ()
 | .failed message => do
  let state ← readDb Db.state
  saveState { state.getD defaultStateFor with
   status := .failed
   activeRunId := none
   lastScanFinishedAtUnixMs := some env.now
   lastError := some message }

def workspaceRunRoots (workspaceRoot : Path)
 (workspaceRoots : List Path) : RunRoots where
 workspaceRoot := workspaceRoot
 rootPaths := HashMap.collect assignments
 workspaceRoots := workspaceRoots
 packageRoots := if workspaceRoots.length = 1 then [] else workspaceRoots

end

def beginWorkspace (workspaceRoots : List Path) :
 IndexM (List (RootId × Path) × IndexState) := do
 let assignments ← readDb fun db => assignWorkspaceRootIds db.rootPathsById workspaceRoots
 assignments.foldlM (fun _ root => commit fun db => db.ensureWorkspaceAndRoot root) ()
 let stored ← readDb Db.state
 let state := { stored.getD defaultStateFor with
  status := .scanning
  activeRunId := some env.runId
  lastScanStartedAtUnixMs := some env.now
  lastError := none }
 saveState state
 pure (assignments,state)

def indexWorkspace : IndexM IndexReport :=
 match canonicalizeRoots env.disk req.roots with
 | .error message => fail (.failed message)
 | .ok [] => fail (.failed "index_workspace requires at least one root")
 | .ok (workspaceRoot::others) => do
  let begun ← beginWorkspace env (workspaceRoot::others)
  onError
   (runWorkspaceBody env req (workspaceRunRoots begun.1 workspaceRoot (workspaceRoot::others))
    begun.1 begun.2)
   (recordFailedRun env)

/-- `strip_prefix("./")` of the normalised text. -/
def normalizeWorkspaceRelPath (path : List String) : RelPath :=
 let normalized := normalizeRelPath path
 if ['.','/'] <+: normalized.text.toList then
  ⟨String.ofList (normalized.text.toList.drop 2),fun h =>
   normalized.slashed (List.mem_of_mem_drop (String.toList_ofList ▸ h))⟩
 else normalized

/-- `strip_prefix` of the first form of a path that lies below a root. -/
def keyBelowRoot (forms : List Path) (root : RootId × Path) : Option FileKey :=
 (forms.findSome? (Disk.stripRoot root.2)).map fun rel => ⟨root.1,normalizeWorkspaceRelPath rel⟩

def longestRoot (length : FileKey → Nat) (keys : List FileKey) : Option FileKey :=
 keys.foldl (fun best key => match best with
  | none => some key
  | some b => if length b ≤ length key then some key else some b) none

def resolveTouchedFileKey (disk : Disk) (rootPaths : List (RootId × Path)) :
 RequestPath → Option FileKey
 | .absolute path =>
  let forms := [(disk.canonicalize path).getD path,path]
  let length (key : FileKey) :=
   ((rootPaths.find? fun r => r.1 = key.rootId).map fun r =>
    (normalizeRootPath r.2).utf8ByteSize).getD 0
  longestRoot length (rootPaths.filterMap (keyBelowRoot forms))
 | .relative path => match rootPaths with
  | [root] => some ⟨root.1,normalizeWorkspaceRelPath path⟩
  | _ => none

def resolveTouchedFileKeys (disk : Disk) (rootPaths : List (RootId × Path))
 (paths : List RequestPath) : List FileKey :=
 collectKeys (paths.filterMap (resolveTouchedFileKey disk rootPaths))

/-- A touched path that could not be read for hashing. The branch for a path that
 is not among the candidates marks the row not current. -/
def markTouchedFailed (plan : RunPlan) (st : RunState) (key : FileKey) :
 IndexM RunState :=
 match plan.hashed.hashFailures.get key,plan.existing.get key with
 | some message,some existing =>
  if key ∈ st.indexed then pure st
  else match plan.candidates.find? fun c => fileKeyForCandidate c = key with
   | some candidate => do
    markHashReadFailure env existing candidate message
    pure (recordFailure st key)
   | none => do
    markNotCurrentWithoutRefresh env existing
     "path-scoped hash read failed and path is not currently scannable" .fatalReadFailure
    pure (recordFailure st key)
 | _,_ => pure st

def pathsPlan (roots : RunRoots) (rootPaths : List (RootId × Path))
 (touched : List FileKey) (db : Db) : RunPlan :=
 let candidates := scanRoots env.disk rootPaths
 let existingFiles := db.listFilesByWorkspace
 let hashed := hashIncrementalCandidates env.blake3 env.disk candidates existingFiles false
  touched
 let dirty := buildDirtySet (env.order .toDelete) candidates hashed.hashes existingFiles false
  touched
 { roots := roots
   candidates := candidates
   existingFiles := existingFiles
   hashed := hashed
   dirty := dirty
   snapshot := if dirty.toIndex.length > 1 then some (roots.snapshotOf env.disk db) else none
   forceFull := false }

section
variable (plan : RunPlan) (touched : List FileKey) (expandDependents : Bool)

def settledPaths :
 IndexM RunState := do
 let st ← (env.order .touched touched).foldlM (markTouchedFailed env plan) RunState.start
 let st ← plan.dirty.toIndex.foldlM (indexPlanned env plan) st
 let initialIndexed := st.indexed
 let st ← (plan.dirty.toIndex.map PlannedFile.candidate).foldlM (markHashFailed env plan) st
 let st ← expandAndRefresh env plan initialIndexed (if expandDependents then touched else []) st
 settleRun env plan st

def runPathsPlan :
 IndexM RunState := do
 let st ← settledPaths env plan touched expandDependents
 relinkRun env plan st
 pure st

end

def workspaceRootFor (workspaceId : Int) : IndexM Path := do
 let root ← readDb Db.workspaceRoot
 match root with
 | some path => if workspaceId = 1 then pure path else fail (.failed "Query returned no rows")
 | none => fail (.failed "Query returned no rows")

def pathsRunRoots (rootPaths : List (RootId × Path)) (workspaceRoot : Path) : RunRoots :=
 let workspaceRoots := if rootPaths = [] then [workspaceRoot] else rootPaths.map Prod.snd
 { workspaceRoot := workspaceRoot
   rootPaths := HashMap.collect rootPaths
   workspaceRoots := workspaceRoots
   packageRoots := if workspaceRoots.length = 1 then [] else workspaceRoots }

def completePaths (req : IndexPathsRequest) : IndexM IndexReport := do
 let workspaceRoot ← workspaceRootFor req.workspaceId
 let rootPaths ← readDb Db.rootPathsById
 let touched := resolveTouchedFileKeys env.disk rootPaths req.paths
 let plan ← readDb (pathsPlan env (pathsRunRoots rootPaths workspaceRoot) rootPaths touched)
 let st ← runPathsPlan env plan touched req.expandDependents
 let stored ← readDb Db.state
 saveState { completedState env plan st (stored.getD defaultStateFor) with
  lastScanStartedAtUnixMs := some env.now }
 pure (reportOf plan st)

def indexPaths (req : IndexPathsRequest) : IndexM IndexReport := do
 let report ← completePaths env req
 upsertRun
 pure report

/-- The key of a path to invalidate. A path below no registered root falls back
 to root 1: below the workspace root when it is absolute, as written when not. -/
def invalidatedFileKey (disk : Disk) (workspaceRoot : Path) (rootPaths : List (RootId × Path))
 (path : RequestPath) : Option FileKey :=
 resolveTouchedFileKey disk rootPaths path <|>
  match path with
  | .absolute path =>
   (Disk.stripRoot workspaceRoot path <|>
    Disk.stripRoot workspaceRoot ((disk.canonicalize path).getD path)).map
     fun rel => ⟨1,normalizeRelPath rel⟩
  | .relative path => some ⟨1,normalizeRelPath path⟩

def invalidatePath (workspaceRoot : Path) (rootPaths : List (RootId × Path))
 (path : RequestPath) : IndexM Unit :=
 match invalidatedFileKey env.disk workspaceRoot rootPaths path with
 | none => pure ()
 | some key => do
  let row ← readDb fun db => db.getFileByRootPath key
  match row with
  | none => pure ()
  | some file =>
   commit fun db => db.writeFileAtomically (invalidatedRow env file) [] [] [] true

def invalidatePaths (workspaceId : Int) (paths : List RequestPath) : IndexM Unit := do
 let workspaceRoot ← workspaceRootFor workspaceId
 let rootPaths ← readDb Db.rootPathsById
 paths.foldlM (fun _ path => invalidatePath env workspaceRoot rootPaths path) ()

end DhKit.Indexer
