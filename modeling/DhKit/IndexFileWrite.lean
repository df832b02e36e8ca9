import DhKit.IndexLinker
import DhKit.IndexPlanner

/-!
# Writers of file rows

Every writer of the indexer commits one file's row, facts and edges in a single transaction.
-/
namespace DhKit.Indexer
open KeyedTables CommitRules

inductive IndexError where
 | failed (message : String)
 | killed
deriving DecidableEq

inductive Stop where
 | killed
 | writeFails (message : String)
deriving DecidableEq

structure Store where
 db : Db
 fault : Option (Nat × Stop)

abbrev IndexM := Commit Store IndexError

def commit (f : Db → Except String Db) : IndexM Unit := fun store =>
 match store.fault with
 | some (0,.killed) => (.error .killed,store)
 | some (0,.writeFails message) => (.error (.failed message),{ store with fault := none })
 | some (n+1,stop) => match f store.db with
  | .ok db => (.ok (),⟨db,some (n,stop)⟩)
  | .error message => (.error (.failed message),store)
 | none => match f store.db with
  | .ok db => (.ok (),⟨db,none⟩)
  | .error message => (.error (.failed message),store)

def readDb {α : Type} (f : Db → α) : IndexM α := query fun store => f store.db

theorem yields_commit {f : Db → Except String Db} {s t : Store} {u : Unit}
 (h:Yields (commit f) s u t) : f s.db = .ok t.db := by
 unfold Yields commit at h
 rcases s with ⟨db,_|⟨_|n,_|message⟩⟩ <;> simp only at h
 · cases hf : f db <;> rw [hf] at h <;> simp_all
   rw [←h]
 · cases h
 · cases h
 all_goals
  cases hf : f db <;> rw [hf] at h <;> simp_all
  rw [←h]

theorem yields_commit_ok {f : Db → Db} {s t : Store} {u : Unit}
 (h:Yields (commit fun db=>.ok (f db)) s u t) : t.db=f s.db := by
 have hf:Except.ok (f s.db)=Except.ok t.db:=yields_commit h
 exact (Except.ok.inj hf).symm

@[simp] theorem yields_readDb {α : Type} {f : Db → α} {s t : Store} {a : α} :
 Yields (readDb f) s a t ↔ f s.db=a ∧ s=t := by
 simp [readDb]

inductive HashSite where
 | toDelete | touched | resolutionScope | dependentRoots | dependents
 | structuralRoots | structuralDirect | relinkChanged | relinkContract
deriving DecidableEq

structure Env where
 blake3 : Blake3
 parser : Parser
 disk : Disk
 now : Int
 runId : String
 runIdMarker : String
 order : HashSite → List FileKey → List FileKey
 order_perm : ∀ site keys,(order site keys).Perm keys

def Env.plain (parser : Parser) (disk : Disk) : Env where
 blake3 := .tagged
 parser := parser
 disk := disk
 now := 0
 runId := "run"
 runIdMarker := "run"
 order _ keys := keys
 order_perm _ _ := .refl _

structure RunRoots where
 workspaceRoot : Path
 rootPaths : HashMap RootId Path
 workspaceRoots : List Path
 packageRoots : List Path

structure ProcessOutcome where
 persistedFile : File
 delta : ConfirmedDelta
deriving DecidableEq

variable (env : Env)

def failedRow (candidate : FileCandidate) (contentHash parseError : String)
 (reason : FreshnessReason) : File where
 rootId := candidate.rootId
 relPath := candidate.relPath
 language := candidate.language
 sizeBytes := candidate.sizeBytes
 mtimeUnixMs := candidate.mtimeUnixMs
 contentHash := contentHash
 structureHash := none
 publicApiHash := none
 parseStatus := .failed
 parseError := some parseError
 symbolCount := 0
 chunkCount := 0
 lastIndexedAtUnixMs := some env.now
 deletedAtUnixMs := none
 freshnessState := .notCurrent
 freshnessReason := some reason
 lastFreshnessRunId := some env.runIdMarker

def extractedRow (candidate : FileCandidate) (contentHash : String)
 (facts : ExtractedFacts) : File where
 rootId := candidate.rootId
 relPath := candidate.relPath
 language := candidate.language
 sizeBytes := candidate.sizeBytes
 mtimeUnixMs := candidate.mtimeUnixMs
 contentHash := contentHash
 structureHash := some facts.structureFingerprint
 publicApiHash := some facts.publicApiFingerprint
 parseStatus := facts.parseStatus
 parseError := facts.parseError
 symbolCount := facts.symbols.length%2^32
 chunkCount := facts.chunks.length%2^32
 lastIndexedAtUnixMs := some env.now
 deletedAtUnixMs := none
 freshnessState := if facts.hasErrors then .degradedPartial else .refreshedCurrent
 freshnessReason := none
 lastFreshnessRunId := some env.runIdMarker

def extractedReason (planned : PlannedFile) (facts : ExtractedFacts) (delta : ConfirmedDelta) :
 FreshnessReason :=
 if facts.hasErrors then .recoverableParseIssues
 else if isResolutionScopePath planned.candidate.relPath then .resolutionScopeChanged
 else if delta.publicApiChanged then .publicApiChanged
 else if delta.structureChanged then .structureChanged
 else if planned.level = .dependent then .dependentInvalidated
 else .contentChanged

def shouldReuseExistingEdges (existing : Option File) (file : File) (delta : ConfirmedDelta) :
 Bool :=
 existing.isSome ∧ file.deletedAtUnixMs.isNone ∧ file.freshnessState = .refreshedCurrent ∧
  delta.publicApiChanged = false ∧ delta.structureChanged = false ∧
  isResolutionScopePath file.relPath = false

variable (roots : RunRoots)

def RunRoots.snapshotOf (disk : Disk) (db : Db) : WorkspaceSnapshot :=
 WorkspaceSnapshot.new disk roots.workspaceRoot roots.rootPaths db.listFilesByWorkspace
  db.findSymbolsByWorkspace

def extractionContext (candidate : FileCandidate) (source : String) :
 ExtractionContext where
 fileId := fileKeyForCandidate candidate
 source := source
 absPath := candidate.absPath
 workspaceRoot := roots.workspaceRoot
 workspaceRoots := roots.workspaceRoots
 packageRoots := roots.packageRoots

def extractCandidate (candidate : FileCandidate) :
 Except (String × FreshnessReason) ExtractedFacts :=
 match env.disk.readFile candidate.absPath with
 | .error err => .error
  ("failed to read source file " ++ displayPath candidate.absPath ++ ": " ++ err,
   .fatalReadFailure)
 | .ok source =>
  match extractFileFacts env.blake3 env.parser env.disk candidate.language
   (extractionContext roots candidate source) with
  | .error err => .error
   ("parse failed for " ++ candidate.relPath.text ++ ": " ++ err,.fatalParseFailure)
  | .ok facts => .ok facts

/-- The edges written with an extracted file: the stored ones when they can be
 reused, or the links against the snapshot of the run, or against the database
 as it is. -/
def edgesToWrite (snapshot : Option WorkspaceSnapshot)
 (reuse : Bool) (id : FileId) (facts : ExtractedFacts) (db : Db) : List GraphEdge :=
 if reuse then db.findEdgesByFile id
 else linkFile (snapshot.getD (roots.snapshotOf env.disk db)) id facts.imports facts.callEdges
  facts.references

def extractedOutcome (planned : PlannedFile) (contentHash : String)
 (existing : Option File) (facts : ExtractedFacts) : ProcessOutcome :=
 let row := extractedRow env planned.candidate contentHash facts
 let delta := confirmedDelta existing row
 ⟨{ row with freshnessReason := some (extractedReason planned facts delta) },delta⟩

def processAndWriteFile (snapshot : Option WorkspaceSnapshot)
 (planned : PlannedFile) (contentHash : String) (existing : Option File) :
 IndexM ProcessOutcome :=
 match extractCandidate env roots planned.candidate with
 | .error (message,reason) => do
  let file := failedRow env planned.candidate contentHash message reason
  commit fun db => db.writeFileAtomically file [] [] [] existing.isSome
  pure ⟨file,.default⟩
 | .ok facts => do
  let outcome := extractedOutcome env planned contentHash existing facts
  let reuse := shouldReuseExistingEdges existing outcome.persistedFile outcome.delta
  commit fun db => db.writeFileAtomically outcome.persistedFile facts.symbols facts.chunks
   (edgesToWrite env roots snapshot reuse planned.key facts db) existing.isSome
  pure outcome

section
variable (env : Env) (roots : RunRoots) (planned : PlannedFile) (contentHash : String)
 (existing : Option File)

def factsOf (candidate : FileCandidate) : ExtractedFacts :=
 match extractCandidate env roots candidate with
 | .error _ => .skipped
 | .ok facts => facts

def processOutcome : ProcessOutcome :=
 match extractCandidate env roots planned.candidate with
 | .error (message,reason) =>
  ⟨failedRow env planned.candidate contentHash message reason,.default⟩
 | .ok facts => extractedOutcome env planned contentHash existing facts

def reusesEdges : Bool :=
 shouldReuseExistingEdges existing
  (processOutcome env roots planned contentHash existing).persistedFile
  (processOutcome env roots planned contentHash existing).delta

theorem factsOf_local (candidate : FileCandidate) :
 (factsOf env roots candidate).Local (fileKeyForCandidate candidate) := by
 unfold factsOf extractCandidate
 split
 · constructor <;> simp [ExtractedFacts.skipped]
 · next facts h =>
   split at h
   · cases h
   split at h
   · cases h
   · next hx =>
     cases h
     exact extractFileFacts_local hx

@[simp] theorem processOutcome_key :
 fileKeyForFile (processOutcome env roots planned contentHash existing).persistedFile
  = planned.key := by
 unfold processOutcome
 split <;> rfl

@[simp] theorem processOutcome_deletedAt :
 (processOutcome env roots planned contentHash existing).persistedFile.deletedAtUnixMs
  = none := by
 unfold processOutcome
 split <;> rfl

theorem processAndWriteFile_yields {snapshot : Option WorkspaceSnapshot} {s t : Store}
 {outcome : ProcessOutcome}
 (h:Yields (processAndWriteFile env roots snapshot planned contentHash existing) s outcome t) :
 outcome=processOutcome env roots planned contentHash existing ∧
  s.db.Written t.db outcome.persistedFile (factsOf env roots planned.candidate).symbols
   (factsOf env roots planned.candidate).chunks
   (edgesToWrite env roots snapshot (reusesEdges env roots planned contentHash existing)
    planned.key (factsOf env roots planned.candidate) s.db) existing.isSome := by
 unfold processAndWriteFile at h
 unfold reusesEdges factsOf processOutcome
 cases hx : extractCandidate env roots planned.candidate with
 | error failure =>
  simp only [hx,yields_bind] at h ⊢
  obtain ⟨_,_,hw,rfl,rfl⟩:=h
  simpa [edgesToWrite,shouldReuseExistingEdges,failedRow,linkFile,ExtractedFacts.skipped]
   using Db.writeFileAtomically_ok (yields_commit hw)
 | ok facts =>
  simp only [hx,yields_bind] at h ⊢
  obtain ⟨_,_,hw,rfl,rfl⟩:=h
  exact ⟨rfl,Db.writeFileAtomically_ok (yields_commit hw)⟩

end

section
variable (existing : File) (candidate : FileCandidate) (parseError : String)

def hashFailedRow : File :=
 { existing with
   sizeBytes := candidate.sizeBytes
   mtimeUnixMs := candidate.mtimeUnixMs
   structureHash := none
   publicApiHash := none
   parseStatus := .failed
   parseError := some parseError
   symbolCount := 0
   chunkCount := 0
   lastIndexedAtUnixMs := some env.now
   deletedAtUnixMs := none
   freshnessState := .notCurrent
   freshnessReason := some .fatalReadFailure
   lastFreshnessRunId := some env.runIdMarker }

def markHashReadFailure : IndexM Unit :=
 commit fun db =>
  db.writeFileAtomically (hashFailedRow env existing candidate parseError) [] [] [] true

end

section
variable (file : File) (reasonMessage : String) (reason : FreshnessReason)

def notCurrentRow :
 File :=
 { file with
   parseStatus := .failed
   parseError := some ("invalidated without refresh: " ++ reasonMessage)
   structureHash := none
   publicApiHash := none
   symbolCount := 0
   chunkCount := 0
   lastIndexedAtUnixMs := some env.now
   freshnessState := .notCurrent
   freshnessReason := some reason
   lastFreshnessRunId := some env.runIdMarker }

def markNotCurrentWithoutRefresh : IndexM Unit :=
 commit fun db => db.writeFileAtomically (notCurrentRow env file reasonMessage reason) [] [] [] true

def invalidatedRow : File :=
 { file with
   contentHash := ""
   structureHash := none
   publicApiHash := none
   mtimeUnixMs := 0
   parseStatus := .pending
   parseError := none
   symbolCount := 0
   chunkCount := 0
   lastIndexedAtUnixMs := some env.now
   freshnessState := .notCurrent
   freshnessReason := some .pathInvalidated
   lastFreshnessRunId := none }

def isFatalFailureInvalidationRoot : Bool :=
 file.freshnessState = .notCurrent ∧
  (file.freshnessReason = some .fatalReadFailure ∨
   file.freshnessReason = some .fatalParseFailure ∨
   file.freshnessReason = some .fatalPersistFailure)

structure FreshnessCounters where
 refreshedCurrentFiles : Nat
 retainedCurrentFiles : Nat
 degradedPartialFiles : Nat
 notCurrentFiles : Nat
 deletedPaths : Nat
deriving DecidableEq

def FreshnessCounters.zero : FreshnessCounters := ⟨0,0,0,0,0⟩

def FreshnessCounters.register (c : FreshnessCounters) : FreshnessState → FreshnessCounters
 | .retainedCurrent => { c with retainedCurrentFiles := c.retainedCurrentFiles+1 }
 | .refreshedCurrent => { c with refreshedCurrentFiles := c.refreshedCurrentFiles+1 }
 | .degradedPartial => { c with degradedPartialFiles := c.degradedPartialFiles+1 }
 | .notCurrent => { c with notCurrentFiles := c.notCurrentFiles+1 }
 | .deleted => { c with deletedPaths := c.deletedPaths+1 }

def retainedRow : File :=
 { file with
   freshnessState := .retainedCurrent
   freshnessReason := some .unchangedUnaffected
   lastFreshnessRunId := some env.runIdMarker }

end

def skipsRetention (indexed : List FileKey) (file : File) : Bool :=
 file.deletedAtUnixMs.isSome ∨ fileKeyForFile file ∈ indexed ∨
  file.freshnessState = .degradedPartial ∨ file.freshnessState = .notCurrent ∨
  file.freshnessState = .deleted

def retainUnchanged (indexed : List FileKey) (counters : FreshnessCounters) (file : File) :
 IndexM FreshnessCounters :=
 if skipsRetention indexed file then pure counters
 else do
  commit fun db => .ok (db.upsertFile (retainedRow env file))
  pure (counters.register .retainedCurrent)

def refreshUnchangedFiles (indexed : List FileKey) (counters : FreshnessCounters) :
 IndexM FreshnessCounters := do
 let files ← readDb Db.listFilesByWorkspace
 files.foldlM (retainUnchanged env indexed) counters

def isResolvedImport (edge : GraphEdge) : Bool :=
 edge.isImport ∧ edge.resolution = .resolved

/-- `preserved_file_import_edges`: the resolved imports a file owns. -/
def Db.preservedFileImportEdges (db : Db) (id : FileId) : List GraphEdge :=
 (db.edges.filter fun r => r.sourceFileId = id ∧ r.edge.fromNode = .file id ∧
  isResolvedImport r.edge).map EdgeRow.edge

def Db.preservedIncomingImportEdges (db : Db) (id : FileId) : List GraphEdge :=
 (db.findIncomingEdges id 200000).filter isResolvedImport

def Db.insertUnderSource (db : Db) (edge : GraphEdge) : Except String Db :=
 match edge.fromNode with
 | .file id => match db.insertEdges [edge] id with
  | some db => .ok db
  | none => .error "Query returned no rows"
 | _ => .ok db

def Db.contractImportEdges (db : Db) (changed contractChanged : List FileId) : List GraphEdge :=
 changed.flatMap db.preservedFileImportEdges ++
  contractChanged.flatMap db.preservedIncomingImportEdges

def Db.relinkContractChangedFiles (db : Db) (changed contractChanged : List FileId) :
 Except String Db :=
 (db.contractImportEdges changed contractChanged).foldlM Db.insertUnderSource
  (contractChanged.foldl Db.deleteGraphEdgesForSourceFile db)

end DhKit.Indexer
