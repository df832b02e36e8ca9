import DhKit.IndexStorage
import DhKit.IndexSources

/-!
# Scanning, hashing and planning

The candidates of the roots, their content hashes, and the files to index and to delete.
-/
namespace DhKit.Indexer
open KeyedTables

def hardcodedExcludes : List String :=
 ["node_modules",".git","target","dist","build","__pycache__",".next"]

def toAsciiLowercase (text : String) : String :=
 String.ofList (text.toList.map fun c => if 'A' ≤ c ∧ c ≤ 'Z' then Char.ofNat (c.toNat + 32) else c)

def startsWithText (text start : String) : Bool := start.toList.isPrefixOf text.toList

def endsWithText (text ending : String) : Bool := ending.toList.isSuffixOf text.toList

def isResolutionScopeFileName (fileName : String) : Bool :=
 (startsWithText fileName "tsconfig" ∧ endsWithText fileName ".json") ∨
  fileName = "jsconfig.json" ∨ fileName = "cargo.toml" ∨ fileName = "go.mod"

def fileExtension (fileName : String) : Option String :=
 let after := fileName.toList.reverse.takeWhile (· ≠ '.')
 if after.length+1 < fileName.toList.length then some (String.ofList after.reverse) else none

def detectLanguage (fileName : String) : Option LanguageId :=
 if isResolutionScopeFileName (toAsciiLowercase fileName) then some .unknown
 else match fileExtension fileName with
  | some "ts" => some .typeScript
  | some "tsx" => some .tsx
  | some "js" => some .javaScript
  | some "jsx" => some .jsx
  | _ => none

def isResolutionScopePath (relPath : RelPath) : Bool :=
 isResolutionScopeFileName (toAsciiLowercase
  (String.ofList ((splitChars '/' relPath.text.toList).getLastD [])))

def candidateOfEntry (disk : Disk) (root : Path) (rootId : RootId) (entry : DiskEntry) :
 Option FileCandidate :=
 match Disk.stripRoot root entry.absPath with
 | none => none
 | some rel =>
  if rel = [] ∨ (∃ c ∈ rel,c ∈ hardcodedExcludes) ∨ disk.ignored root entry.absPath then none
  else (detectLanguage (rel.getLastD "")).map fun language =>
   { absPath := entry.absPath
     relPath := normalizeRelPath rel
     rootId := rootId
     language := language
     sizeBytes := entry.sizeBytes
     mtimeUnixMs := entry.mtimeUnixMs }

def scanWorkspace (disk : Disk) (root : Path) (rootId : RootId) : List FileCandidate :=
 (disk.entries.rows.filterMap (candidateOfEntry disk root rootId)).insertionSort
  fun a b => a.relPath.text ≤ b.relPath.text

def scanRoots (disk : Disk) (roots : List (RootId × Path)) : List FileCandidate :=
 roots.flatMap fun r => scanWorkspace disk r.2 r.1

theorem mem_scanWorkspace {disk : Disk} {root : Path} {rootId : RootId} {c : FileCandidate} :
 c∈scanWorkspace disk root rootId ↔
  ∃e∈disk.entries.rows,candidateOfEntry disk root rootId e=some c := by
 rw [scanWorkspace,(List.perm_insertionSort _ _).mem_iff,List.mem_filterMap]

structure HashCandidatesResult where
 hashes : HashMap FileKey String
 hashFailures : HashMap FileKey String

def existingByKey (files : List File) : HashMap FileKey File :=
 HashMap.collect (files.map fun f => (fileKeyForFile f,f))

def metadataChanged (existing : File) (candidate : FileCandidate) : Bool :=
 existing.deletedAtUnixMs.isSome ∨ existing.contentHash = "" ∨
  existing.sizeBytes≠candidate.sizeBytes ∨ existing.mtimeUnixMs≠candidate.mtimeUnixMs

def shouldHash (existing : HashMap FileKey File) (forceFull : Bool) (touched : List FileKey)
 (candidate : FileCandidate) : Bool :=
 forceFull || decide (fileKeyForCandidate candidate ∈ touched) ||
  match existing.get (fileKeyForCandidate candidate) with
  | none => true
  | some file => metadataChanged file candidate

def hashReadMessage (candidate : FileCandidate) (err : String) : String :=
 "failed to read file for hashing: " ++ displayPath candidate.absPath ++ " (" ++ err ++ ")"

def hashCandidate (blake3 : Blake3) (disk : Disk) (hashed : Bool) (result : HashCandidatesResult)
 (candidate : FileCandidate) : HashCandidatesResult :=
 let key := fileKeyForCandidate candidate
 if hashed then
  match disk.readFile candidate.absPath with
  | .ok content => { result with hashes := result.hashes.upsert (key,blake3.hex content) }
  | .error err =>
   { result with hashFailures := result.hashFailures.upsert (key,hashReadMessage candidate err) }
 else
  match disk.openFile candidate.absPath with
  | .ok _ => result
  | .error err =>
   { result with hashFailures := result.hashFailures.upsert (key,hashReadMessage candidate err) }

def hashIncrementalCandidates (blake3 : Blake3) (disk : Disk) (candidates : List FileCandidate)
 (existingFiles : List File) (forceFull : Bool) (touched : List FileKey) :
 HashCandidatesResult :=
 let existing := existingByKey existingFiles
 candidates.foldl (fun result c =>
  hashCandidate blake3 disk (shouldHash existing forceFull touched c) result c)
  ⟨Table.empty,Table.empty⟩

inductive InvalidationLevel where
 | contentOnly | structuralLocal | dependent | resolutionScope
deriving DecidableEq

structure PlannedFile where
 candidate : FileCandidate
 level : InvalidationLevel
deriving DecidableEq

def PlannedFile.key (planned : PlannedFile) : FileKey := fileKeyForCandidate planned.candidate

structure DirtySet where
 toIndex : List PlannedFile
 toDelete : List FileId
deriving DecidableEq

structure ConfirmedDelta where
 structureChanged : Bool
 publicApiChanged : Bool
deriving DecidableEq

def ConfirmedDelta.default : ConfirmedDelta := ⟨false,false⟩

def confirmedDelta (before : Option File) (after : File) : ConfirmedDelta :=
 match before with
 | none => .default
 | some file =>
  { structureChanged := file.structureHash≠after.structureHash
    publicApiChanged := file.publicApiHash≠after.publicApiHash }

def planCandidate (candidate : FileCandidate) (existing : Option File) (contentHash : String)
 (forceFull explicitlyTouched : Bool) : Option InvalidationLevel :=
 if forceFull then some .resolutionScope
 else match existing with
  | none => some .contentOnly
  | some file =>
   if file.deletedAtUnixMs.isSome then some .contentOnly
   else if file.contentHash = contentHash then
    if explicitlyTouched then some .contentOnly else none
   else if isResolutionScopePath candidate.relPath then some .resolutionScope
   else some .contentOnly

def unscannedRows (scanned : List FileCandidate) (existingFiles : List File) : List File :=
 existingFiles.filter fun f =>
  f.deletedAtUnixMs.isNone ∧ fileKeyForFile f ∉ scanned.map fileKeyForCandidate

/-- The deletions are sorted by row id; `order` is that order, which the hash decides. -/
def buildDirtySet (order : List FileKey → List FileKey) (scanned : List FileCandidate)
 (hashes : HashMap FileKey String) (existingFiles : List File) (forceFull : Bool)
 (touched : List FileKey) : DirtySet :=
 let existing := existingByKey existingFiles
 { toIndex := (scanned.filterMap fun c =>
    let key := fileKeyForCandidate c
    (hashes.get key).bind fun hash =>
     (planCandidate c (existing.get key) hash forceFull (decide (key ∈ touched))).map
      fun level => ⟨c,level⟩).insertionSort
       fun a b => a.candidate.relPath.text ≤ b.candidate.relPath.text
   toDelete := order ((unscannedRows scanned existingFiles).map fileKeyForFile) }

def buildMetadataOnlyDirtySet (order : List FileKey → List FileKey)
 (candidates : List FileCandidate) (existingFiles : List File) : DirtySet :=
 let existing := existingByKey existingFiles
 { toIndex := candidates.filterMap fun c =>
    (existing.get (fileKeyForCandidate c)).bind fun file =>
     if metadataChanged file c then some ⟨c,.contentOnly⟩ else none
   toDelete := order ((unscannedRows candidates existingFiles).map fileKeyForFile) }

def contentHashForPlannedFile (candidate : FileCandidate) (hashes : HashMap FileKey String)
 (existing : HashMap FileKey File) : String :=
 let key := fileKeyForCandidate candidate
 (hashes.get key <|> (existing.get key).map File.contentHash).getD ""

end DhKit.Indexer
