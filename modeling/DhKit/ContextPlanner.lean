import Mathlib.Algebra.Order.Ring.Rat
import Mathlib.Data.List.Lex
import Mathlib.Data.List.Sort
import DhKit.PosixPaths
import DhKit.TextPatterns

/-!
# Context for a query

`inspectContext` ranks evidence for a query and keeps the report in a cache file that is named after
the fingerprint of the workspace, the budget mode and the query.
-/
namespace DhKit.Context
open PosixPaths TextPatterns

inductive ContextMode where
 | ask | explain | trace
deriving DecidableEq

inductive SemanticMode where
 | always | auto | off
deriving DecidableEq

inductive BudgetMode where
 | fast | normal | deep
deriving DecidableEq

def BudgetMode.text : BudgetMode → String
 | fast => "fast"
 | normal => "normal"
 | deep => "deep"

structure ContextScanOptions where
 maxFiles : Option Nat := none
 maxDepth : Option Nat := none
 maxFileSizeBytes : Option Nat := none
 followSymlinks : Option Bool := none
 includeExtensions : Option (List String) := none
 ignoreDirs : Option (List String) := none
deriving DecidableEq

structure ContextInspectInput where
 query : String
 mode : Option ContextMode := none
 semanticMode : Option SemanticMode := none
 budgetMode : Option BudgetMode := none
 scanOptions : Option ContextScanOptions := none

/-! ## Retrieval -/

structure RetrievalRequest where
 query : String
 mode : ContextMode
 semanticMode : SemanticMode
 scanOptions : Option ContextScanOptions
deriving DecidableEq

def ContextInspectInput.request (input : ContextInspectInput) : RetrievalRequest where
 query := trim input.query
 mode := input.mode.getD .ask
 semanticMode := input.semanticMode.getD .auto
 scanOptions := input.scanOptions

structure NormalizedRetrievalResult where
 filePath : String
 symbolName : Option String
 lineRange : Nat × Nat
 sourceTool : String
 matchReason : String
 normalizedScore : Rat

structure Retrieval where
 results : List NormalizedRetrievalResult
 reducedCoverage : Bool
 stopReasons : List String
 graphAvailable : Bool
 graphReason : String
 graphSource : String

/-! ## Reports -/

structure ContextLedgerEntry where
 filePath : String
 lineRange : Nat × Nat
 reason : String
 score : Rat
 source : String
 symbolName : Option String
deriving DecidableEq

inductive WarningCode where
 | dependencyGraphUnavailable | lspUnconfigured | noEvidence | reducedScanCoverage | scanStopped
 | truncatedContext
deriving DecidableEq

inductive WarningDetails where
 | stopReasons (reasons : List String)
 | reason (reason : String)
 | source (source : String)
 | skipped (count : Nat)
deriving DecidableEq

structure ContextCoverageWarning where
 code : WarningCode
 message : String
 details : Option WarningDetails := none
deriving DecidableEq

structure ContextReport where
 query : String
 entries : List ContextLedgerEntry
 included : Nat
 skipped : Nat
 warnings : List ContextCoverageWarning
deriving DecidableEq

def normalizeSource (sourceTool : String) : String :=
 if sourceTool = "symbol_search" then "symbol"
 else if sourceTool = "reference_search" then "reference"
 else if sourceTool = "graph_expand" then "graph"
 else if sourceTool = "lsp_diagnostics" then "lsp_diagnostics"
 else if Contains "semantic" sourceTool then "semantic"
 else if Contains "keyword" sourceTool then "keyword"
 else sourceTool

def toLedgerEntry (result : NormalizedRetrievalResult) : ContextLedgerEntry where
 filePath := result.filePath
 lineRange := result.lineRange
 reason := result.matchReason
 score := result.normalizedScore
 source := normalizeSource result.sourceTool
 symbolName := result.symbolName

def isMentionCharacter (c : Char) : Bool := c.isAlphanum || c ∈ ['_','.','-','/']

/-- The match of `/[A-Za-z0-9_.\-\/]+\.[A-Za-z0-9]+/` at the beginning of a text: up to the last
dot that has an extension, with the extension. -/
def mentionAt (text : List Char) : Option (List Char) :=
 let run := text.takeWhile isMentionCharacter
 let dot := (List.range run.length).reverse.find? fun i =>
  1 ≤ i ∧ run[i]? = some '.' ∧ (run[i + 1]?).any Char.isAlphanum
 dot.map fun i => run.take (i+1)++(run.drop (i+1)).takeWhile Char.isAlphanum

/-- All matches, from left to right; a match has at least three characters. -/
def mentionsFrom : Nat → List Char → List (List Char)
 | 0,_ => []
 | _+1,[] => []
 | turns+1,c::text =>
  match mentionAt (c::text) with
  | some mention => mention::mentionsFrom turns ((c::text).drop mention.length)
  | none => mentionsFrom turns text

def mentions (query : String) : List String :=
 (mentionsFrom query.toList.length query.toList).map String.ofList

/-- `mention.replace(/^\.?\//, "")` -/
def stripRoot (mention : String) : String :=
 match mention.toList with
 | '.' :: '/' :: rest => String.ofList rest
 | '/' :: rest => String.ofList rest
 | _ => mention

example : mentions "see ./src/a.ts, b.d-e and ../c" = ["./src/a.ts","b.d"] := by decide

def dropRepeated (key : ContextLedgerEntry → String) :
 List String → List ContextLedgerEntry → List ContextLedgerEntry
 | _,[] => []
 | seen,entry::entries =>
  if key entry ∈ seen then dropRepeated key seen entries
  else entry::dropRepeated key (key entry::seen) entries

def dedupeEntries (entries : List ContextLedgerEntry) (maxEvidence : Nat) :
 List ContextLedgerEntry :=
 let key := fun entry : ContextLedgerEntry =>
  s!"{entry.filePath}:{entry.lineRange.1}:{entry.lineRange.2}:{entry.source}"
 (dropRepeated key [] (entries.insertionSort fun a b => b.score ≤ a.score)).take maxEvidence

def maxEvidenceForBudget : BudgetMode → Nat
 | .fast => 4
 | .normal => 12
 | .deep => 24

def coverageWarnings (retrieval : Retrieval) (entries : List ContextLedgerEntry) :
 List ContextCoverageWarning :=
 (if retrieval.reducedCoverage then
  [{ code := .reducedScanCoverage
     message := "Workspace scan was truncated; context may be incomplete."
     details := some (.stopReasons retrieval.stopReasons) }] else []) ++
 retrieval.stopReasons.map (fun reason =>
  { code := .scanStopped
    message := s!"Workspace scan stopped early: {reason}."
    details := some (.reason reason) }) ++
 (if retrieval.graphAvailable then [] else
  [{ code := .dependencyGraphUnavailable
     message := s!"Dependency graph unavailable: {retrieval.graphReason}."
     details := some (.source retrieval.graphSource) }]) ++
 [{ code := .lspUnconfigured
    message := "LSP diagnostics were not included because no live LSP client was configured " ++
     "for context planning." }] ++
 (if entries = [] then
  [{ code := .noEvidence,message := "No context evidence matched the query." }] else []) ++
 (if entries.length < retrieval.results.length then
  [{ code := .truncatedContext
     message := "Some retrieval results were skipped by the context ledger budget."
     details := some (.skipped (retrieval.results.length-entries.length)) }] else [])

/-! ## The workspace -/

inductive FileNode where
 | file (size : Nat) (mtimeUs : Int)
 | directory (entries : List (String × FileNode))
 /-- A link or a special file. -/
 | other

structure ScannedFile where
 path : String
 size : Nat
 mtimeUs : Int

def ignoredDirs : List String := [".git",".dh","dist","node_modules"]

mutual
def FileNode.walk (name path : String) : FileNode → List ScannedFile
 | .file size mtimeUs => [⟨path,size,mtimeUs⟩]
 | .directory entries => if name ∈ ignoredDirs then [] else walkEntries (path ++ "/") entries
 | .other => []
def walkEntries (parent : String) : List (String × FileNode) → List ScannedFile
 | [] => []
 | (name,node)::entries => node.walk name (parent++name)++walkEntries parent entries
end

def utf16Code (c : Char) : List Nat :=
 if c.toNat < 0x10000 then [c.toNat] else
  [0xD800 + (c.toNat - 0x10000) / 0x400,0xDC00 + (c.toNat - 0x10000) % 0x400]

def utf16Units (text : String) : List Nat := text.toList.flatMap utf16Code

/-- `files.sort()` compares the UTF-16 units of two paths, not their code points. -/
def sortedFiles (tree : List (String × FileNode)) : List ScannedFile :=
 (walkEntries "" tree).insertionSort fun a b => utf16Units a.path ≤ utf16Units b.path

def fingerprintText (tree : List (String × FileNode)) : String :=
 String.join ((sortedFiles tree).map fun file =>
  s!"{file.path}:{file.size}:{file.mtimeUs / 1000}\n")

/-- The file system of the workspaces `ω`, the digest, and the encoding of cache file names. -/
structure Surroundings (ω : Type) where
 tree : ω → List (String × FileNode)
 existsSync : ω → String → Bool
 digest : String → String
 base64url : String → String
 base64url_injective : Function.Injective base64url
 accepts : String → Bool
 repoRoot : String
 cwd : List String

section
variable {ω : Type} (env : Surroundings ω)

def Surroundings.computeWorkspaceFingerprint (workspace : ω) : String :=
 env.digest (fingerprintText (env.tree workspace))

def fileMentionEntries (workspace : ω) (query : String) : List ContextLedgerEntry :=
 (mentions query).flatMap fun mention =>
  let normalized := stripRoot mention
  let root := render (resolve env.cwd env.repoRoot)
  let absolute := render (resolve (resolve env.cwd env.repoRoot) normalized)
  if ¬ StartsWith root absolute ∨ env.existsSync workspace absolute = false then []
  else
   [{ filePath := normalized
      lineRange := (1,80)
      reason := "Explicit file mention in user query."
      score := 1
      source := "file_mention"
      symbolName := none }]

def planContext (workspace : ω) (query : String) (budgetMode : BudgetMode)
 (retrieval : Retrieval) : ContextReport :=
 let entries := dedupeEntries
  (retrieval.results.map toLedgerEntry++fileMentionEntries env workspace query)
  (maxEvidenceForBudget budgetMode)
 { query := query
   entries := entries
   included := entries.length
   skipped := retrieval.results.length-entries.length
   warnings := coverageWarnings retrieval entries }

def cachePath (workspaceFingerprint query : String) (budgetMode : BudgetMode) : String :=
 env.base64url (workspaceFingerprint ++ ":" ++ (budgetMode.text ++ ":" ++ query))

inductive CacheStatus where
 | hit | miss
deriving DecidableEq

structure ContextState (ω : Type) where
 workspace : ω
 rankings : String → Option ContextReport

variable (runRetrieval : RetrievalRequest → ω → Retrieval)

def inspectContext (s : ContextState ω) (input : ContextInspectInput) :
 ContextState ω × Except String (CacheStatus × ContextReport) :=
 let request := input.request
 if request.query = "" then (s,.error "context query is required.")
 else
  let budgetMode := input.budgetMode.getD .normal
  let file := cachePath env (env.computeWorkspaceFingerprint s.workspace) request.query budgetMode
  match s.rankings file with
  | some cached => (s,.ok (.hit,cached))
  | none =>
   let report := planContext env s.workspace request.query budgetMode
    (runRetrieval request s.workspace)
   if env.accepts file then
    ({ s with rankings := Function.update s.rankings file (some report) },.ok (.miss,report))
   else (s,.error "ENAMETOOLONG: name too long")

inductive ContextEvent (ω : Type) where
 | edit (workspace : ω)
 | inspect (input : ContextInspectInput)

def ContextState.step (s : ContextState ω) : ContextEvent ω → ContextState ω
 | .edit workspace => { s with workspace }
 | .inspect input => (inspectContext env runRetrieval s input).1

end

end DhKit.Context
