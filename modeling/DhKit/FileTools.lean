import DhKit.FileChanges
import DhKit.TextPatterns

/-!
# The write, edit and apply_patch tools

Each tool resolves the requested path, checks on the text of the relative path that it does not
leave the repository, and then changes files.
-/
namespace DhKit.FileTools
open CommitRules LinkedFiles PosixPaths TextPatterns

inductive ToolError where
 | message (text : String)
 | system (fault : Fault)
 deriving DecidableEq

abbrev Tool (α : Type) := Commit Disk ToolError α

def call {α : Type} (x : Commit Disk Fault α) : Tool α := fun disk =>
 match x disk with
 | (.ok a,after) => (.ok a,after)
 | (.error fault,after) => (.error (.system fault),after)

structure WorkingDirectory where
 path : Path
 names : ∀ name ∈ path,IsName name

namespace WorkingDirectory

def repository (cwd : WorkingDirectory) (repoRoot : String) : Path := resolve cwd.path repoRoot

end WorkingDirectory

structure ResolvedRepoPath where
 absolutePath : Path
 relativePath : String
 deriving DecidableEq

def resolveRepoPath (cwd : WorkingDirectory) (repoRoot requestedPath : String) :
 Except ToolError ResolvedRepoPath :=
 let absolutePath := resolve (cwd.repository repoRoot) requestedPath
 let relativeText := relative (cwd.repository repoRoot) absolutePath
 if StartsWith ".." relativeText ∨ isAbsolute relativeText then
  .error (.message ("Path '" ++ requestedPath ++ "' is outside the repository."))
 else .ok ⟨absolutePath,if relativeText = "" then "." else relativeText⟩

section

def splitLines : List Char → List (List Char)
 | [] => [[]]
 | '\n' :: text => [] :: splitLines text
 | '\r' :: '\n' :: text => [] :: splitLines text
 | c::text =>
  match splitLines text with
  | [] => [[c]]
  | first::others => (c::first)::others

def lines (text : String) : List String := (splitLines text.toList).map String.ofList

def splitFileLines (content : String) : List String :=
 if content = "" then []
 else if (lines content).getLast? = some "" then (lines content).dropLast
 else lines content

/-- The parts of a text between the occurrences of `part`; `skipped` characters of the last
occurrence are still to come. -/
def splitText (part : List Char) : Nat → List Char → List (List Char)
 | _,[] => [[]]
 | skipped+1,_::text => splitText part skipped text
 | 0,c::text =>
  if part <+: c::text then []::splitText part (part.length-1) text
  else
   match splitText part 0 text with
   | [] => [[c]]
   | first::others => (c::first)::others

def findText (part : List Char) : List Char → Option (List Char × List Char)
 | [] => if part = [] then some ([],[]) else none
 | c::text =>
  if part <+: c::text then some ([],(c::text).drop part.length)
  else (findText part text).map fun found => (c::found.1,found.2)

/-- The replacement text of `String.replace`, in which a dollar sign stands for a part of the
text: `$$` for itself, `$&` for the occurrence, and with a grave accent or an apostrophe for what
stands before or behind it. -/
def expandReplacement (found before behind : List Char) : List Char → List Char
 | [] => []
 | [c] => [c]
 | c::d::text =>
  if c ≠ '$' then c :: expandReplacement found before behind (d :: text)
  else if d = '$' then '$' :: expandReplacement found before behind text
  else if d = '&' then found ++ expandReplacement found before behind text
  else if d = Char.ofNat 96 then before++expandReplacement found before behind text
  else if d = Char.ofNat 39 then behind++expandReplacement found before behind text
  else c::expandReplacement found before behind (d::text)

def replaceFirst (oldText newText text : String) : String :=
 match findText oldText.toList text.toList with
 | none => text
 | some (before,behind) => String.ofList
  (before++expandReplacement oldText.toList before behind newText.toList++behind)

def splitBy (part text : String) : List String :=
 (splitText part.toList 0 text.toList).map String.ofList

def behind (start text : String) : String := String.ofList (text.toList.drop start.length)

end

section

structure DiffSummary where
 filesChanged : Nat
 additions : Int
 deletions : Int
 paths : List String
 deriving DecidableEq

def commonLines : List String → List String → Nat
 | a::before,b::after => if a = b then commonLines before after+1 else 0
 | _,_ => 0

def summarizeTextDiff (filePath before after : String) : DiffSummary :=
 if before = after then ⟨0,0,0,[]⟩
 else
  let beforeLines := splitFileLines before
  let afterLines := splitFileLines after
  let common := commonLines beforeLines afterLines
  let suffix := commonLines (beforeLines.drop common).reverse (afterLines.drop common).reverse
  ⟨1,afterLines.length-common-suffix,beforeLines.length-common-suffix,[filePath]⟩

def addPath (paths : List String) (path : String) : List String :=
 if path ∈ paths then paths else paths++[path]

def addSummary (total summary : DiffSummary) : DiffSummary :=
 ⟨total.filesChanged,total.additions+summary.additions,total.deletions+summary.deletions,
  summary.paths.foldl addPath total.paths⟩

def combineDiffSummaries (summaries : List DiffSummary) : DiffSummary :=
 let total := summaries.foldl addSummary ⟨0,0,0,[]⟩
 { total with filesChanged := total.paths.length }

end

section

structure PatchHunk where
 oldLines : List String
 newLines : List String
 deriving DecidableEq

inductive PatchOperation where
 | add (filePath : String) (lines : List String)
 | delete (filePath : String)
 | update (filePath : String) (hunks : List PatchHunk)
 deriving DecidableEq

inductive OpenOperation where
 | none
 | add (filePath : String) (lines : List String)
 | update (filePath : String) (hunks : List PatchHunk) (current : Option PatchHunk)

def OpenOperation.close : OpenOperation → Except ToolError (List PatchOperation)
 | none => .ok []
 | add filePath lines => .ok [.add filePath lines]
 | update filePath hunks current =>
  if hunks++current.toList = [] then
   .error (.message ("Update file '" ++ filePath ++ "' has no hunks."))
  else .ok [.update filePath (hunks++current.toList)]

def parseDirective (line : String) : Except ToolError (List PatchOperation × OpenOperation) :=
 if StartsWith "*** Add File: " line then
  .ok ([],.add (trim (behind "*** Add File: " line)) [])
 else if StartsWith "*** Delete File: " line then
  .ok ([.delete (trim (behind "*** Delete File: " line))],.none)
 else if StartsWith "*** Update File: " line then
  .ok ([],.update (trim (behind "*** Update File: " line)) [] none)
 else .error (.message ("Unsupported patch directive: " ++ line))

def parseHunkLine (filePath : String) (current : PatchHunk) (line : String) :
 Except ToolError PatchHunk :=
 match line.toList with
 | ' ' :: value => .ok ⟨current.oldLines ++ [String.ofList value],
  current.newLines++[String.ofList value]⟩
 | '-' :: value => .ok ⟨current.oldLines ++ [String.ofList value],current.newLines⟩
 | '+' :: value => .ok ⟨current.oldLines,current.newLines ++ [String.ofList value]⟩
 | _ => .error (.message ("Unsupported patch line in '" ++ filePath ++ "': " ++ line))

/-- The lines between the markers. An operation takes the lines up to the next directive. -/
def parseOperations (openOperation : OpenOperation) : List String →
 Except ToolError (List PatchOperation)
 | [] => openOperation.close
 | line::rest =>
  if StartsWith "*** " line then do
   let closed ← openOperation.close
   let (operations,next) ← parseDirective line
   let others ← parseOperations next rest
   return closed++operations++others
  else
   match openOperation with
   | .none => .error (.message ("Unsupported patch directive: " ++ line))
   | .add filePath lines =>
    if StartsWith "+" line then
     parseOperations (.add filePath (lines ++ [behind "+" line])) rest
    else .error (.message ("Add file '" ++ filePath ++ "' lines must start with '+'."))
   | .update filePath hunks current =>
    if StartsWith "@@" line then
     parseOperations (.update filePath (hunks++current.toList) (some ⟨[],[]⟩)) rest
    else do
     let hunk ← parseHunkLine filePath (current.getD ⟨[],[]⟩) line
     parseOperations (.update filePath hunks (some hunk)) rest

def parseApplyPatch (patch : String) : Except ToolError (List PatchOperation) :=
 let patchLines := ((lines patch).reverse.dropWhile (· = "")).reverse
 if patchLines.head? ≠ some "*** Begin Patch" ∨ patchLines.getLast? ≠ some "*** End Patch" then
  .error (.message "Patch must be wrapped in *** Begin Patch and *** End Patch markers.")
 else do
  let operations ← parseOperations .none patchLines.tail.dropLast
  if operations = [] then
   .error (.message "Patch did not contain any file operations.")
  else return operations

def findLineSequence (fileLines sequence : List String) (startIndex : Nat) : Option Nat :=
 if sequence = [] then some startIndex
 else (List.range (fileLines.length+1-sequence.length)).find? fun index =>
  startIndex ≤ index ∧ (fileLines.drop index).take sequence.length = sequence

def applyHunks (filePath : String) : List PatchHunk → List String → Nat →
 Except ToolError (List String)
 | [],fileLines,_ => .ok fileLines
 | hunk::hunks,fileLines,cursor =>
  match findLineSequence fileLines hunk.oldLines cursor with
  | none => .error (.message ("Patch hunk did not match " ++ filePath ++ "."))
  | some start => applyHunks filePath hunks
   (fileLines.take start++hunk.newLines++fileLines.drop (start+hunk.oldLines.length))
   (start+hunk.newLines.length)

def applyUpdateHunks (content : String) (hunks : List PatchHunk) (filePath : String) :
 Except ToolError String := do
 let fileLines ← applyHunks filePath hunks (splitFileLines content) 0
 return if fileLines = [] then ""
  else "\n".intercalate fileLines ++ if content.toList.getLast? = some '\n' then "\n" else ""

def formatPatchLines (patchLines : List String) : String :=
 if patchLines = [] then "" else "\n".intercalate patchLines ++ "\n"

end

variable (path : Path)

section
variable (cwd : WorkingDirectory) (repoRoot : String)

def throwing {α : Type} : Except ToolError α → Tool α
 | .ok a => pure a
 | .error e => fail e

def existsSync : Tool Bool := query fun disk => (disk.files.stat path).isSome

def readFileSync : Tool String := call (Disk.read fun files => files.readFile path)

def writeFileSync (content : String) : Tool Unit :=
 call (Disk.change fun files => files.writeFile path content)

def unlinkSync : Tool Unit := call (Disk.change fun files => files.unlink path)

def mkdirAround : Tool Unit := call (Disk.mkdirAll path.dropLast.reverse)

def contentBefore : Tool String := do
 if ← existsSync path then readFileSync path else pure ""

structure WriteInput where
 path : String
 content : String
 createDirs : Bool

structure WriteOutput where
 path : String
 bytesWritten : Nat
 diffSummary : DiffSummary

def executeWriteTool (input : WriteInput) : Tool WriteOutput := do
 let resolved ← throwing (resolveRepoPath cwd repoRoot input.path)
 let before ← contentBefore resolved.absolutePath
 if input.createDirs then
  mkdirAround resolved.absolutePath
 writeFileSync resolved.absolutePath input.content
 return ⟨resolved.relativePath,input.content.utf8ByteSize,
  summarizeTextDiff resolved.relativePath before input.content⟩

structure EditInput where
 path : String
 oldText : String
 newText : String
 replaceAll : Bool

structure EditOutput where
 path : String
 replacements : Nat
 bytesRead : Nat
 bytesReturned : Nat
 diffSummary : DiffSummary

def executeEditTool (input : EditInput) : Tool EditOutput := do
 let resolved ← throwing (resolveRepoPath cwd repoRoot input.path)
 let original ← readFileSync resolved.absolutePath
 if Contains input.oldText original then
  let replacements := if input.replaceAll then (splitBy input.oldText original).length-1 else 1
  let updated := if input.replaceAll then input.newText.intercalate (splitBy input.oldText original)
   else replaceFirst input.oldText input.newText original
  writeFileSync resolved.absolutePath updated
  return ⟨resolved.relativePath,replacements,original.utf8ByteSize,updated.utf8ByteSize,
   summarizeTextDiff resolved.relativePath original updated⟩
 else
  fail (.message ("Text to replace was not found in " ++ resolved.relativePath ++ "."))

def applyOperation : PatchOperation → Tool DiffSummary
 | .add filePath addedLines => do
  let resolved ← throwing (resolveRepoPath cwd repoRoot filePath)
  if ← existsSync resolved.absolutePath then
   fail (.message ("Cannot add '" ++ resolved.relativePath ++ "' because it already exists."))
  else
   mkdirAround resolved.absolutePath
   writeFileSync resolved.absolutePath (formatPatchLines addedLines)
   return summarizeTextDiff resolved.relativePath "" (formatPatchLines addedLines)
 | .delete filePath => do
  let resolved ← throwing (resolveRepoPath cwd repoRoot filePath)
  let before ← readFileSync resolved.absolutePath
  unlinkSync resolved.absolutePath
  return summarizeTextDiff resolved.relativePath before ""
 | .update filePath hunks => do
  let resolved ← throwing (resolveRepoPath cwd repoRoot filePath)
  let before ← readFileSync resolved.absolutePath
  let after ← throwing (applyUpdateHunks before hunks resolved.relativePath)
  writeFileSync resolved.absolutePath after
  return summarizeTextDiff resolved.relativePath before after

def applyOperations : List PatchOperation → Tool (List DiffSummary)
 | [] => pure []
 | operation::operations => do
  let summary ← applyOperation cwd repoRoot operation
  let summaries ← applyOperations operations
  return summary::summaries

def executeApplyPatchTool (patch : String) : Tool DiffSummary := do
 let operations ← throwing (parseApplyPatch patch)
 let summaries ← applyOperations cwd repoRoot operations
 return combineDiffSummaries summaries

end

end DhKit.FileTools
