import DhKit.JsonValues
import DhKit.SessionTransfer
import DhKit.TextPatterns

/-!
# Sanitized exports

`sanitizeSessionExport` replaces strings of an export by markers.
-/
namespace DhKit.SessionRecords
open JsonRpc TextPatterns Pattern

/-! ## The export as a value -/

def WorkflowLane.text : WorkflowLane → String
 | quick => "quick"
 | delivery => "delivery"
 | migration => "migration"
 | full => "full"

def SessionStatus.text : SessionStatus → String
 | pending => "pending"
 | inProgress => "in_progress"
 | blocked => "blocked"
 | complete => "complete"

def SemanticMode.text : SemanticMode → String
 | always => "always"
 | auto => "auto"
 | off => "off"

def ToolEnforcementLevel.text : ToolEnforcementLevel → String
 | veryHard => "very-hard"

def CheckpointType.text : CheckpointType → String
 | sessionBootstrap => "session_bootstrap"
 | postWorkflow => "post_workflow"
 | postStageAdvance => "post_stage_advance"
 | preRevert => "pre_revert"

def optionalField (key : String) (value : Option Json) : List (String × Json) :=
 (value.map fun value => (key,value)).toList

def SessionState.toJson (row : SessionState) : Json :=
 .object ([("sessionId",.string row.sessionId),("repoRoot",.string row.repoRoot),
  ("lane",.string row.lane.text),("laneLocked",.bool row.laneLocked),
  ("currentStage",.string row.currentStage),("status",.string row.status.text),
  ("createdAt",.string row.createdAt),("updatedAt",.string row.updatedAt),
  ("activeWorkItemIds",.array (row.activeWorkItemIds.map Json.string)),
  ("semanticMode",.string row.semanticMode.text),
  ("toolEnforcementLevel",.string row.toolEnforcementLevel.text)] ++
  optionalField "latestSummaryId" (row.latestSummaryId.map Json.string) ++
  optionalField "latestCheckpointId" (row.latestCheckpointId.map Json.string) ++
  optionalField "latestRevertId" (row.latestRevertId.map Json.string))

def SessionRuntimeEventRecord.toJson (row : SessionRuntimeEventRecord) : Json :=
 .object [("id",.string row.id),("sessionId",.string row.sessionId),
  ("eventType",.string row.eventType),("eventJson",row.eventJson),
  ("createdAt",.string row.createdAt)]

/-- A stage that is missing is read from its row as null. -/
def SessionSummaryRecord.toJson (row : SessionSummaryRecord) : Json :=
 .object ([("id",.string row.id),("sessionId",.string row.sessionId),
  ("filesChanged",row.filesChanged),("additions",row.additions),
  ("deletions",row.deletions)] ++
  optionalField "lastDiffAt" row.lastDiffAt ++
  [("latestStage",row.latestStage.getD .null)] ++
  optionalField "latestCheckpointId" row.latestCheckpointId ++
  optionalField "continuationSummary" row.continuationSummary ++
  optionalField "continuationCreatedAt" row.continuationCreatedAt ++
  [("updatedAt",.string row.updatedAt)])

def SessionCheckpointRecord.toJson (row : SessionCheckpointRecord) : Json :=
 .object [("id",.string row.id),("sessionId",.string row.sessionId),
  ("checkpointType",.string row.checkpointType.text),("lane",.string row.lane.text),
  ("stage",.string row.stage),("summarySnapshotJson",row.summarySnapshotJson),
  ("workflowSnapshotJson",row.workflowSnapshotJson),("continuationJson",row.continuationJson),
  ("metadataJson",row.metadataJson),("createdAt",.string row.createdAt)]

def SessionRevertRecord.toJson (row : SessionRevertRecord) : Json :=
 .object ([("id",.string row.id),("sessionId",.string row.sessionId),
  ("checkpointId",.string row.checkpointId)] ++
  optionalField "previousCheckpointId" (row.previousCheckpointId.map Json.string) ++
  [("reason",.string row.reason),("createdAt",.string row.createdAt)])

def SessionExportPayload.toJson (payload : SessionExportPayload) : Json :=
 .object [("session",payload.session.toJson),
  ("runtimeEvents",.array (payload.runtimeEvents.map SessionRuntimeEventRecord.toJson)),
  ("summaries",.array (payload.summaries.map SessionSummaryRecord.toJson)),
  ("checkpoints",.array (payload.checkpoints.map SessionCheckpointRecord.toJson)),
  ("reverts",.array (payload.reverts.map SessionRevertRecord.toJson))]

def SessionExportDocument.toJson (document : SessionExportDocument) : Json :=
 .object [("schemaVersion",.unsigned document.schemaVersion),
  ("exportedAt",.string document.exportedAt),
  ("source",.object [("product",.string document.source.product),
   ("version",.string document.source.version),
   ("repoRoot",.string document.source.repoRoot)]),
  ("sanitized",.bool document.sanitized),("payload",document.payload.toJson)]

/-! ## Redaction -/

/-- `/api[_-]?key|token|authorization|secret|password/i` -/
def isSecretKey (key : String) : Bool :=
 (anyOf (seq (word "api") (seq (optional (· ∈ ['_','-'])) (word "key")))
  [word "token",word "authorization",word "secret",word "password"]).test key

/-- `[a-z0-9._:-]`, with the letters in both cases. -/
def isSecretCharacter (c : Char) : Bool := c.isAlphanum || c ∈ ['.','_',':','-']

/-- `/bearer\s+[a-z0-9._:-]+|sk-[a-z0-9._:-]+/i` -/
def containsSecret (value : String) : Bool :=
 (alt (seq (word "bearer") (seq (many isSpaceCharacter) (many isSecretCharacter)))
  (seq (word "sk-") (many isSecretCharacter))).test value

/-- `/command|cmd|shell/i` -/
def isCommandKey (key : String) : Bool :=
 (anyOf (word "command") [word "cmd",word "shell"]).test key

/-- `/content|fileContent|body/i` -/
def isFileContentKey (key : String) : Bool :=
 (anyOf (word "content") [word "filecontent",word "body"]).test key

section
variable (repoRoot home : String)

def isPathLike (value : String) : Bool := StartsWith repoRoot value ∨ StartsWith home value

def redactString (key value : String) : String :=
 if isSecretKey key || containsSecret value then "[REDACTED_SECRET]"
 else if isCommandKey key then "[REDACTED_COMMAND]"
 else if isFileContentKey key then "[REDACTED_FILE_CONTENT]"
 else if isPathLike repoRoot home value then "[REDACTED_PATH]"
 else value

/-- `redactValue`: the items of an array are redacted under the key of the array, the values of an
object under their own keys. -/
def redactValue (value : Json) (key : String) : Json :=
 value.mapStrings (redactString repoRoot home) key

def sanitizeSessionExport (document : SessionExportDocument) : Json :=
 redactValue repoRoot home document.toJson ""

end

/-! ## What is hidden -/

def redactionMarkers : List String :=
 ["[REDACTED_SECRET]","[REDACTED_COMMAND]","[REDACTED_FILE_CONTENT]","[REDACTED_PATH]"]

def isGuardedKey (key : String) : Bool :=
 isSecretKey key || isCommandKey key || isFileContentKey key

section
variable (repoRoot home : String)

def PathFree (text : String) : Prop := ¬ Contains repoRoot text ∧ ¬ Contains home text

structure HiddenString (keys : List String) (text : String) : Prop where
 paths : PathFree repoRoot home text
 secrets : containsSecret text = false
 guarded : (∃ key ∈ keys,isGuardedKey key) → text ∈ redactionMarkers

structure Sanitized (document sanitized : Json) : Prop where
 shape : sanitized.shape = document.shape
 strings : ∀ keys text,Json.StringAt keys text sanitized → HiddenString repoRoot home keys text

/-- What makes the redaction replace a string: the innermost key, a secret in it, or a path at its
beginning. -/
def Recognized (keys : List String) (text : String) : Prop :=
 isGuardedKey (Json.keyAbove "" keys) ∨ containsSecret text ∨ isPathLike repoRoot home text

/-- A string of the document that is well redacted: if it is to be hidden, it is recognized, and
the marker that takes its place does not itself name one of the two directories. -/
structure Redactable (keys : List String) (text : String) : Prop where
 paths : Recognized repoRoot home keys text ∨ PathFree repoRoot home text
 guarded : (∃ key ∈ keys,isGuardedKey key) →
  Recognized repoRoot home keys text ∨ text ∈ redactionMarkers
 secret : isSecretKey (Json.keyAbove "" keys) ∨ containsSecret text →
  PathFree repoRoot home "[REDACTED_SECRET]"
 command : isSecretKey (Json.keyAbove "" keys) = false → containsSecret text = false →
  isCommandKey (Json.keyAbove "" keys) → PathFree repoRoot home "[REDACTED_COMMAND]"
 fileContent : isSecretKey (Json.keyAbove "" keys) = false → containsSecret text = false →
  isCommandKey (Json.keyAbove "" keys) = false → isFileContentKey (Json.keyAbove "" keys) →
  PathFree repoRoot home "[REDACTED_FILE_CONTENT]"
 path : isGuardedKey (Json.keyAbove "" keys) = false → containsSecret text = false →
  isPathLike repoRoot home text → PathFree repoRoot home "[REDACTED_PATH]"

end

section
variable {repoRoot home : String} {text : String} {keys : List String}

theorem containsSecret_marker (h:text∈redactionMarkers) :
 containsSecret text=false := by
 revert text
 decide

theorem hiddenString_marker (h:text∈redactionMarkers) :
 HiddenString repoRoot home keys text ↔ PathFree repoRoot home text :=
 ⟨fun hh=>hh.paths,fun hf=>⟨hf,containsSecret_marker h,fun _=>h⟩⟩

theorem hiddenString_iff :
 HiddenString repoRoot home keys
  (redactString repoRoot home (Json.keyAbove "" keys) text) ↔
  Redactable repoRoot home keys text := by
 unfold redactString
 by_cases hse : (isSecretKey (Json.keyAbove "" keys) || containsSecret text)=true
 · have hor:=(Bool.or_eq_true _ _).mp hse
   have hr:Recognized repoRoot home keys text:=by
    rcases hor with hk|htext
    · exact .inl (by simp [isGuardedKey,hk])
    · exact .inr (.inl htext)
   rw [if_pos hse,hiddenString_marker (by decide)]
   constructor
   · intro hf
     refine ⟨.inl hr,fun _=>.inl hr,fun _=>hf,?_,?_,?_⟩
     · intro hk htext
       simp [hk,htext] at hse
     · intro hk htext
       simp [hk,htext] at hse
     · intro hk htext
       simp only [isGuardedKey,Bool.or_eq_false_iff] at hk
       simp [hk.1.1,htext] at hse
   · intro h
     exact h.secret hor
 obtain ⟨hsec,hn⟩:=Bool.or_eq_false_iff.mp (eq_false_of_ne_true hse)
 rw [if_neg hse]
 by_cases hco : isCommandKey (Json.keyAbove "" keys)=true
 · have hr:Recognized repoRoot home keys text:=
    .inl (by simp [isGuardedKey,hco])
   rw [if_pos hco,hiddenString_marker (by decide)]
   constructor
   · intro hf
     refine ⟨.inl hr,fun _=>.inl hr,?_,fun _ _ _=>hf,?_,?_⟩
     · simp [hsec,hn]
     · simp [hco]
     · simp [isGuardedKey,hco]
   · intro h
     exact h.command hsec hn hco
 have hno:=eq_false_of_ne_true hco
 rw [if_neg hco]
 by_cases hcon : isFileContentKey (Json.keyAbove "" keys)=true
 · have hr:Recognized repoRoot home keys text:=
    .inl (by simp [isGuardedKey,hcon])
   rw [if_pos hcon,hiddenString_marker (by decide)]
   constructor
   · intro hf
     refine ⟨.inl hr,fun _=>.inl hr,?_,?_,fun _ _ _ _=>hf,?_⟩
     · simp [hsec,hn]
     · simp [hno]
     · simp [isGuardedKey,hcon]
   · intro h
     exact h.fileContent hsec hn hno hcon
 have hnoC:=eq_false_of_ne_true hcon
 have hu:isGuardedKey (Json.keyAbove "" keys)=false := by
  simp [isGuardedKey,hsec,hno,hnoC]
 rw [if_neg hcon]
 by_cases hp : isPathLike repoRoot home text=true
 · have hr:Recognized repoRoot home keys text:=.inr (.inr hp)
   rw [if_pos hp,hiddenString_marker (by decide)]
   constructor
   · intro hf
     refine ⟨.inl hr,fun _=>.inl hr,?_,?_,?_,fun _ _ _=>hf⟩
     · simp [hsec,hn]
     · simp [hno]
     · simp [hnoC]
   · intro h
     exact h.path hu hn hp
 have hun:¬Recognized repoRoot home keys text:=by
  simp [Recognized,hu,hn,hp]
 rw [if_neg hp]
 constructor
 · intro h
   refine ⟨.inr h.paths,fun hgu=>.inr (h.guarded hgu),?_,?_,?_,?_⟩
   · simp [hsec,hn]
   · simp [hno]
   · simp [hnoC]
   · simp [hp]
 · intro h
   exact ⟨h.paths.resolve_left hun,hn,
    fun hgu=>(h.guarded hgu).resolve_left hun⟩

theorem shape_redactValue (value : Json) :
 (redactValue repoRoot home value "").shape=value.shape := by
 unfold redactValue Json.shape
 rw [Json.mapStrings_mapStrings]

theorem redactValue_sanitized_iff (value : Json) :
 Sanitized repoRoot home value (redactValue repoRoot home value "") ↔
  ∀keys text,Json.StringAt keys text value → Redactable repoRoot home keys text := by
 constructor
 · intro h keys text hat
   exact hiddenString_iff.mp (h.strings keys _ (Json.stringAt_mapStrings.mpr ⟨text,hat,rfl⟩))
 · intro h
   refine ⟨shape_redactValue value,fun keys text hat=>?_⟩
   obtain ⟨before,hb,rfl⟩:=Json.stringAt_mapStrings.mp hat
   exact hiddenString_iff.mpr (h keys before hb)

end

/-- A sanitized export shows no directory, no secret and no string below a guarded key, and has
the shape of the document, exactly when every string that must be hidden is recognized by itself
or by its innermost key, and no marker that is put in names one of the directories. -/
theorem export_sanitized_iff (document : SessionExportDocument) (repoRoot home : String) :
 Sanitized repoRoot home document.toJson (sanitizeSessionExport repoRoot home document) ↔
  ∀ keys text,Json.StringAt keys text document.toJson → Redactable repoRoot home keys text :=
 redactValue_sanitized_iff document.toJson

def eventExport (eventJson : Json) : SessionExportDocument where
 schemaVersion := 1
 exportedAt := "t"
 source := ⟨"dh","1.0","/repo"⟩
 sanitized := true
 payload :=
  { session := plainSession "s"
    runtimeEvents := [⟨"e","s","tool.called",eventJson,"t"⟩]
    summaries := []
    checkpoints := []
    reverts := [] }

theorem stringAt_eventExport {eventJson : Json} {keys : List String} {text : String}
 (h:Json.StringAt keys text eventJson) :
 Json.StringAt ("payload" :: "runtimeEvents" :: "eventJson" :: keys) text
  (eventExport eventJson).toJson := by
 have hev:Json.StringAt ("eventJson" :: keys) text
  (SessionRuntimeEventRecord.toJson ⟨"e","s","tool.called",eventJson,"t"⟩) :=
  .field (.tail _ (.tail _ (.tail _ (.head _)))) h
 have hp:Json.StringAt ("runtimeEvents" :: "eventJson" :: keys) text
  (eventExport eventJson).payload.toJson :=
  .field (.tail _ (.head _)) (.item (.head _) hev)
 exact .field (.tail _ (.tail _ (.tail _ (.tail _ (.head _))))) hp

/-- A path in the middle of a string and a string below a secret key survive. -/
theorem sanitized_export_leaks :
 let event := Json.object [("note",.string "see /repo/src"),
  ("token",.object [("value",.string "abc")])]
 let leaked := sanitizeSessionExport "/repo" "/home/dev" (eventExport event)
 Json.StringAt ["payload","runtimeEvents","eventJson","note"] "see /repo/src" leaked ∧
  Contains "/repo" "see /repo/src" ∧
  Json.StringAt ["payload","runtimeEvents","eventJson","token","value"] "abc" leaked ∧
  isSecretKey "token" := by
 intro event leaked
 have hn:Json.StringAt ["note"] "see /repo/src" event := .field (.head _) (.string _)
 have hto:Json.StringAt ["token","value"] "abc" event :=
  .field (.tail _ (.head _)) (.field (.head _) (.string _))
 refine ⟨?_,by decide,?_,by decide⟩
 · exact Json.stringAt_mapStrings.mpr ⟨_,stringAt_eventExport hn,by decide⟩
 · exact Json.stringAt_mapStrings.mpr ⟨_,stringAt_eventExport hto,by decide⟩

end DhKit.SessionRecords
