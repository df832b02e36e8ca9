import DhKit.RunConditions
import DhKit.SessionReverts

/-!
# Undoing a revert

`undoRevert` goes back to the checkpoint of the revert before, not to the state before the revert.
-/
namespace DhKit.SessionRecords
open KeyedTables JsonRpc NewestFirst RunConditions List

section
variable (env : Surroundings) (w : World)

structure Unused : Prop where
 reverts : ∀ n,w.ticks ≤ n → env.createId .revert n ∉ w.db.reverts.rows.map (·.id)
 summaries : ∀ n,w.ticks ≤ n →
  env.createId .summary n ∉ w.db.summaries.rows.map (·.id)

/-- The checkpoint of a session can be reverted to: it is found, and its snapshots can be bound. -/
structure Revertible (sessionId : String)
 (checkpoint : SessionCheckpointRecord) (session : SessionState) (workflow : WorkflowState)
 (summary : SessionSummaryRecord) : Prop where
 idle : sessionId ∉ w.busy
 found : w.db.findCheckpoint checkpoint.id = some checkpoint
 own : checkpoint.sessionId = sessionId
 session : w.db.findSession sessionId = some session
 workflow : bindWorkflow env.driver sessionId checkpoint.workflowSnapshotJson = some workflow
 summary : bindSummary env.driver (env.createId .summary w.ticks) sessionId checkpoint.id
  (env.nowIso .summary w.ticks) checkpoint.summarySnapshotJson = some summary

def newRevert (sessionId checkpointId reason : String) :
 SessionRevertRecord where
 id := env.createId .revert w.ticks
 sessionId := sessionId
 checkpointId := checkpointId
 previousCheckpointId := (w.db.findLatestRevert sessionId).map SessionRevertRecord.checkpointId
 reason := reason
 createdAt := env.nowIso .revert w.ticks

structure Reverted (w w' : World) (sessionId reason : String)
 (checkpoint : SessionCheckpointRecord) (session : SessionState) (workflow : WorkflowState)
 (summary : SessionSummaryRecord) : Prop where
 busy : w'.busy = w.busy
 ticks : w'.ticks = w.ticks+1
 checkpoints : w'.db.checkpoints = w.db.checkpoints
 workflowStates : w'.db.workflowStates = w.db.workflowStates.upsert workflow
 session : ∃ row,w'.db.sessions = w.db.sessions.upsert row ∧ row.sessionId = session.sessionId ∧
  row.currentStage = checkpoint.stage ∧ row.latestCheckpointId = some checkpoint.id
 summaries : w'.db.summaries = w.db.summaries.upsert summary
 reverts : w'.db.reverts = w.db.reverts.upsert (newRevert env w sessionId checkpoint.id reason)

end

section
variable {env : Surroundings} {w w' : World} {sessionId checkpointId reason : String}
 {checkpoint : SessionCheckpointRecord} {session : SessionState} {workflow : WorkflowState}
 {summary : SessionSummaryRecord} {report : RevertReport}

theorem findSession_sessionId (h:w.db.findSession sessionId=some session) :
 session.sessionId=sessionId := by
 obtain ⟨row,hrow,rfl⟩:=Option.map_eq_some_iff.mp h
 exact ((Table.find_eq_some _).mp hrow).2

theorem findCheckpoint_id (h:w.db.findCheckpoint checkpointId=some checkpoint) :
 checkpoint.id=checkpointId :=
 ((Table.find_eq_some _).mp h).2

theorem revertTo_of_revertible (h:Revertible env w sessionId checkpoint session workflow summary)
 (reason : String) : ∃w' report,revertTo env w sessionId checkpoint.id reason =
  (w',.ok report) ∧ Reverted env w w' sessionId reason checkpoint session workflow summary := by
 have hf:(w.db.findCheckpoint checkpoint.id).filter
  (fun checkpoint=>checkpoint.sessionId=sessionId)=some checkpoint := by
  rw [h.found,Option.filter_some,if_pos (by simpa using h.own)]
 have hid:=findSession_sessionId h.session
 unfold revertTo
 rw [if_neg h.idle,hf]
 rw [h.session]
 dsimp only
 rw [h.workflow]
 rw [h.summary]
 refine ⟨_,_,rfl,rfl,rfl,rfl,rfl,⟨_,rfl,rfl,rfl,rfl⟩,rfl,?_⟩
 subst hid
 rfl

theorem revertible_of_ok (h:revertTo env w sessionId checkpointId reason=(w',.ok report)) :
 ∃checkpoint session workflow summary,checkpoint.id=checkpointId ∧
  Revertible env w sessionId checkpoint session workflow summary := by
 unfold revertTo at h
 split_ifs at h with hb
 · cases h
 cases hf : (w.db.findCheckpoint checkpointId).filter
  (fun checkpoint=>checkpoint.sessionId=sessionId) with
 | none =>
  rw [hf] at h
  cases h
 | some checkpoint =>
  rw [hf] at h
  obtain ⟨hfo,ho⟩:=Option.filter_eq_some_iff.mp hf
  have hid:=findCheckpoint_id hfo
  cases hse : w.db.findSession sessionId with
  | none =>
   rw [hse] at h
   cases h
  | some session =>
   rw [hse] at h
   dsimp only at h
   cases hwo : bindWorkflow env.driver sessionId checkpoint.workflowSnapshotJson with
   | none =>
    rw [hwo] at h
    cases h
   | some workflow =>
    rw [hwo] at h
    cases hsu : bindSummary env.driver (env.createId .summary w.ticks)
     sessionId checkpoint.id (env.nowIso .summary w.ticks)
     checkpoint.summarySnapshotJson with
    | none =>
     rw [hsu] at h
     cases h
    | some summary =>
     refine ⟨checkpoint,session,workflow,summary,hid,hb,?_,by simpa using ho,
      hse,hwo,hsu⟩
     rw [hid,hfo]

end

def SessionSummaryRecord.figures (summary : SessionSummaryRecord) : Json × Json × Json :=
 (summary.filesChanged,summary.additions,summary.deletions)

/-- The figures of the newest summary of a session when `added` are saved after those it has. -/
def figuresWith (w : World) (sessionId : String) (added : List SessionSummaryRecord) :
 Option (Json × Json × Json) :=
 (newestFirst SessionSummaryRecord.updatedAt ((w.db.summaries.rows.filter fun row =>
  row.sessionId = sessionId)++added)).head?.map SessionSummaryRecord.figures

structure SessionView where
 workflow : Option WorkflowState
 currentStage : Option String
 latestCheckpointId : Option (Option String)
 figures : Option (Json × Json × Json)

def view (w : World) (sessionId : String) : SessionView where
 workflow := w.db.workflowStates.find sessionId
 currentStage := (w.db.findSession sessionId).map SessionState.currentStage
 latestCheckpointId := (w.db.findSession sessionId).map SessionState.latestCheckpointId
 figures := (w.db.findLatestSummary sessionId).map SessionSummaryRecord.figures

section
variable {env : Surroundings} {w w' : World} {sessionId reason : String}
 {checkpoint : SessionCheckpointRecord} {session : SessionState} {workflow : WorkflowState}
 {summary : SessionSummaryRecord} {driver : Driver} {snapshot : Json}

theorem figures_view (w : World) (sessionId : String) :
 (view w sessionId).figures=figuresWith w sessionId [] := by
 unfold figuresWith
 rw [append_nil]
 rfl

theorem bindWorkflow_sessionId (h:bindWorkflow driver sessionId snapshot=some workflow) :
 workflow.sessionId=sessionId := by
 simp only [bindWorkflow,bind,Option.bind_eq_some_iff] at h
 obtain ⟨_,-,_,-,_,-,_,-,_,-,_,-,_,-,hrow⟩:=h
 cases hrow
 rfl

theorem bindSummary_ids {id checkpointId updatedAt : String}
 (h:bindSummary driver id sessionId checkpointId updatedAt snapshot=some summary) :
 summary.id=id ∧ summary.sessionId=sessionId := by
 unfold bindSummary at h
 split_ifs at h
 simp only [bind,Option.bind_eq_some_iff] at h
 obtain ⟨_,-,_,-,_,-,_,-,_,-,_,-,_,-,_,-,hrow⟩:=h
 cases hrow
 exact ⟨rfl,rfl⟩

theorem reverts_reverted (hunused:Unused env w)
 (hreverted:Reverted env w w' sessionId reason checkpoint session workflow summary) :
 w'.db.reverts.rows=w.db.reverts.rows++[newRevert env w sessionId checkpoint.id reason] := by
 rw [hreverted.reverts]
 apply Table.rows_upsert_of_fresh
 exact hunused.reverts w.ticks (Nat.le_refl _)

variable (hunused : Unused env w)
 (h : Revertible env w sessionId checkpoint session workflow summary)
 (hreverted : Reverted env w w' sessionId reason checkpoint session workflow summary)
include hunused h hreverted

theorem summaries_reverted :
 w'.db.summaries.rows=w.db.summaries.rows++[summary] := by
 rw [hreverted.summaries]
 apply Table.rows_upsert_of_fresh
 rw [(bindSummary_ids h.summary).1]
 exact hunused.summaries w.ticks (Nat.le_refl _)

theorem figuresWith_reverted (added : List SessionSummaryRecord) :
 figuresWith w' sessionId added=figuresWith w sessionId (summary::added) := by
 have ho:=(bindSummary_ids h.summary).2
 unfold figuresWith
 rw [summaries_reverted hunused h hreverted,filter_append]
 simp [ho]

theorem view_reverted :
 view w' sessionId=⟨some workflow,some checkpoint.stage,some (some checkpoint.id),
  figuresWith w sessionId [summary]⟩ := by
 obtain ⟨row,hse,hid,hstage,hp⟩:=hreverted.session
 have hk:sessionId=row.sessionId:=by rw [hid,findSession_sessionId h.session]
 have hwo:w'.db.workflowStates.find sessionId=some workflow:=by
  rw [hreverted.workflowStates,Table.find_upsert,
   if_pos (bindWorkflow_sessionId h.workflow).symm]
 have hses:w'.db.findSession sessionId=some { row with laneLocked:=true } := by
  rw [Database.findSession,hse,Table.find_upsert,if_pos hk]
  rfl
 have hf:=figures_view w' sessionId
 rw [figuresWith_reverted hunused h hreverted] at hf
 rw [←hf]
 unfold view
 rw [hwo,hses]
 dsimp only [Option.map_some]
 rw [hstage,hp]

theorem Unused.reverted :
 Unused env w' := by
 constructor
 · intro n hn
   rw [hreverted.ticks] at hn
   rw [reverts_reverted hunused hreverted,map_append,mem_append]
   rintro (ho|hnew)
   · exact hunused.reverts n (by omega) ho
   · have := (env.createId_injective (mem_singleton.mp hnew)).2
     omega
 · intro n hn
   rw [hreverted.ticks] at hn
   rw [summaries_reverted hunused h hreverted,map_append,mem_append]
   rintro (ho|hnew)
   · exact hunused.summaries n (by omega) ho
   · rw [map_singleton,mem_singleton,(bindSummary_ids h.summary).1] at hnew
     have := (env.createId_injective hnew).2
     omega

end

section
variable {env : Surroundings} {w w' : World} {sessionId checkpointId reason error : String}
 {report : RevertReport}

theorem revertTo_error (h:revertTo env w sessionId checkpointId reason=(w',.error error)) :
 w'.db.reverts=w.db.reverts ∧ w'.db.summaries=w.db.summaries ∧ w'.ticks=w.ticks := by
 unfold revertTo at h
 dsimp only at h
 repeat' split at h
 all_goals cases h
 all_goals exact ⟨rfl,rfl,rfl⟩

theorem reverted_of_ok (h:revertTo env w sessionId checkpointId reason=(w',.ok report)) :
 ∃checkpoint session workflow summary,checkpoint.id=checkpointId ∧
  Revertible env w sessionId checkpoint session workflow summary ∧
  Reverted env w w' sessionId reason checkpoint session workflow summary := by
 obtain ⟨checkpoint,session,workflow,summary,hid,hr⟩:=revertible_of_ok h
 obtain ⟨w'',report',heq,hreverted⟩:=revertTo_of_revertible hr reason
 rw [hid,h] at heq
 cases heq
 exact ⟨checkpoint,session,workflow,summary,hid,hr,hreverted⟩

theorem Unused.revertTo (hunused:Unused env w) (sessionId checkpointId reason : String) :
 Unused env (revertTo env w sessionId checkpointId reason).1 := by
 cases hr : SessionRecords.revertTo env w sessionId checkpointId reason with
 | mk w' result =>
  cases result with
  | error error =>
   obtain ⟨hre,hsu,hti⟩:=revertTo_error hr
   constructor
   · rw [hre,hti]
     exact hunused.reverts
   · rw [hsu,hti]
     exact hunused.summaries
  | ok report =>
   obtain ⟨_,_,_,_,-,hrev,hreverted⟩:=reverted_of_ok hr
   exact hunused.reverted hrev hreverted

theorem Unused.step (hunused:Unused env w) (call : RevertCall) :
 Unused env (w.step env call) := by
 cases call with
 | revertTo sessionId checkpointId reason =>
  exact hunused.revertTo sessionId checkpointId reason
 | undoRevert sessionId =>
  change Unused env (undoRevert env w sessionId).1
  unfold undoRevert
  repeat' split
  all_goals first | exact hunused | exact hunused.revertTo _ _ _

theorem Unused.run (hunused:Unused env w) (calls : List RevertCall) :
 Unused env (calls.foldl (World.step env) w) := by
 induction calls generalizing w with
 | nil => exact hunused
 | cons call calls ih => exact ih (hunused.step call)

end

section
variable (env : Surroundings) (w : World) (sessionId checkpointId reason : String)

/-- The revert record that is the newest once a revert is recorded: the new one, unless one that is
stored carries a later time. -/
def newestRevert :
 SessionRevertRecord :=
 let added := newRevert env w sessionId checkpointId reason
 match w.db.findLatestRevert sessionId with
 | none => added
 | some latest => if latest.createdAt ≤ added.createdAt then added else latest

structure UndoTarget (target : SessionCheckpointRecord) : Prop where
 named : (newestRevert env w sessionId checkpointId reason).previousCheckpointId = some target.id
 nonempty : target.id ≠ ""
 other : (newestRevert env w sessionId checkpointId reason).checkpointId≠target.id
 found : w.db.findCheckpoint target.id = some target
 own : target.sessionId = sessionId

/-- The session shows what a revert from `checkpoint` back to `target` would leave. -/
structure StandsAt (sessionId : String)
 (checkpoint target : SessionCheckpointRecord) : Prop where
 workflow : ∃ workflow,bindWorkflow env.driver sessionId target.workflowSnapshotJson =
  some workflow ∧ (view w sessionId).workflow = some workflow
 currentStage : (view w sessionId).currentStage = some target.stage
 latestCheckpointId : (view w sessionId).latestCheckpointId = some (some target.id)
 figures : ∃ left back,
  bindSummary env.driver (env.createId .summary w.ticks) sessionId checkpoint.id
   (env.nowIso .summary w.ticks) checkpoint.summarySnapshotJson = some left ∧
  bindSummary env.driver (env.createId .summary (w.ticks+1)) sessionId target.id
   (env.nowIso .summary (w.ticks+1)) target.summarySnapshotJson = some back ∧
  (view w sessionId).figures = figuresWith w sessionId [left,back]

end

section
variable {env : Surroundings} {w w' : World} {sessionId reason : String}
 {checkpoint target : SessionCheckpointRecord} {session : SessionState} {workflow : WorkflowState}
 {summary : SessionSummaryRecord} {latest : SessionRevertRecord}

theorem findLatestRevert_reverted (hunused:Unused env w)
 (hreverted:Reverted env w w' sessionId reason checkpoint session workflow summary) :
 w'.db.findLatestRevert sessionId =
  some (newestRevert env w sessionId checkpoint.id reason) := by
 have hr:(w'.db.reverts.rows.filter fun row=>row.sessionId=sessionId) =
  (w.db.reverts.rows.filter fun row=>row.sessionId=sessionId) ++
   [newRevert env w sessionId checkpoint.id reason] := by
  rw [reverts_reverted hunused hreverted,filter_append]
  simp [newRevert]
 have hb:(newestFirst SessionRevertRecord.createdAt
  (w.db.reverts.rows.filter fun row=>row.sessionId=sessionId)).head? =
  w.db.findLatestRevert sessionId := rfl
 unfold newestRevert
 rw [Database.findLatestRevert,Database.listReverts,hr,head?_newestFirst_append,hb]
 cases w.db.findLatestRevert sessionId with
 | none => rfl
 | some latest =>
  dsimp only
  split_ifs <;> rfl

theorem undoRevert_ok {report : RevertReport}
 (hl:w.db.findLatestRevert sessionId=some latest)
 (h:undoRevert env w sessionId=(w',.ok report)) :
 ∃target : SessionCheckpointRecord,latest.previousCheckpointId=some target.id ∧
  target.id ≠ "" ∧ latest.checkpointId ≠ target.id ∧
  w.db.findCheckpoint target.id=some target ∧ target.sessionId=sessionId ∧
  revertTo env w sessionId target.id "undo-revert" = (w',.ok report) := by
 unfold undoRevert at h
 rw [hl] at h
 dsimp only at h
 split at h
 · cases h
 case _ previous hp =>
 obtain ⟨hn,hno⟩:=Option.filter_eq_some_iff.mp hp
 split at h
 · cases h
 case _ target hta =>
 obtain ⟨hf,ho⟩:=Option.filter_eq_some_iff.mp hta
 have hid:=findCheckpoint_id hf
 subst hid
 split at h
 · cases h
 · case _ hse =>
   exact ⟨target,hn,by simpa using hno,hse,hf,by simpa using ho,h⟩

theorem undoRevert_of_target (hl:w.db.findLatestRevert sessionId=some latest)
 (hn:latest.previousCheckpointId=some target.id) (hno:target.id ≠ "")
 (ho:latest.checkpointId≠target.id)
 (hf:w.db.findCheckpoint target.id=some target) (how:target.sessionId=sessionId) :
 undoRevert env w sessionId=revertTo env w sessionId target.id "undo-revert" := by
 unfold undoRevert
 rw [hl]
 dsimp only
 rw [hn,Option.filter_some,if_pos (by simpa using hno)]
 dsimp only
 rw [hf,Option.filter_some,if_pos (by simpa using how)]
 rw [if_neg ho]

theorem findCheckpoint_reverted (id : String)
 (hreverted:Reverted env w w' sessionId reason checkpoint session workflow summary) :
 w'.db.findCheckpoint id=w.db.findCheckpoint id := by
 unfold Database.findCheckpoint
 rw [hreverted.checkpoints]

theorem undo_restores_iff (hunused:Unused env w)
 (h:Revertible env w sessionId checkpoint session workflow summary)
 (hreverted:Reverted env w w' sessionId reason checkpoint session workflow summary) :
 (∃w'' report,undoRevert env w' sessionId=(w'',.ok report) ∧
  view w'' sessionId=view w sessionId) ↔
 ∃target,UndoTarget env w sessionId checkpoint.id reason target ∧
  StandsAt env w sessionId checkpoint target := by
 have hunused':=hunused.reverted h hreverted
 have hl:=findLatestRevert_reverted hunused hreverted
 constructor
 · rintro ⟨w'',report,hu,hvi⟩
   obtain ⟨target,hn,hno,ho,hf,how,hb⟩:=undoRevert_ok hl hu
   obtain ⟨target',session',workflow',back,hid,hr,hreverted'⟩:=reverted_of_ok hb
   have hta:target'=target:=by
    have := hr.found
    rw [hid,hf] at this
    exact (Option.some.inj this).symm
   subst hta
   rw [findCheckpoint_reverted _ hreverted] at hf
   rw [view_reverted hunused' hr hreverted',figuresWith_reverted hunused h hreverted]
    at hvi
   refine ⟨target',⟨hn,hno,ho,hf,how⟩,
    ⟨workflow',hr.workflow,?_⟩,
    ?_,?_,summary,back,h.summary,?_,?_⟩
   · rw [←hvi]
   · rw [←hvi]
   · rw [←hvi]
   · rw [←hreverted.ticks]
     exact hr.summary
   · rw [←hvi]
 · rintro ⟨target,hta,hst⟩
   obtain ⟨workflow',hwo,hv⟩:=hst.workflow
   obtain ⟨left,back,hle,hb,hfi⟩:=hst.figures
   rw [h.summary] at hle
   cases hle
   have hf:w'.db.findCheckpoint target.id=some target:=by
    rw [findCheckpoint_reverted _ hreverted,hta.found]
   obtain ⟨row,hse,hrow,-⟩:=hreverted.session
   have hses:w'.db.findSession sessionId=some { row with laneLocked:=true } := by
    rw [Database.findSession,hse,Table.find_upsert,
     if_pos (by rw [hrow,findSession_sessionId h.session])]
    rfl
   have hr:Revertible env w' sessionId target { row with laneLocked:=true } workflow'
    back := by
    refine ⟨?_,hf,hta.own,hses,hwo,?_⟩
    · rw [hreverted.busy]
      exact h.idle
    · rw [hreverted.ticks]
      exact hb
   obtain ⟨w'',report,heq,hreverted'⟩:=revertTo_of_revertible hr "undo-revert"
   refine ⟨w'',report,?_,?_⟩
   · rw [undoRevert_of_target hl hta.named hta.nonempty hta.other hf
      hta.own,heq]
   · rw [view_reverted hunused' hr hreverted',figuresWith_reverted hunused h hreverted,
      ← hv,←hst.currentStage,←hst.latestCheckpointId,←hfi]

end

/-- After any reverts and undos: an undo that follows a revert succeeds and restores the workflow
state, the current stage, the latest checkpoint and the summary figures, exactly when the session
stood at the checkpoint that the newest revert record calls the previous one. -/
theorem undo_inverts_revert_iff (env : Surroundings) (w : World) (hunused : Unused env w)
 (calls : List RevertCall) (sessionId checkpointId reason : String) (w' : World)
 (report : RevertReport)
 (hrevert : revertTo env (calls.foldl (World.step env) w) sessionId checkpointId reason =
  (w',.ok report)) :
 (∃ w'' report',undoRevert env w' sessionId = (w'',.ok report') ∧
  view w'' sessionId = view (calls.foldl (World.step env) w) sessionId) ↔
 ∃ checkpoint target,(calls.foldl (World.step env) w).db.findCheckpoint checkpointId =
  some checkpoint ∧
  UndoTarget env (calls.foldl (World.step env) w) sessionId checkpointId reason target ∧
  StandsAt env (calls.foldl (World.step env) w) sessionId checkpoint target := by
 obtain ⟨checkpoint,session,workflow,summary,rfl,hr,hreverted⟩:=
  reverted_of_ok hrevert
 rw [undo_restores_iff (hunused.run calls) hr hreverted,hr.found]
 constructor
 · rintro ⟨target,hta,hst⟩
   exact ⟨checkpoint,target,rfl,hta,hst⟩
 · rintro ⟨_,target,hf,hta,hst⟩
   cases hf
   exact ⟨target,hta,hst⟩

def RecordKind.letter : RecordKind → Char
 | .session => 's'
 | .runtimeEvent => 'e'
 | .summary => 'm'
 | .checkpoint => 'c'
 | .revert => 'r'

/-- Ids and times drawn one after another, and a driver that binds everything. -/
def plainSurroundings : Surroundings where
 createId := fun kind n => String.ofList (kind.letter :: List.replicate n 'x')
 createId_injective := by
  intro kind kind' m n h
  obtain ⟨hletter,hrest⟩ := List.cons.inj (String.ofList_injective h)
  refine ⟨?_,by simpa using congrArg List.length hrest⟩
  revert hletter
  cases kind <;> cases kind' <;> decide
 createId_ne_empty := by
  intro kind n h
  simpa using congrArg String.toList h
 nowIso := fun _ n => String.ofList (List.replicate n 'x')
 driver := ⟨some,some,fun _ => rfl⟩

def plainCheckpoint (id sessionId stage : String) (filesChanged : Nat) :
 SessionCheckpointRecord where
 id := id
 sessionId := sessionId
 checkpointType := .postWorkflow
 lane := .delivery
 stage := stage
 summarySnapshotJson := .object [("filesChanged",.unsigned filesChanged)]
 workflowSnapshotJson := .object [("lane",.string "delivery"),("stage",.string stage),
  ("stageStatus",.string "in_progress"),("gateStatus",.string "pending"),
  ("blockers",.array [])]
 continuationJson := .object []
 metadataJson := .object []
 createdAt := "t"

def checkpointed : World where
 db := ((Database.empty.saveSession (plainSession "s")).saveCheckpoint
  (plainCheckpoint "a" "s" "delivery_execute" 1)).saveCheckpoint
  (plainCheckpoint "b" "s" "delivery_review" 2)
 busy := []
 ticks := 0

theorem unused_checkpointed : Unused plainSurroundings checkpointed := by
 constructor <;>
 · intro n _ hme
   cases hme

/-- The session goes to `a`, then to `b`, and back. -/
theorem undo_inverts_revert_iff_back :
 let before := [RevertCall.revertTo "s" "a" "r"].foldl (World.step plainSurroundings) checkpointed
 ∃ w'' report',undoRevert plainSurroundings (revertTo plainSurroundings before "s" "b" "r").1
  "s" = (w'',.ok report') ∧ view w'' "s" = view before "s" := by
 apply (undo_inverts_revert_iff plainSurroundings checkpointed unused_checkpointed
  [.revertTo "s" "a" "r"] "s" "b" "r" _ ⟨"rx","b"⟩ (Prod.ext rfl rfl)).mpr
 refine ⟨plainCheckpoint "b" "s" "delivery_review" 2,plainCheckpoint "a" "s" "delivery_execute" 1,
  rfl,⟨by decide +kernel,by decide,by decide +kernel,rfl,rfl⟩,⟨_,rfl,rfl⟩,rfl,rfl,
  _,_,rfl,rfl,?_⟩
 rfl

/-- The first revert of a session: there is no previous checkpoint to go back to. -/
theorem first_revert_not_undone :
 let reverted := revertTo plainSurroundings checkpointed "s" "a" "r"
 reverted.2 = .ok ⟨"r","a"⟩ ∧ ¬ ∃ w'' report',
  undoRevert plainSurroundings reverted.1 "s" = (w'',.ok report') := by
 intro reverted
 have hr:(undoRevert plainSurroundings reverted.1 "s").2 =
  .error "No previous checkpoint available for undoRevert on session 's'." := rfl
 refine ⟨rfl,?_⟩
 rintro ⟨w'',report',hu⟩
 rw [hu] at hr
 cases hr

end DhKit.SessionRecords
