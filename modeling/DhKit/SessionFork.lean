import DhKit.JsonValues
import DhKit.SessionUndo

/-!
# Forking a session

A fork copies the session row and the records of the source under new ids.
-/
namespace DhKit.SessionRecords
open KeyedTables JsonRpc NewestFirst List

structure SessionForkReport where
 sourceSessionId : String
 sessionId : String
 runtimeEvents : Nat
 summaries : Nat
 checkpoints : Nat
 reverts : Nat
deriving DecidableEq

def rewriteValue (value : Json) (sourceSessionId targetSessionId : String) : Json :=
 value.mapStrings (fun _ text => if text = sourceSessionId then targetSessionId else text) ""

section
variable (env : Surroundings) (w : World) (sourceSessionId : String)

def forkSessionId : String := env.createId .session w.ticks

def forkRow (source : SessionState) : SessionState :=
 { source with
   sessionId := forkSessionId env w
   status := .inProgress
   activeWorkItemIds := []
   latestSummaryId := none
   latestCheckpointId := none
   latestRevertId := none
   createdAt := env.nowIso .session w.ticks
   updatedAt := env.nowIso .session w.ticks }

def copyRuntimeEvents : List SessionRuntimeEventRecord :=
 (w.db.listRuntimeEvents sourceSessionId).mapIdx fun i event =>
  { event with
    id := env.createId .runtimeEvent (w.ticks+i)
    sessionId := forkSessionId env w
    eventJson := rewriteValue event.eventJson sourceSessionId (forkSessionId env w) }

def copySummaries : List SessionSummaryRecord :=
 (w.db.listSummaries sourceSessionId).mapIdx fun i summary =>
  { summary with
    id := env.createId .summary (w.ticks+i)
    sessionId := forkSessionId env w }

def copyCheckpoints : List SessionCheckpointRecord :=
 (w.db.listCheckpoints sourceSessionId).mapIdx fun i checkpoint =>
  { checkpoint with
    id := env.createId .checkpoint (w.ticks+i)
    sessionId := forkSessionId env w }

def checkpointIdMap : HashMap String String :=
 HashMap.collect ((w.db.listCheckpoints sourceSessionId).mapIdx fun i checkpoint =>
  (checkpoint.id,env.createId .checkpoint (w.ticks+i)))

def copyOf (checkpointId : String) : String :=
 ((checkpointIdMap env w sourceSessionId).get checkpointId).getD checkpointId

def copyReverts : List SessionRevertRecord :=
 (w.db.listReverts sourceSessionId).mapIdx fun i revert =>
  { revert with
    id := env.createId .revert (w.ticks+i)
    sessionId := forkSessionId env w
    checkpointId := copyOf env w sourceSessionId revert.checkpointId
    -- An empty id counts as none.
    previousCheckpointId :=
     (revert.previousCheckpointId.filter (· ≠ "")).map (copyOf env w sourceSessionId) }

def createdEvent (title : Option String) : SessionRuntimeEventRecord where
 id := env.createId .runtimeEvent (w.ticks+(w.db.listRuntimeEvents sourceSessionId).length)
 sessionId := forkSessionId env w
 eventType := "session.created"
 eventJson := .object [("type",.string "session.created"),
  ("sessionId",.string (forkSessionId env w)),
  ("payload",.object ([("commandFamily",.string "session"),
   ("forkedFromSessionId",.string sourceSessionId)] ++
   (title.map fun title => ("title",Json.string title)).toList))]
 createdAt := env.nowIso .session w.ticks

end

def forkSession (env : Surroundings) (w : World) (sourceSessionId : String)
 (title : Option String) : World × Except String SessionForkReport :=
 match w.db.findSession sourceSessionId with
 | none => (w,.error s!"Session '{sourceSessionId}' was not found.")
 | some source =>
  let events := copyRuntimeEvents env w sourceSessionId
  let summaries := copySummaries env w sourceSessionId
  let checkpoints := copyCheckpoints env w sourceSessionId
  let reverts := copyReverts env w sourceSessionId
  let db : Database :=
   { sessions := w.db.sessions.upsert (forkRow env w source)
     workflowStates := w.db.workflowStates
     runtimeEvents := (events++[createdEvent env w sourceSessionId title]).foldl Table.upsert
      w.db.runtimeEvents
     summaries := summaries.foldl Table.upsert w.db.summaries
     checkpoints := checkpoints.foldl Table.upsert w.db.checkpoints
     reverts := reverts.foldl Table.upsert w.db.reverts }
  let drawn := 1+events.length+summaries.length+checkpoints.length+reverts.length
  ({ w with db := db,ticks := w.ticks+drawn },
   .ok ⟨sourceSessionId,forkSessionId env w,events.length,summaries.length,
    checkpoints.length,reverts.length⟩)

def SessionRuntimeEventRecord.ids (row : SessionRuntimeEventRecord) : List String :=
 [row.id,row.sessionId]

def SessionSummaryRecord.ids (row : SessionSummaryRecord) : List String := [row.id,row.sessionId]

def SessionCheckpointRecord.ids (row : SessionCheckpointRecord) : List String :=
 [row.id,row.sessionId]

def SessionRevertRecord.ids (row : SessionRevertRecord) : List String :=
 [row.id,row.sessionId,row.checkpointId]++row.previousCheckpointId.toList

/-- The ids that the columns of the tables hold. -/
def Database.ids (db : Database) : List String :=
 db.sessions.rows.map SessionState.sessionId ++
  (db.runtimeEvents.rows.flatMap SessionRuntimeEventRecord.ids ++
   (db.summaries.rows.flatMap SessionSummaryRecord.ids ++
    (db.checkpoints.rows.flatMap SessionCheckpointRecord.ids ++
     db.reverts.rows.flatMap SessionRevertRecord.ids)))

structure Fresh (env : Surroundings) (w : World) : Prop where
 ids : ∀ kind n,w.ticks ≤ n → env.createId kind n ∉ w.db.ids
 busy : ∀ kind n,w.ticks ≤ n → env.createId kind n ∉ w.busy

section
variable {α β : Type} {id owner : α → String} {rows rows' new : List α} {sessionId other : String}

/-- New rows, all of one session, stand after those that were there, of other sessions. -/
structure Extended (owner : α → String) (sessionId : String) (rows rows' new : List α) : Prop where
 after : rows' = rows++new
 own : ∀ a ∈ new,owner a = sessionId
 old : ∀ a ∈ rows,owner a≠sessionId

theorem Extended.filter_own (h:Extended owner sessionId rows rows' new) :
 rows'.filter (fun a=>owner a=sessionId)=new := by
 have hnone:rows.filter (fun a=>owner a=sessionId)=[]:=
  filter_eq_nil_iff.mpr fun a ha hid=>h.old a ha (by simpa using hid)
 have hal:new.filter (fun a=>owner a=sessionId)=new:=
  filter_eq_self.mpr fun a ha=>by simpa using h.own a ha
 rw [h.after,filter_append,hnone,hal,nil_append]

theorem Extended.filter_other (h:Extended owner sessionId rows rows' new)
 (ho:sessionId≠other) :
 rows'.filter (fun a=>owner a=other)=rows.filter fun a=>owner a=other := by
 have hnone:new.filter (fun a=>owner a=other)=[]:=
  filter_eq_nil_iff.mpr fun a ha hid=>ho ((h.own a ha).symm.trans (by simpa using hid))
 rw [h.after,filter_append,hnone,append_nil]

theorem map_mapIdx {γ : Type} {f : Nat → β → α} {g : α → γ} {h : β → γ}
 (hf:∀i b,g (f i b)=h b) (rows : List β) : (rows.mapIdx f).map g=rows.map h := by
 apply ext_getElem?
 intro i
 rw [getElem?_map,getElem?_mapIdx,getElem?_map,Option.map_map]
 congr 1
 funext b
 exact hf i b

end

structure Forked (env : Surroundings) (w w' : World) (sourceSessionId : String)
 (title : Option String) : Prop where
 busy : w'.busy = w.busy
 workflowStates : w'.db.workflowStates = w.db.workflowStates
 source : ∃ row,w.db.findSession sourceSessionId = some row ∧
  w'.db.sessions = w.db.sessions.upsert (forkRow env w row)
 runtimeEvents : Extended SessionRuntimeEventRecord.sessionId (forkSessionId env w)
  w.db.runtimeEvents.rows w'.db.runtimeEvents.rows
  (copyRuntimeEvents env w sourceSessionId++[createdEvent env w sourceSessionId title])
 summaries : Extended SessionSummaryRecord.sessionId (forkSessionId env w)
  w.db.summaries.rows w'.db.summaries.rows (copySummaries env w sourceSessionId)
 checkpoints : Extended SessionCheckpointRecord.sessionId (forkSessionId env w)
  w.db.checkpoints.rows w'.db.checkpoints.rows (copyCheckpoints env w sourceSessionId)
 reverts : Extended SessionRevertRecord.sessionId (forkSessionId env w)
  w.db.reverts.rows w'.db.reverts.rows (copyReverts env w sourceSessionId)

section
variable {env : Surroundings} {w w' : World} {sourceSessionId : String} {title : Option String}
 {report : SessionForkReport} {text : String}

theorem mem_ids_runtimeEvent {row : SessionRuntimeEventRecord}
 (hrow:row∈w.db.runtimeEvents.rows) (htext:text∈row.ids) : text∈w.db.ids :=
 mem_append_right _ (mem_append_left _ (mem_flatMap_of_mem hrow htext))

theorem mem_ids_summary {row : SessionSummaryRecord}
 (hrow:row∈w.db.summaries.rows) (htext:text∈row.ids) : text∈w.db.ids :=
 mem_append_right _ (mem_append_right _ (mem_append_left _
  (mem_flatMap_of_mem hrow htext)))

theorem mem_ids_checkpoint {row : SessionCheckpointRecord}
 (hrow:row∈w.db.checkpoints.rows) (htext:text∈row.ids) : text∈w.db.ids :=
 mem_append_right _ (mem_append_right _ (mem_append_right _
  (mem_append_left _ (mem_flatMap_of_mem hrow htext))))

theorem mem_ids_revert {row : SessionRevertRecord}
 (hrow:row∈w.db.reverts.rows) (htext:text∈row.ids) : text∈w.db.ids :=
 mem_append_right _ (mem_append_right _ (mem_append_right _
  (mem_append_right _ (mem_flatMap_of_mem hrow htext))))

theorem mem_ids_session {row : SessionState} (h:w.db.findSession sourceSessionId=some row) :
 sourceSessionId∈w.db.ids := by
 obtain ⟨stored,hst,rfl⟩:=Option.map_eq_some_iff.mp h
 obtain ⟨hme,rfl⟩:=(Table.find_eq_some _).mp hst
 exact mem_append_left _ (mem_map_of_mem hme)

theorem Fresh.not_mem (hf:Fresh env w) {kind : RecordKind} {n : Nat} (hn:w.ticks ≤ n)
 (htext:text∈w.db.ids) : text≠env.createId kind n := by
 rintro rfl
 exact hf.ids kind n hn htext

theorem Fresh.fork_not_mem (hf:Fresh env w) (htext:text∈w.db.ids) :
 text≠forkSessionId env w :=
 hf.not_mem (Nat.le_refl _) htext

section
variable {α β : Type} {id owner : α → String} {t : Table String α id} {new : List α}
 {kind : RecordKind}

/-- The rows that a fork inserts: their ids are drawn one after the other. -/
def Drawn (env : Surroundings) (w : World) (kind : RecordKind) (id owner : α → String)
 (new : List α) : Prop :=
 ∀ i a,new[i]? = some a → id a = env.createId kind (w.ticks+i) ∧ owner a = forkSessionId env w

theorem drawn_mapIdx {f : Nat → β → α} {rows : List β}
 (hf:∀i b,id (f i b)=env.createId kind (w.ticks+i) ∧ owner (f i b)=forkSessionId env w) :
 Drawn env w kind id owner (rows.mapIdx f) := by
 intro i a hi
 rw [getElem?_mapIdx] at hi
 obtain ⟨b,-,rfl⟩:=Option.map_eq_some_iff.mp hi
 exact hf i b

theorem Drawn.extended (hn:Drawn env w kind id owner new) (hf:Fresh env w)
 (ho:∀row∈t.rows,∀text∈[id row,owner row],text∈w.db.ids) :
 Extended owner (forkSessionId env w) t.rows (new.foldl Table.upsert t).rows new := by
 refine ⟨?_,?_,fun row hrow=>hf.fork_not_mem (ho row hrow _ (by simp))⟩
 · apply Table.rows_foldl_upsert
   rw [map_append]
   apply List.Nodup.append t.nodup
   · rw [nodup_iff_getElem?_ne_getElem?]
     intro i j hij hj heq
     rw [length_map] at hj
     rw [getElem?_map,getElem?_map,getElem?_eq_getElem (by omega),
      getElem?_eq_getElem hj,Option.map_some,Option.map_some,Option.some.injEq,
      (hn i _ (getElem?_eq_getElem (by omega))).1,(hn j _ (getElem?_eq_getElem hj)).1] at heq
     have := (env.createId_injective heq).2
     omega
   · intro key hk had
     obtain ⟨row,hrow,rfl⟩:=mem_map.mp hk
     obtain ⟨a,ha,heq⟩:=mem_map.mp had
     obtain ⟨i,hi⟩:=mem_iff_getElem?.mp ha
     rw [(hn i a hi).1] at heq
     exact hf.not_mem (Nat.le_add_right _ _) (ho row hrow _ mem_cons_self) heq.symm
 · intro a ha
   obtain ⟨i,hi⟩:=mem_iff_getElem?.mp ha
   exact (hn i a hi).2

end

theorem drawn_events : Drawn env w .runtimeEvent SessionRuntimeEventRecord.id
 SessionRuntimeEventRecord.sessionId (copyRuntimeEvents env w sourceSessionId ++
  [createdEvent env w sourceSessionId title]) := by
 have hco:Drawn env w .runtimeEvent SessionRuntimeEventRecord.id
  SessionRuntimeEventRecord.sessionId (copyRuntimeEvents env w sourceSessionId) :=
  drawn_mapIdx fun _ _=>⟨rfl,rfl⟩
 intro i event hi
 rw [getElem?_append] at hi
 split_ifs at hi with hlt
 · exact hco i event hi
 have hl:(copyRuntimeEvents env w sourceSessionId).length =
  (w.db.listRuntimeEvents sourceSessionId).length := length_mapIdx
 cases hin : i-(copyRuntimeEvents env w sourceSessionId).length with
 | zero =>
  rw [hin] at hi
  cases hi
  refine ⟨?_,rfl⟩
  change env.createId .runtimeEvent _=_
  congr 1
  omega
 | succ k =>
  rw [hin] at hi
  cases hi

theorem forked_of_ok (hf:Fresh env w)
 (h:forkSession env w sourceSessionId title=(w',.ok report)) :
 Forked env w w' sourceSessionId title ∧ report.sessionId=forkSessionId env w := by
 unfold forkSession at h
 cases hso : w.db.findSession sourceSessionId with
 | none =>
  rw [hso] at h
  cases h
 | some row =>
  rw [hso] at h
  cases h
  refine ⟨⟨rfl,rfl,⟨row,hso,rfl⟩,?_,?_,?_,?_⟩,rfl⟩
  · exact drawn_events.extended hf fun row hrow text=>mem_ids_runtimeEvent hrow
  · exact Drawn.extended (drawn_mapIdx fun _ _=>⟨rfl,rfl⟩) hf fun row hrow text=>
     mem_ids_summary hrow
  · exact Drawn.extended (drawn_mapIdx fun _ _=>⟨rfl,rfl⟩) hf fun row hrow text=>
     mem_ids_checkpoint hrow
  · exact Drawn.extended (drawn_mapIdx fun _ _=>⟨rfl,rfl⟩) hf fun row hrow text htext=>
     mem_ids_revert hrow ((sublist_append_left [row.id,row.sessionId] _).subset htext)

structure SourceUnchanged (db db' : Database) (sessionId : String) : Prop where
 session : db'.findSession sessionId = db.findSession sessionId
 workflowState : db'.workflowStates.find sessionId = db.workflowStates.find sessionId
 runtimeEvents : (db'.runtimeEvents.rows.filter fun row => row.sessionId = sessionId) =
  db.runtimeEvents.rows.filter fun row => row.sessionId = sessionId
 summaries : (db'.summaries.rows.filter fun row => row.sessionId = sessionId) =
  db.summaries.rows.filter fun row => row.sessionId = sessionId
 checkpoints : (db'.checkpoints.rows.filter fun row => row.sessionId = sessionId) =
  db.checkpoints.rows.filter fun row => row.sessionId = sessionId
 reverts : (db'.reverts.rows.filter fun row => row.sessionId = sessionId) =
  db.reverts.rows.filter fun row => row.sessionId = sessionId

theorem Forked.sourceUnchanged (h:Forked env w w' sourceSessionId title)
 (hf:Fresh env w) : SourceUnchanged w.db w'.db sourceSessionId := by
 obtain ⟨row,hso,hse⟩:=h.source
 have ho:forkSessionId env w≠sourceSessionId:=
  (hf.fork_not_mem (mem_ids_session hso)).symm
 refine ⟨?_,by rw [h.workflowStates],h.runtimeEvents.filter_other ho,
  h.summaries.filter_other ho,h.checkpoints.filter_other ho,
  h.reverts.filter_other ho⟩
 rw [Database.findSession,hse,Table.find_upsert,if_neg fun heq=>ho heq.symm]
 rfl

theorem Forked.findSession_fork (h:Forked env w w' sourceSessionId title) :
 ∃row,w'.db.findSession (forkSessionId env w)=some row ∧ row.activeWorkItemIds=[] ∧
  row.latestSummaryId=none ∧ row.latestCheckpointId=none ∧ row.latestRevertId=none := by
 obtain ⟨source,-,hse⟩:=h.source
 refine ⟨{ forkRow env w source with laneLocked := true },?_,rfl,rfl,rfl,rfl⟩
 have hid:forkSessionId env w=(forkRow env w source).sessionId:=rfl
 rw [Database.findSession,hse,Table.find_upsert,if_pos hid]
 rfl

end

end DhKit.SessionRecords
