import DhKit.SessionForkNames

/-!
# Reverts on a fork

A checkpoint of the fork can be reverted to when its original can.
-/
namespace DhKit.SessionRecords
open KeyedTables JsonRpc NewestFirst List

def Bindable (driver : Driver) (checkpoint : SessionCheckpointRecord) : Prop :=
 (∃ workflow,bindWorkflow driver "" checkpoint.workflowSnapshotJson = some workflow) ∧
  ∃ summary,bindSummary driver "" "" "" "" checkpoint.summarySnapshotJson = some summary

/-- An undo that finds this revert as the newest succeeds, on a session that is idle. -/
structure Undoable (driver : Driver) (db : Database) (sessionId : String)
 (revert : SessionRevertRecord) (target : SessionCheckpointRecord) : Prop where
 named : revert.previousCheckpointId = some target.id
 nonempty : target.id ≠ ""
 other : revert.checkpointId≠target.id
 found : db.findCheckpoint target.id = some target
 own : target.sessionId = sessionId
 bindable : Bindable driver target

section
variable {env : Surroundings} {w : World} {sessionId : String} {driver : Driver}
 {snapshot : Json} {checkpointId : String}

theorem bindWorkflow_other {s s' : String}
 (h:∃workflow,bindWorkflow driver s snapshot=some workflow) :
 ∃workflow,bindWorkflow driver s' snapshot=some workflow := by
 obtain ⟨workflow,h⟩:=h
 simp only [bindWorkflow,bind,Option.bind_eq_some_iff] at h
 obtain ⟨lane,hl,stage,hstage,status,hstatus,previous,hp,next,hn,gate,
  hgate,blockers,hb,-⟩ := h
 refine ⟨⟨s',lane,stage,status,previous,next,gate,blockers⟩,?_⟩
 simp only [bindWorkflow,hl,hstage,hstatus,hp,hn,hgate,hb]
 rfl

theorem text_orElse_other {value : Option Json} {text text' : String}
 (h:∃bound,driver.text (orElse (.string text) value)=some bound) :
 ∃bound,driver.text (orElse (.string text') value)=some bound := by
 cases value with
 | none => exact ⟨_,driver.text_string text'⟩
 | some value =>
  cases value with
  | null => exact ⟨_,driver.text_string text'⟩
  | _ => exact h

theorem bindSummary_other {id s time id' s' checkpointId' time' : String}
 (h:∃summary,bindSummary driver id s checkpointId time snapshot=some summary) :
 ∃summary,bindSummary driver id' s' checkpointId' time' snapshot=some summary := by
 obtain ⟨summary,h⟩:=h
 unfold bindSummary at h
 split_ifs at h with hn
 simp only [bind,Option.bind_eq_some_iff] at h
 obtain ⟨files,hf,additions,had,deletions,hde,diff,hdi,stage,hstage,
  checkpoint,hch,continuation,hco,created,hcr,-⟩ := h
 obtain ⟨bound,hb⟩:=@text_orElse_other _ _ _ checkpointId' ⟨checkpoint,hch⟩
 refine ⟨⟨id',s',files,additions,deletions,diff,stage,some bound,continuation,created,
  time'⟩,?_⟩
 rw [bindSummary,if_neg hn]
 simp only [hf,had,hde,hdi,hstage,hb,hco,hcr]
 rfl

theorem revertTo_ok_iff {reason : String} :
 (∃w' report,revertTo env w sessionId checkpointId reason=(w',.ok report)) ↔
  sessionId ∉ w.busy ∧ (∃session,w.db.findSession sessionId=some session) ∧
  ∃checkpoint,w.db.findCheckpoint checkpointId=some checkpoint ∧
   checkpoint.sessionId=sessionId ∧ Bindable env.driver checkpoint := by
 constructor
 · rintro ⟨w',report,h⟩
   obtain ⟨checkpoint,session,workflow,summary,rfl,hr⟩:=revertible_of_ok h
   exact ⟨hr.idle,⟨session,hr.session⟩,checkpoint,hr.found,
    hr.own,bindWorkflow_other ⟨workflow,hr.workflow⟩,
    bindSummary_other ⟨summary,hr.summary⟩⟩
 · rintro ⟨hi,⟨session,hse⟩,checkpoint,hf,ho,hwo,hsu⟩
   obtain ⟨workflow,hwo⟩:=@bindWorkflow_other _ _ _ sessionId hwo
   obtain ⟨summary,hsu⟩:=@bindSummary_other _ _ _ _ _ _ (env.createId .summary w.ticks)
    sessionId checkpoint.id (env.nowIso .summary w.ticks) hsu
   have hid:=findCheckpoint_id hf
   subst hid
   obtain ⟨w',report,heq,-⟩:=revertTo_of_revertible
    ⟨hi,hf,ho,hse,hwo,hsu⟩ reason
   exact ⟨w',report,heq⟩

theorem undoRevert_ok_iff :
 (∃w' report,undoRevert env w sessionId=(w',.ok report)) ↔
  sessionId ∉ w.busy ∧ (∃session,w.db.findSession sessionId=some session) ∧
  ∃latest target,w.db.findLatestRevert sessionId=some latest ∧
   Undoable env.driver w.db sessionId latest target := by
 constructor
 · rintro ⟨w',report,h⟩
   cases hl : w.db.findLatestRevert sessionId with
   | none =>
    rw [undoRevert,hl] at h
    cases h
   | some latest =>
    obtain ⟨target,hn,hno,ho,hf,how,hba⟩:=undoRevert_ok hl h
    obtain ⟨hi,hse,checkpoint,hch,-,hb⟩:=
     revertTo_ok_iff.mp ⟨w',report,hba⟩
    rw [hf] at hch
    cases hch
    exact ⟨hi,hse,latest,target,rfl,hn,hno,ho,hf,how,
     hb⟩
 · rintro ⟨hi,hse,latest,target,hl,h⟩
   obtain ⟨w',report,hba⟩:=(@revertTo_ok_iff env w sessionId target.id
    "undo-revert").mpr ⟨hi,hse,target,h.found,h.own,h.bindable⟩
   refine ⟨w',report,?_⟩
   rw [undoRevert_of_target hl h.named h.nonempty h.other h.found h.own,hba]

end

/-- The newest revert when the listing is inserted again in its own order: of the reverts of the
latest time the one that was inserted first. -/
def latestWhenRelisted (db : Database) (sessionId : String) : Option SessionRevertRecord :=
 (newestFirst SessionRevertRecord.createdAt (db.listReverts sessionId)).head?

/-- What would have succeeded on the source succeeds on the fork. -/
structure RevertsKept (env : Surroundings) (w w' : World) (sourceSessionId : String) : Prop where
 revertTo : ∀ checkpoint ∈ w.db.listCheckpoints sourceSessionId,∀ reason,
  (∃ w'' report,revertTo env w' sourceSessionId checkpoint.id reason = (w'',.ok report)) →
  ∃ w'' report,revertTo env w' (forkSessionId env w)
   (copyOf env w sourceSessionId checkpoint.id) reason = (w'',.ok report)
 undoRevert : (∃ w'' report,undoRevert env w' sourceSessionId = (w'',.ok report)) →
  ∃ w'' report,undoRevert env w' (forkSessionId env w) = (w'',.ok report)

/-- An undo that would succeed on the source also succeeds from the revert that is the newest when
the reverts are inserted in the order in which they are listed. -/
def UndoSafe (env : Surroundings) (w : World) (sourceSessionId : String) : Prop :=
 sourceSessionId ∉ w.busy → ∀ latest target,
  w.db.findLatestRevert sourceSessionId = some latest →
  Undoable env.driver w.db sourceSessionId latest target →
  ∃ first target',latestWhenRelisted w.db sourceSessionId = some first ∧
   Undoable env.driver w.db sourceSessionId first target'

section
variable {env : Surroundings} {w w' : World} {sourceSessionId : String} {title : Option String}
 {checkpoint : SessionCheckpointRecord} {revert : SessionRevertRecord}

theorem findCheckpoint_of_mem {db : Database}
 (h:checkpoint∈db.checkpoints.rows) : db.findCheckpoint checkpoint.id=some checkpoint :=
 (Table.find_eq_some _).mpr ⟨h,rfl⟩

/-- A checkpoint of the source and its copy. -/
structure CopyPair (env : Surroundings) (w : World) (sourceSessionId : String)
 (checkpoint copy : SessionCheckpointRecord) : Prop where
 listed : checkpoint ∈ w.db.listCheckpoints sourceSessionId
 copied : copy ∈ copyCheckpoints env w sourceSessionId
 id : copy.id = copyOf env w sourceSessionId checkpoint.id
 nonempty : copy.id ≠ ""
 workflow : copy.workflowSnapshotJson = checkpoint.workflowSnapshotJson
 summary : copy.summarySnapshotJson = checkpoint.summarySnapshotJson

theorem copyPair_at {i : Nat} (hi:(w.db.listCheckpoints sourceSessionId)[i]?=some checkpoint) :
 CopyPair env w sourceSessionId checkpoint { checkpoint with
  id := env.createId .checkpoint (w.ticks+i)
  sessionId := forkSessionId env w } := by
 have hge:(checkpointIdMap env w sourceSessionId).get checkpoint.id =
  some (env.createId .checkpoint (w.ticks+i)) :=
  get_checkpointIdMap.mpr ⟨i,checkpoint,hi,rfl,rfl⟩
 refine ⟨mem_of_getElem? hi,mem_of_getElem? (i := i) ?_,?_,env.createId_ne_empty _ _,rfl,rfl⟩
 · rw [copyCheckpoints,getElem?_mapIdx,hi]
   rfl
 · rw [copyOf,hge]
   rfl

theorem exists_copy (h:checkpoint∈w.db.listCheckpoints sourceSessionId) :
 ∃copy,CopyPair env w sourceSessionId checkpoint copy := by
 obtain ⟨i,hi⟩:=mem_iff_getElem?.mp h
 exact ⟨_,copyPair_at hi⟩

theorem exists_original {copy : SessionCheckpointRecord}
 (h:copy∈copyCheckpoints env w sourceSessionId) :
 ∃checkpoint,CopyPair env w sourceSessionId checkpoint copy := by
 obtain ⟨i,hi⟩:=mem_iff_getElem?.mp h
 rw [copyCheckpoints,getElem?_mapIdx] at hi
 obtain ⟨checkpoint,hch,rfl⟩:=Option.map_eq_some_iff.mp hi
 exact ⟨checkpoint,copyPair_at hch⟩

section
variable {checkpoint copy : SessionCheckpointRecord}

section
variable (hpair : CopyPair env w sourceSessionId checkpoint copy)
include hpair

theorem CopyPair.bindable_iff :
 Bindable env.driver copy ↔ Bindable env.driver checkpoint := by
 rw [Bindable,Bindable,hpair.workflow,hpair.summary]

theorem CopyPair.found_source (h:Forked env w w' sourceSessionId title) :
 w'.db.findCheckpoint checkpoint.id=some checkpoint := by
 apply findCheckpoint_of_mem
 rw [h.checkpoints.after]
 exact mem_append_left _ (mem_listCheckpoints.mp hpair.listed).1

theorem CopyPair.found_fork (h:Forked env w w' sourceSessionId title) :
 w'.db.findCheckpoint copy.id=some copy := by
 apply findCheckpoint_of_mem
 rw [h.checkpoints.after]
 exact mem_append_right _ hpair.copied

end

end

structure RevertCopy (env : Surroundings) (w : World) (sourceSessionId : String)
 (revert copy : SessionRevertRecord) : Prop where
 checkpointId : copy.checkpointId = copyOf env w sourceSessionId revert.checkpointId
 previousCheckpointId : copy.previousCheckpointId =
  (revert.previousCheckpointId.filter (· ≠ "")).map (copyOf env w sourceSessionId)

theorem head?_copyReverts :
 (∃revert copy,latestWhenRelisted w.db sourceSessionId=some revert ∧
  (newestFirst SessionRevertRecord.createdAt (copyReverts env w sourceSessionId)).head? =
   some copy ∧ RevertCopy env w sourceSessionId revert copy ∧
  revert∈w.db.listReverts sourceSessionId) ∨
 latestWhenRelisted w.db sourceSessionId=none ∧
  (newestFirst SessionRevertRecord.createdAt (copyReverts env w sourceSessionId)).head? =
   none := by
 obtain ⟨f,hco,hf⟩ : ∃f,copyReverts env w sourceSessionId =
  (w.db.listReverts sourceSessionId).mapIdx f ∧ ∀i revert,
   (f i revert).createdAt=revert.createdAt ∧
   RevertCopy env w sourceSessionId revert (f i revert) :=
  ⟨_,rfl,fun _ _=>⟨rfl,rfl,rfl⟩⟩
 have hl:newestFirst SessionRevertRecord.createdAt (w.db.listReverts sourceSessionId) =
  (newestFirst (fun pair=>pair.1.createdAt)
   (w.db.listReverts sourceSessionId).zipIdx).map Prod.fst := by
  rw [←newestFirst_map Prod.fst fun _ _=>rfl,zipIdx_map_fst]
 rw [latestWhenRelisted,hl,hco,newestFirst_mapIdx f fun i revert=>(hf i revert).1,
  head?_map,head?_map]
 cases hh : (newestFirst (fun pair=>pair.1.createdAt)
  (w.db.listReverts sourceSessionId).zipIdx).head? with
 | none => exact .inr ⟨rfl,rfl⟩
 | some pair =>
  have hme:=mem_newestFirst.mp (mem_of_mem_head? hh)
  exact .inl ⟨pair.1,_,rfl,rfl,(hf _ _).2,fst_mem_of_mem_zipIdx hme⟩

theorem mem_ids_listedRevert (h:revert∈w.db.listReverts sourceSessionId) :
 ∀text∈revert.ids,text∈w.db.ids := by
 intro text htext
 have hrow:=(mem_filter.mp (mem_newestFirst.mp h)).1
 exact mem_ids_revert hrow htext

theorem copyOf_injective (hfork:Forkable env w sourceSessionId) {checkpointId text : String}
 (hch:CheckpointOf w.db sourceSessionId checkpointId) (htext:text∈w.db.ids)
 (heq:copyOf env w sourceSessionId text=copyOf env w sourceSessionId checkpointId) :
 text=checkpointId := by
 obtain ⟨n,hn,hge⟩:=@get_of_checkpointOf env _ _ _ hch
 rw [copyOf,copyOf,hge,Option.getD_some] at heq
 by_cases hso : CheckpointOf w.db sourceSessionId text
 · obtain ⟨m,-,ho⟩:=@get_of_checkpointOf env _ _ _ hso
   rw [ho,Option.getD_some] at heq
   obtain ⟨i,first,hi,hid,hco⟩:=get_checkpointIdMap.mp hge
   obtain ⟨j,second,hj,hid',hco'⟩:=get_checkpointIdMap.mp ho
   rw [hco,hco'] at heq
   have hin:i=j:=by
    have := (env.createId_injective heq).2
    omega
   subst hin
   rw [hi] at hj
   cases hj
   rw [←hid,hid']
 · rw [get_of_not_checkpointOf hso,Option.getD_none] at heq
   exact absurd heq (hfork.fresh.not_mem hn htext)

theorem findLatestRevert_fork (h:Forked env w w' sourceSessionId title) :
 w'.db.findLatestRevert (forkSessionId env w) =
  (newestFirst SessionRevertRecord.createdAt (copyReverts env w sourceSessionId)).head? := by
 rw [Database.findLatestRevert,Database.listReverts,h.reverts.filter_own]

section
variable (hfork : Forkable env w sourceSessionId) (h : Forked env w w' sourceSessionId title)
include hfork h

theorem revertTo_kept (hl:checkpoint∈w.db.listCheckpoints sourceSessionId)
 (reason : String)
 (hok:∃w'' report,revertTo env w' sourceSessionId checkpoint.id reason =
  (w'',.ok report)) :
 ∃w'' report,revertTo env w' (forkSessionId env w)
  (copyOf env w sourceSessionId checkpoint.id) reason=(w'',.ok report) := by
 obtain ⟨copy,hpair⟩:=@exists_copy env _ _ _ hl
 obtain ⟨-,-,found,hf,-,hb⟩:=revertTo_ok_iff.mp hok
 rw [hpair.found_source h] at hf
 cases hf
 obtain ⟨row,hrow,-⟩:=h.findSession_fork
 apply revertTo_ok_iff.mpr
 refine ⟨?_,⟨row,hrow⟩,copy,?_,h.checkpoints.own copy hpair.copied,
  hpair.bindable_iff.mpr hb⟩
 · rw [h.busy]
   exact hfork.fresh.busy _ _ (Nat.le_refl _)
 · rw [←hpair.id]
   exact hpair.found_fork h

theorem undoable_copy_iff {copy : SessionRevertRecord}
 (hco:RevertCopy env w sourceSessionId revert copy)
 (hl:revert∈w.db.listReverts sourceSessionId) :
 (∃target,Undoable env.driver w'.db (forkSessionId env w) copy target) ↔
  ∃target,Undoable env.driver w.db sourceSessionId revert target := by
 have hi:=mem_ids_listedRevert hl
 constructor
 · rintro ⟨target,hu⟩
   have hrow:target∈w'.db.checkpoints.rows.filter
    fun row=>row.sessionId=forkSessionId env w :=
    mem_filter.mpr ⟨((Table.find_eq_some _).mp hu.found).1,by simpa using hu.own⟩
   rw [h.checkpoints.filter_own] at hrow
   obtain ⟨checkpoint,hpair⟩:=exists_original hrow
   obtain ⟨hst,ho⟩:=mem_listCheckpoints.mp hpair.listed
   have hch:CheckpointOf w.db sourceSessionId checkpoint.id:=
    ⟨checkpoint,hst,ho,rfl⟩
   have hn:=hu.named
   rw [hco.previousCheckpointId,hpair.id] at hn
   obtain ⟨previous,hp,heq⟩:=Option.map_eq_some_iff.mp hn
   obtain ⟨hso,hno⟩:=Option.filter_eq_some_iff.mp hp
   have hme:previous∈w.db.ids:=
    hi previous (by simp [SessionRevertRecord.ids,hso])
   have hid:=copyOf_injective hfork hch hme heq
   subst hid
   refine ⟨checkpoint,hso,by simpa using hno,?_,findCheckpoint_of_mem hst,ho,
    hpair.bindable_iff.mp hu.bindable⟩
   intro hse
   apply hu.other
   rw [hco.checkpointId,hse,hpair.id]
 · rintro ⟨target,hu⟩
   have hst:=((Table.find_eq_some _).mp hu.found).1
   obtain ⟨copied,hpair⟩:=@exists_copy env _ _ _ (mem_listCheckpoints.mpr ⟨hst,hu.own⟩)
   refine ⟨copied,?_,hpair.nonempty,?_,hpair.found_fork h,
    h.checkpoints.own copied hpair.copied,
    hpair.bindable_iff.mpr hu.bindable⟩
   · rw [hco.previousCheckpointId,hu.named,Option.filter_some,
      if_pos (by simpa using hu.nonempty),hpair.id]
     rfl
   · intro hse
     rw [hco.checkpointId,hpair.id] at hse
     have hme:revert.checkpointId∈w.db.ids:=hi _ (by simp [SessionRevertRecord.ids])
     exact hu.other (copyOf_injective hfork ⟨target,hst,hu.own,rfl⟩ hme hse)

theorem undoable_source_iff {target : SessionCheckpointRecord} :
 Undoable env.driver w'.db sourceSessionId revert target ↔
  Undoable env.driver w.db sourceSessionId revert target := by
 constructor
 · intro hu
   have hrow:=((Table.find_eq_some _).mp hu.found).1
   rw [h.checkpoints.after] at hrow
   have hst:target∈w.db.checkpoints.rows:=by
    rcases mem_append.mp hrow with hst|hco
    · exact hst
    · have := (h.checkpoints.own target hco).symm.trans hu.own
      exact absurd this.symm (hfork.fresh.fork_not_mem hfork.found)
   exact ⟨hu.named,hu.nonempty,hu.other,findCheckpoint_of_mem hst,hu.own,
    hu.bindable⟩
 · intro hu
   have hst:=((Table.find_eq_some _).mp hu.found).1
   refine ⟨hu.named,hu.nonempty,hu.other,findCheckpoint_of_mem ?_,hu.own,
    hu.bindable⟩
   rw [h.checkpoints.after]
   exact mem_append_left _ hst

theorem findLatestRevert_source :
 w'.db.findLatestRevert sourceSessionId=w.db.findLatestRevert sourceSessionId := by
 rw [Database.findLatestRevert,Database.listReverts,(h.sourceUnchanged hfork.fresh).reverts]
 rfl

theorem undoRevert_fork_iff :
 (∃w'' report,undoRevert env w' (forkSessionId env w)=(w'',.ok report)) ↔
  ∃first target,latestWhenRelisted w.db sourceSessionId=some first ∧
   Undoable env.driver w.db sourceSessionId first target := by
 obtain ⟨row,hrow,-⟩:=h.findSession_fork
 have hid:forkSessionId env w ∉ w'.busy:=by
  rw [h.busy]
  exact hfork.fresh.busy _ _ (Nat.le_refl _)
 rw [undoRevert_ok_iff,and_iff_right hid,and_iff_right ⟨row,hrow⟩,
  findLatestRevert_fork h]
 rcases @head?_copyReverts env w sourceSessionId with
  ⟨revert,copy,hr,hco,hpair,hli⟩ | ⟨hr,hco⟩
 · have hi:=undoable_copy_iff hfork h hpair hli
   rw [hr,hco]
   constructor
   · rintro ⟨latest,target,hl,hu⟩
     cases hl
     obtain ⟨target',hu'⟩:=hi.mp ⟨target,hu⟩
     exact ⟨revert,target',rfl,hu'⟩
   · rintro ⟨first,target,hf,hu⟩
     cases hf
     obtain ⟨target',hu'⟩:=hi.mpr ⟨target,hu⟩
     exact ⟨copy,target',rfl,hu'⟩
 · rw [hr,hco]
   constructor
   · rintro ⟨_,_,hl,-⟩
     cases hl
   · rintro ⟨_,_,hf,-⟩
     cases hf

theorem revertsKept_iff :
 RevertsKept env w w' sourceSessionId ↔ UndoSafe env w sourceSessionId := by
 obtain ⟨row,hrow,-⟩:=h.source
 have hso:w'.db.findSession sourceSessionId=some row:=by
  rw [(h.sourceUnchanged hfork.fresh).session,hrow]
 have hu:(∃w'' report,undoRevert env w' sourceSessionId=(w'',.ok report)) ↔
  sourceSessionId ∉ w.busy ∧ ∃latest target,
   w.db.findLatestRevert sourceSessionId=some latest ∧
   Undoable env.driver w.db sourceSessionId latest target := by
  rw [undoRevert_ok_iff,h.busy,findLatestRevert_source hfork h,
   and_iff_right (⟨row,hso⟩ : ∃session,w'.db.findSession sourceSessionId=some session)]
  simp [undoable_source_iff hfork h]
 constructor
 · rintro hkept hi latest target hl hta
   exact (undoRevert_fork_iff hfork h).mp
    (hkept.undoRevert (hu.mpr ⟨hi,latest,target,hl,hta⟩))
 · intro hsa
   refine ⟨fun checkpoint hli reason hok=>revertTo_kept hfork h hli reason hok,?_⟩
   intro hok
   obtain ⟨hi,latest,target,hl,hta⟩:=hu.mp hok
   exact (undoRevert_fork_iff hfork h).mpr (hsa hi latest target hl hta)

end

end

/-- A fork is self-contained, leaves the source as it was and can be reverted as the source can,
exactly when what it copies as it is names nothing of the source, and the revert that comes out as
the newest can be undone if the newest of the source can. -/
theorem fork_selfContained_iff (env : Surroundings) (w w' : World) (sourceSessionId : String)
 (title : Option String) (report : SessionForkReport) (hfresh : Fresh env w)
 (hok : forkSession env w sourceSessionId title = (w',.ok report)) :
 report.sessionId = forkSessionId env w ∧ SelfContained env w w' sourceSessionId ∧
  SourceUnchanged w.db w'.db sourceSessionId ∧ RevertsKept env w w' sourceSessionId ↔
  NamesSafe w sourceSessionId title ∧ UndoSafe env w sourceSessionId := by
 obtain ⟨hf,hr⟩:=forked_of_ok hfresh hok
 obtain ⟨row,hrow,-⟩:=hf.source
 have hfork:Forkable env w sourceSessionId:=⟨hfresh,mem_ids_session hrow⟩
 rw [selfContained_iff hfork hf,revertsKept_iff hfork hf]
 constructor
 · rintro ⟨-,hn,-,hu⟩
   exact ⟨hn,hu⟩
 · rintro ⟨hn,hu⟩
   exact ⟨hr,hn,hf.sourceUnchanged hfresh,hu⟩

def twoCheckpoints : World where
 db := ((Database.empty.saveSession (plainSession "z")).saveCheckpoint
  (plainCheckpoint "a" "z" "delivery_execute" 1)).saveCheckpoint
  (plainCheckpoint "b" "z" "delivery_review" 2)
 busy := []
 ticks := 0

/-- The same session after two reverts in one millisecond, the second of them saved with a summary
of the first checkpoint. -/
def twoReverts : World :=
 { twoCheckpoints with
   db := (((twoCheckpoints.db.saveRevert
    ⟨"r1","z","a",none,"manual-revert","t"⟩).saveRevert
    ⟨"r2","z","b",some "a","manual-revert","t"⟩).saveSummary
    ⟨"m1","z",.unsigned 1,.unsigned 0,.unsigned 0,none,none,some (.string "a"),none,none,
     "t"⟩) }

theorem plain_createId_ne {kind : RecordKind} {n : Nat} {text : String}
 (h:∀kind : RecordKind,text.toList.head?≠some kind.letter) :
 plainSurroundings.createId kind n≠text := by
 rintro rfl
 apply h kind
 change (String.toList (String.ofList (kind.letter :: List.replicate n 'x'))).head?=_
 rw [String.toList_ofList]
 rfl

theorem fresh_twoCheckpoints : Fresh plainSurroundings twoCheckpoints := by
 constructor
 · intro kind n _ hme
   have hf:∀text∈["z","a","z","b","z"],∀kind : RecordKind,
    text.toList.head?≠some kind.letter := by
    intro text htext kind
    simp only [mem_cons,not_mem_nil,or_false] at htext
    rcases htext with rfl|rfl|rfl|rfl|rfl <;> cases kind <;> decide
   exact plain_createId_ne (hf _ hme) rfl
 · intro kind n _ hme
   cases hme

theorem undoSafe_twoCheckpoints : UndoSafe plainSurroundings twoCheckpoints "z" := by
 intro _ latest target hl
 cases hl

theorem stringAt_plainCheckpoint {id sessionId stage text : String} {n : Nat}
 {keys : List String} {value : Json}
 (hvalue:value∈(plainCheckpoint id sessionId stage n).jsonFields)
 (h:Json.StringAt keys text value) : text∈["delivery",stage,"in_progress","pending"] := by
 simp only [SessionCheckpointRecord.jsonFields,plainCheckpoint,mem_cons,not_mem_nil,or_false]
  at hvalue
 rcases hvalue with rfl|rfl|rfl|rfl <;> simp at h
 · obtain ⟨_,-,⟨⟩⟩:=h
 · rcases h with ⟨-,rfl⟩|⟨-,rfl⟩|⟨-,rfl⟩|⟨-,rfl⟩ <;> simp

theorem namesSource_twoCheckpoints {text : String}
 (h:NamesSource twoCheckpoints.db "z" text) : text∈["z","a","b"] := by
 rcases h with rfl|⟨checkpoint,hrow,-,rfl⟩
 · decide
 · have hme:=mem_map_of_mem (f := SessionCheckpointRecord.id) hrow
   exact mem_cons_of_mem _ hme

/-- The fork of a session whose records name nothing of it. -/
theorem fork_selfContained_iff_two :
 SelfContained plainSurroundings twoCheckpoints
  (forkSession plainSurroundings twoCheckpoints "z" (some "copy")).1 "z" := by
 refine ((fork_selfContained_iff plainSurroundings twoCheckpoints _ "z" (some "copy")
  ⟨"z","s",0,0,2,0⟩ fresh_twoCheckpoints rfl).mpr ⟨?_,undoSafe_twoCheckpoints⟩).2.1
 have hcl:∀text∈["delivery","delivery_execute","delivery_review","in_progress",
  "pending","session.created","session","copy"],
  ¬NamesSource twoCheckpoints.db "z" text := by
  intro text htext hn
  have hnone:∀text∈["delivery","delivery_execute","delivery_review","in_progress",
   "pending","session.created","session","copy"],text ∉ ["z","a","b"] := by decide
  exact hnone text htext (namesSource_twoCheckpoints hn)
 refine ⟨?_,fun text htext=>?_,?_,?_,?_⟩
 · intro row hrow
   cases hrow
 · apply hcl
   revert text
   decide
 · intro row hrow
   cases hrow
 · intro row hrow value hvalue keys text hat
   have hr:twoCheckpoints.db.listCheckpoints "z" =
    [plainCheckpoint "b" "z" "delivery_review" 2,plainCheckpoint "a" "z" "delivery_execute" 1] :=
    rfl
   rw [hr] at hrow
   apply hcl
   simp only [mem_cons,not_mem_nil,or_false] at hrow
   rcases hrow with rfl|rfl
   · have := stringAt_plainCheckpoint hvalue hat
     revert this
     generalize text=text
     revert text
     decide
   · have := stringAt_plainCheckpoint hvalue hat
     revert this
     generalize text=text
     revert text
     decide
 · intro row hrow
   cases hrow

/-- A summary of the fork names a checkpoint of the source, and the undo that succeeds on the source
fails on the fork, whose newest revert is the copy of the older one. -/
theorem fork_names_source :
 let forked := forkSession plainSurroundings twoReverts "z" none
 forked.2 = .ok ⟨"z","s",0,1,2,2⟩ ∧
  (forked.1.db.listSummaries "s").map SessionSummaryRecord.latestCheckpointId =
   [some (.string "a")] ∧
  CheckpointOf twoReverts.db "z" "a" ∧
  (∃ w' report,undoRevert plainSurroundings forked.1 "z" = (w',.ok report)) ∧
  ¬ ∃ w' report,undoRevert plainSurroundings forked.1 "s" = (w',.ok report) := by
 intro forked
 have hr:(undoRevert plainSurroundings forked.1 "s").2 =
  .error "No previous checkpoint available for undoRevert on session 's'." := rfl
 refine ⟨rfl,rfl,⟨_,mem_cons_self,rfl,rfl⟩,⟨_,_,Prod.ext rfl rfl⟩,?_⟩
 rintro ⟨w',report,hu⟩
 rw [hu] at hr
 cases hr

end DhKit.SessionRecords
