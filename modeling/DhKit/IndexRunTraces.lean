import DhKit.IndexRunPlans

/-!
# Runs as sequences of steps

A completed run is a sequence of committed steps: a fact kept by each step is kept by the run.
-/
namespace DhKit.Indexer
open KeyedTables CommitRules List

/-- One committed step of a run with a given plan, from what the run has recorded
 and the database. `Marks` says which rows may be marked not current. -/
inductive PlanStep (env : Env) (plan : RunPlan) (Marks : FileKey → File → Prop) :
 RunState × Db → RunState × Db → Prop
 | planned {st : RunState} {db db' : Db} (p : PlannedFile) (hc : p.candidate ∈ plan.candidates)
  (hw : plan.PlannedWrite env p db db') :
  PlanStep env plan Marks (st,db) (recordOutcome st ⟨p,db⟩ (plan.outcome env p),db')
 | hashFailed {st : RunState} {db db' : Db} (c : FileCandidate) (hc : c ∈ plan.candidates)
  (hw : HashFailedWrite env plan c db db') :
  PlanStep env plan Marks (st,db) (recordFailure st (fileKeyForCandidate c),db')
 | notCurrent {st : RunState} {db db' : Db} (key : FileKey) (file : File) (message : String)
  (reason : FreshnessReason) (he : plan.existing.get key = some file) (hm : Marks key file)
  (hw : db.Written db' (notCurrentRow env file message reason) [] [] [] true) :
  PlanStep env plan Marks (st,db) (st,db')
 | counted {st : RunState} {db : Db} (counters : FreshnessCounters) :
  PlanStep env plan Marks (st,db) ({ st with counters := counters },db)
 | deleted {st : RunState} {db : Db} (key : FileKey) (file : File)
  (he : plan.existing.get key = some file) (hd : key ∈ plan.dirty.toDelete) :
  PlanStep env plan Marks (st,db) (st,db.markDeletedFile file env.now env.runIdMarker)
 | retained {st : RunState} {db db' : Db} (h : RetainedSoFar env st.indexed db [] db') :
  PlanStep env plan Marks (st,db) (st,db')

abbrev PlanSteps (env : Env) (plan : RunPlan) (Marks : FileKey → File → Prop) :=
 Relation.ReflTransGen (PlanStep env plan Marks)

section
variable {env : Env} {plan : RunPlan} {Marks : FileKey → File → Prop} {st st' : RunState}
 {s t : Store} {db : Db} {initial forced : List FileKey} {key : FileKey}
 {db1 : Db} {y : RefreshQueue × Db} {touched : List FileKey} {expand : Bool}

theorem scanned_get_some {c : FileCandidate}
 (h:(expansionInput plan initial).scannedByPath.get key=some c) :
 c∈plan.candidates ∧ fileKeyForCandidate c=key := by
 have := HashMap.mem_of_get_collect h
 simp only [mem_map] at this
 obtain ⟨c,hc,rfl,rfl⟩:=this
 exact ⟨hc,rfl⟩

theorem scanned_get_none :
 (expansionInput plan initial).scannedByPath.get key=none ↔
  key ∉ plan.candidates.map fileKeyForCandidate := by
 rw [←Option.not_isSome_iff_eq_none,expansionInput,HashMap.isSome_get_collect,map_map]
 rfl

structure Tracked (plan : RunPlan) (initialIndexed : List FileKey) (st : RunState) : Prop where
 deltas : ∀ e ∈ st.deltas.rows,e.1 ∈ initialIndexed
 fatal : ∀ key ∈ st.fatalRoots,key ∈ initialIndexed ∨
  key ∈ plan.candidates.map fileKeyForCandidate

structure Recorded (st : RunState) : Prop where
 deltas : ∀ e ∈ st.deltas.rows,e.1 ∈ st.indexed
 fatal : ∀ key ∈ st.fatalRoots,key ∈ st.indexed

theorem Recorded.start : Recorded .start := ⟨by simp [RunState.start],by simp [RunState.start]⟩

theorem Recorded.outcome (h:Recorded st) (write : WriteRecord) (outcome : ProcessOutcome) :
 Recorded (recordOutcome st write outcome) := by
 refine ⟨fun e he=>?_,fun k hk=>?_⟩
 · rcases Table.mem_upsert.mp he with rfl|⟨he,-⟩
   · exact mem_pushUnique.mpr (.inr rfl)
   · exact mem_pushUnique.mpr (.inl (h.deltas e he))
 · simp only [recordOutcome] at hk ⊢
   split_ifs at hk
   · exact mem_pushUnique.mpr ((mem_pushUnique.mp hk).imp_left (h.fatal k))
   · exact mem_pushUnique.mpr (.inl (h.fatal k hk))

theorem Recorded.failure (h:Recorded st) (key : FileKey) : Recorded (recordFailure st key) :=
 ⟨fun e he=>mem_pushUnique.mpr (.inl (h.deltas e he)),
  fun k hk=>mem_pushUnique.mpr ((mem_pushUnique.mp hk).imp_left (h.fatal k))⟩

theorem indexPlanned_steps {planned : List PlannedFile}
 (hc:∀p∈planned,p.candidate∈plan.candidates)
 (h:Yields (planned.foldlM (indexPlanned env plan) st) s st' t)
 (hst:Recorded st) : Recorded st' ∧ PlanSteps env plan Marks (st,s.db) (st',t.db) := by
 refine foldlM_invariant _ (fun st' u=>Recorded st' ∧
  PlanSteps env plan Marks (st,s.db) (st',u.db)) _ ?_ ⟨hst,.refl⟩ h
 rintro p st1 u st2 v hp ⟨hr,hs⟩ hste
 obtain ⟨rfl,hw⟩:=indexPlanned_yields hste
 exact ⟨hr.outcome _ _,hs.tail (.planned p (hc p hp) hw)⟩

theorem markHashFailed_steps {candidates : List FileCandidate}
 (hc:∀c∈candidates,c∈plan.candidates)
 (h:Yields (candidates.foldlM (markHashFailed env plan) st) s st' t)
 (hst:Tracked plan initial st) :
 Tracked plan initial st' ∧ PlanSteps env plan Marks (st,s.db) (st',t.db) := by
 refine foldlM_invariant _ (fun st' u=>Tracked plan initial st' ∧
  PlanSteps env plan Marks (st,s.db) (st',u.db)) _ ?_ ⟨hst,.refl⟩ h
 rintro c st1 u st2 v hm ⟨hr,hs⟩ hste
 rcases markHashFailed_yields hste with ⟨-,rfl,rfl⟩|⟨-,rfl,hw⟩
 · exact ⟨hr,hs⟩
 refine ⟨⟨hr.deltas,fun k hk=>?_⟩,hs.tail (.hashFailed c (hc c hm) hw)⟩
 rcases mem_pushUnique.mp hk with hk|rfl
 · exact hr.fatal k hk
 · exact .inr (mem_map.mpr ⟨c,hc c hm,rfl⟩)

def ForcedMarks (plan : RunPlan) (forced : List FileKey) (key : FileKey) (file : File) : Prop :=
 file.deletedAtUnixMs = none ∨ key ∈ forced ∧ key ∉ plan.candidates.map fileKeyForCandidate

def confirmedChanges (plan : RunPlan) (forced : List FileKey) (st : RunState) :
 ConfirmedChanges where
 changedFiles := st.changedFiles
 deltas := st.deltas
 deletedKeys := plan.dirty.toDelete
 forcedRoots := collectKeys (forced++st.fatalRoots)

theorem markable_forced (hp:plan.For env db) (hst:Tracked plan initial st) {file : File}
 (h:Markable (expansionInput plan initial) (confirmedChanges plan forced st).allRoots key
  file) : ForcedMarks plan forced key file := by
 rcases h.live_or_root with hl|⟨hr,hs⟩
 · exact .inl hl
 have hsc:=scanned_get_none.mp hs
 have hde:∀e∈st.deltas.rows,e.1≠key:=fun e he hk=>
  h.not_indexed (hk ▸ hst.deltas e he)
 simp only [ConfirmedChanges.allRoots,confirmedChanges,ConfirmedChanges.publicApiRoots,
  ConfirmedChanges.structuralRoots,mem_append,mem_map,mem_filter,mem_collectKeys] at hr
 rcases hr with ((⟨e,⟨he,-⟩,hk⟩|hd)|hf|hf)|⟨e,⟨he,-⟩,hk⟩
 · exact absurd hk (hde e he)
 · obtain ⟨f,hf,hk,hli,-⟩:=(hp.toDelete key).mp hd
   have : plan.existing.get key=some file := h.existing
   obtain ⟨hm,hk'⟩:=(hp.existing key file).mp this
   exact .inl (db.files.row_unique hm hf (hk'.trans hk.symm) ▸ hli)
 · exact .inr ⟨hf,hsc⟩
 · rcases hst.fatal key hf with hi|hi
   · exact absurd hi h.not_indexed
   · exact absurd hi hsc
 · exact absurd hk (hde e he)

theorem Expands.steps (hp:plan.For env db) (hst:Tracked plan initial st)
 (hy:Expands env (expansionInput plan initial) (confirmedChanges plan forced st).allRoots
  (⟨[],[],st.counters⟩,db1) y) :
 PlanSteps env plan (ForcedMarks plan forced) (st,db1) (st,y.2) := by
 induction hy with
 | refl => exact .refl
 | tail _ hste ih =>
  cases hste with
  | queued => exact ih
  | marked key file message reason hm hq hw =>
   exact ih.tail (.notCurrent key file message reason hm.existing
    (markable_forced hp hst hm) hw)

theorem Expands.queue_candidates {roots : List FileKey} {c : FreshnessCounters}
 (hy:Expands env (expansionInput plan initial) roots (⟨[],[],c⟩,db1) y) :
 ∀p∈y.1.queue,p.candidate∈plan.candidates := by
 intro p hp
 obtain ⟨-,key,hs⟩:=hy.queue_scanned (by simp) (fun _ _ hs=>(scanned_get_some hs).2) p hp
 exact (scanned_get_some hs).1

theorem refreshQueued_steps {queue : List PlannedFile}
 (hc:∀p∈queue,p.candidate∈plan.candidates)
 (h:Yields (queue.foldlM (refreshQueued env plan) st) s st' t) :
 PlanSteps env plan Marks (st,s.db) (st',t.db) := by
 refine foldlM_invariant _ (fun st' u=>PlanSteps env plan Marks (st,s.db) (st',u.db)) _ ?_
  .refl h
 intro p st1 u st2 v hp hI hst
 rcases refreshQueued_yields hst with ⟨-,rfl,rfl⟩|⟨-,rfl,hw⟩|⟨-,rfl,hw⟩
 · exact hI
 · exact hI.tail (.hashFailed _ (hc p hp) hw)
 · exact hI.tail (.planned p (hc p hp) hw)

theorem expandAndRefresh_steps (hp:plan.For env db)
 (h:Yields (expandAndRefresh env plan initial forced st) s st' t)
 (hst:Tracked plan initial st) :
 PlanSteps env plan (ForcedMarks plan forced) (st,s.db) (st',t.db) := by
 simp only [expandAndRefresh,yields_bind] at h
 obtain ⟨q,s1,hexp,hdr⟩:=h
 have hexp:Expands env (expansionInput plan initial) (confirmedChanges plan forced st).allRoots
  (⟨[],[],st.counters⟩,s.db) (q,s1.db) :=
  applyConfirmedInvalidationExpansion_expands (fun _ _ hf=>(existingByKey_key hf).2) hexp
 exact ((hexp.steps hp hst).tail (.counted q.counters)).trans
  (refreshQueued_steps hexp.queue_candidates hdr)

theorem deleteFile_steps {ids : List FileId} (hi:∀id∈ids,id∈plan.dirty.toDelete)
 (h:Yields (ids.foldlM (deleteFile env plan) st) s st' t) :
 PlanSteps env plan Marks (st,s.db) (st',t.db) := by
 refine foldlM_invariant _ (fun st' u=>PlanSteps env plan Marks (st,s.db) (st',u.db)) _ ?_
  .refl h
 intro id st1 u st2 v hid hI hst
 rcases deleteFile_yields hst with ⟨-,rfl,rfl⟩|⟨file,he,rfl,hv⟩
 · exact hI
 · rw [hv]
   exact (hI.tail (.deleted id file he (hi id hid))).tail (.counted _)

theorem settleRun_steps (h:Yields (settleRun env plan st) s st' t) :
 PlanSteps env plan Marks (st,s.db) (st',t.db) := by
 simp only [settleRun,yields_bind] at h
 obtain ⟨st1,s1,hde,counters,s2,hr,rfl,rfl⟩:=h
 have h1:PlanSteps env plan Marks (st,s.db) (st1,s1.db):=
  deleteFile_steps (fun _ hid=>hid) hde
 exact (h1.tail (.retained (refreshUnchangedFiles_retained hr))).tail (.counted counters)

theorem settledWorkspace_steps (hp:plan.For env db)
 (h:Yields (settledWorkspace env plan) s st t) :
 PlanSteps env plan (ForcedMarks plan []) (.start,s.db) (st,t.db) := by
 simp only [settledWorkspace,yields_bind] at h
 obtain ⟨st1,s1,h1,st2,s2,h2,st3,s3,h3,h4⟩:=h
 obtain ⟨hr,e1⟩:=indexPlanned_steps hp.toIndex h1 .start
 obtain ⟨htr,e2⟩:=markHashFailed_steps (fun _ hc=>hc) h2
  ⟨hr.deltas,fun k hk=>Or.inl (hr.fatal k hk)⟩
 exact ((e1.trans e2).trans (expandAndRefresh_steps hp h3 htr)).trans (settleRun_steps h4)

theorem runWorkspacePlan_yields (h:Yields (runWorkspacePlan env plan) s st t) :
 ∃mid,Yields (settledWorkspace env plan) s st mid ∧
  Yields (relinkRun env plan st) mid () t := by
 simp only [runWorkspacePlan,yields_bind] at h
 obtain ⟨st1,mid,hse,_,_,hr,rfl,rfl⟩:=h
 exact ⟨mid,hse,hr⟩

theorem markTouchedFailed_steps (hp:plan.For env db) {keys : List FileKey}
 (h:Yields (keys.foldlM (markTouchedFailed env plan) st) s st' t) (hst:Recorded st) :
 Recorded st' ∧ PlanSteps env plan Marks (st,s.db) (st',t.db) := by
 refine foldlM_invariant _ (fun st' u=>Recorded st' ∧
  PlanSteps env plan Marks (st,s.db) (st',u.db)) _ ?_ ⟨hst,.refl⟩ h
 rintro key st1 u st2 v-⟨hr,hs⟩ hste
 unfold markTouchedFailed at hste
 split at hste
 · next message existing hm he =>
   split_ifs at hste
   · simp only [yields_pure] at hste
     obtain ⟨rfl,rfl⟩:=hste
     exact ⟨hr,hs⟩
   split at hste
   · next c hc =>
     simp only [yields_bind] at hste
     obtain ⟨_,w,hw,rfl,rfl⟩:=hste
     have hk:fileKeyForCandidate c=key:=by simpa using find?_some hc
     subst hk
     exact ⟨hr.failure _,hs.tail (.hashFailed c (mem_of_find?_eq_some hc)
      ⟨message,existing,hm,he,Db.writeFileAtomically_ok (yields_commit hw)⟩)⟩
   · next hnone =>
     obtain ⟨c,hc,hk⟩:=hp.failures key message hm
     exact absurd hk (by simpa using find?_eq_none.mp hnone c hc)
 · simp only [yields_pure] at hste
   obtain ⟨rfl,rfl⟩:=hste
   exact ⟨hr,hs⟩

theorem settledPaths_steps (hpla:plan.For env db)
 (h:Yields (settledPaths env plan touched expand) s st t) :
 PlanSteps env plan (ForcedMarks plan (if expand then touched else [])) (.start,s.db)
  (st,t.db) := by
 simp only [settledPaths,yields_bind] at h
 obtain ⟨st0,s0,h0,st1,s1,h1,st2,s2,h2,st3,s3,h3,h4⟩:=h
 obtain ⟨hr0,e0⟩:=markTouchedFailed_steps hpla h0 .start
 obtain ⟨hr,e1⟩:=indexPlanned_steps hpla.toIndex h1 hr0
 have hpl:∀c∈plan.dirty.toIndex.map PlannedFile.candidate,c∈plan.candidates:=by
  intro c hc
  obtain ⟨p,hp,rfl⟩:=mem_map.mp hc
  exact hpla.toIndex p hp
 obtain ⟨htr,e2⟩:=markHashFailed_steps hpl h2
  ⟨hr.deltas,fun k hk=>Or.inl (hr.fatal k hk)⟩
 exact (((e0.trans e1).trans e2).trans (expandAndRefresh_steps hpla h3 htr)).trans
  (settleRun_steps h4)

theorem runPathsPlan_yields (h:Yields (runPathsPlan env plan touched expand) s st t) :
 ∃mid,Yields (settledPaths env plan touched expand) s st mid ∧
  Yields (relinkRun env plan st) mid () t := by
 simp only [runPathsPlan,yields_bind] at h
 obtain ⟨st1,mid,hse,_,_,hr,rfl,rfl⟩:=h
 exact ⟨mid,hse,hr⟩

end

/-- A run of a call that began in `db` and has settled its files: its plan, what it
 recorded and the store before its relink. -/
inductive Settles (env : Env) (db : Db) : RunPlan → RunState → Store → Prop
 | workspace (req : IndexWorkspaceRequest) {s mid : Store} {st : RunState}
  (hs : db.SameTables s.db)
  (h : Yields (settledWorkspace env (requestPlan env req db)) s st mid) :
  Settles env db (requestPlan env req db) st mid
 | paths (req : IndexPathsRequest) {s mid : Store} {st : RunState} (hs : db.SameTables s.db)
  (h : Yields (settledPaths env (pathsRequestPlan env req db) (touchedKeys env req db)
   req.expandDependents) s st mid) :
  Settles env db (pathsRequestPlan env req db) st mid

theorem Settles.of_workspace {env : Env} {req : IndexWorkspaceRequest} {db : Db} {st : RunState}
 {fault : Option (Nat × Stop)} {mid : Store}
 (h:Yields (settledWorkspace env (requestPlan env req db)) ⟨db,fault⟩ st mid) :
 Settles env db (requestPlan env req db) st mid := .workspace req (.refl db) h

theorem Settles.steps {env : Env} {db : Db} {plan : RunPlan} {st : RunState} {mid : Store}
 (h:Settles env db plan st mid) : ∃start Marks,db.SameTables start ∧
  PlanSteps env plan Marks (.start,start) (st,mid.db) := by
 cases h with
 | workspace req hs h => exact ⟨_,_,hs,settledWorkspace_steps (requestPlan_for env req db) h⟩
 | paths req hs h => exact ⟨_,_,hs,settledPaths_steps (pathsRequestPlan_for env req db) h⟩

end DhKit.Indexer
