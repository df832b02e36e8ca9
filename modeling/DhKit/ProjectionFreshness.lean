import DhKit.IndexHistories
import DhKit.IndexRowConsistency

/-!
# Freshness of the graph projection

`hydrate` calls a projection current by the state row of the last run and the freshness columns of
the file rows.
-/
namespace DhKit.Indexer
open KeyedTables CommitRules

inductive GraphProjectionFreshness where
 | current | cold | stale | partially
deriving DecidableEq

structure FreshnessStateCounts where
 refreshedCurrent : Nat
 retainedCurrent : Nat
 degradedPartial : Nat
 notCurrent : Nat
deriving DecidableEq

def Db.freshnessStateCounts (db : Db) : FreshnessStateCounts :=
 let count (state : FreshnessState) := db.files.rows.countP fun f => f.freshnessState = state
 { refreshedCurrent := count .refreshedCurrent
   retainedCurrent := count .retainedCurrent
   degradedPartial := count .degradedPartial
   notCurrent := count .notCurrent }

def IndexRunStatus.debug : IndexRunStatus → String
 | idle => "Idle"
 | scanning => "Scanning"
 | hashing => "Hashing"
 | parsing => "Parsing"
 | writing => "Writing"
 | completed => "Completed"
 | failed => "Failed"

def debugRunId : Option String → String
 | none => "None"
 | some id => "Some(\"" ++ id ++ "\")"

def classifyProjectionFreshness (state : Option IndexState) (counts : FreshnessStateCounts)
 (fileCount : Nat) : GraphProjectionFreshness × String :=
 if fileCount = 0 then (.cold,"no indexed files are available for graph projection")
 else match state with
  | none => (.cold,
   "index_state is absent; graph projection was hydrated from storage without run metadata")
  | some state =>
   if state.activeRunId.isSome ∨ state.status≠.completed then
    (.stale,"index run is not complete (status=" ++ state.status.debug ++ ", active_run_id=" ++
     debugRunId state.activeRunId ++ ")")
   else if counts.notCurrent > 0 then
    (.stale,toString counts.notCurrent ++ " indexed file(s) are not current")
   else if counts.degradedPartial > 0 then
    (.partially,
     toString counts.degradedPartial ++ " indexed file(s) have degraded partial freshness")
   else
    (.current,"index_version " ++ toString state.indexVersion ++ " is complete and current")

def Db.projectionFreshness (db : Db) : GraphProjectionFreshness × String :=
 classifyProjectionFreshness db.state db.freshnessStateCounts db.listFilesByWorkspace.length

def Db.projectionCurrent (db : Db) : Bool := db.projectionFreshness.1 = .current

def Db.RunCompleted (db : Db) : Prop :=
 ∃ state,db.state = some state ∧ state.status = .completed ∧ state.activeRunId = none

theorem Db.projectionCurrent_iff {db : Db} : db.projectionCurrent=true ↔
 db.files.rows≠[] ∧ db.RunCompleted ∧ ∀f∈db.files.rows,
  f.freshnessState≠.notCurrent ∧ f.freshnessState≠.degradedPartial := by
 have hl:db.listFilesByWorkspace.length=0 ↔ db.files.rows=[]:=by
  rw [Db.listFilesByWorkspace,List.length_insertionSort,List.length_eq_zero_iff]
 have hco:∀state,(db.files.rows.countP fun f=>f.freshnessState=state) > 0 ↔
  ∃f∈db.files.rows,f.freshnessState=state := by
  intro state
  simp
 unfold Db.projectionCurrent Db.projectionFreshness classifyProjectionFreshness Db.RunCompleted
 by_cases h0 : db.files.rows=[]
 · simp [hl.mpr h0,h0]
 cases hs : db.state with
 | none => simp [hl,h0]
 | some state =>
  simp only [Db.freshnessStateCounts,hco,Option.isSome_iff_ne_none]
  split_ifs with h1 h2 h3 <;> grind

section
variable {db db' : Db}

theorem foldlM_insertUnderSource_state {edges : List GraphEdge}
 (h:edges.foldlM Db.insertUnderSource db = .ok db') : db'.state=db.state := by
 induction edges generalizing db with
 | nil =>
  cases h
  rfl
 | cons e edges ih =>
  rw [List.foldlM_cons] at h
  cases hi : db.insertUnderSource e with
  | error m =>
   rw [hi] at h
   cases h
  | ok db1 =>
   rw [hi] at h
   rw [ih h]
   unfold Db.insertUnderSource at hi
   split at hi
   · split at hi
     · next he =>
       cases hi
       exact (Db.insertEdges_eq_some he).2.2.2.2.2.2
     · cases hi
   · cases hi
     rfl

theorem foldl_deleteGraphEdges_state (ids : List FileId) (db : Db) :
 (ids.foldl Db.deleteGraphEdgesForSourceFile db).state=db.state := by
 induction ids generalizing db with
 | nil => rfl
 | cons id ids ih => exact ih _

theorem linkWorkspace_state {disk : Disk} {root : Path} {rootPaths : HashMap RootId Path}
 (h:db.linkWorkspace disk root rootPaths=some db') : db'.state=db.state := by
 unfold Db.linkWorkspace at h
 simp only at h
 generalize (List.map _ _ : List (FileId × List GraphEdge))=entries at h
 induction entries generalizing db with
 | nil =>
  cases h
  rfl
 | cons entry entries ih =>
  simp only [List.foldlM_cons,Option.bind_eq_bind,Option.bind_eq_some_iff] at h
  obtain ⟨db1,hi,h⟩:=h
  rw [ih h]
  exact (Db.insertEdges_eq_some hi).2.2.2.2.2.2

theorem state_stable (env : Env) (state : Option IndexState) :
 WriteStable env (fun _=>True) fun db=>db.state=state where
 live _ := trivial
 written h _ _ hw := hw.state.trans h
 retained h _ := h
 deleted h := h
 contract h hr := (foldlM_insertUnderSource_state hr).trans
  ((foldl_deleteGraphEdges_state _ _).trans h)
 workspace h hl := (linkWorkspace_state hl).trans h

end

theorem stops_commit {f : Db → Except String Db} {s t : Store} (h:Stops (commit f) s t) :
 t.db=s.db := by
 obtain ⟨e,h⟩:=h
 unfold Indexer.commit at h
 rcases s with ⟨db,_|⟨_|n,_|message⟩⟩ <;> simp only at h
 · cases hf : f db with
   | ok db' => simp [hf] at h
   | error m => simp only [hf,Prod.mk.injEq] at h; rw [←h.2]
 · cases h; rfl
 · cases h; rfl
 all_goals
  cases hf : f db with
  | ok db' => simp [hf] at h
  | error m => simp only [hf,Prod.mk.injEq] at h; rw [←h.2]

@[simp] theorem stops_readDb {α : Type} {f : Db → α} {s t : Store} : ¬Stops (readDb f) s t :=
 stops_query

def Db.DeletionsMarked (db : Db) : Prop :=
 ∀ f ∈ db.files.rows,f.deletedAtUnixMs≠none → f.freshnessState = .deleted

section
variable {db db' : Db}

theorem Db.DeletionsMarked.upsert {file : File} (h:db.DeletionsMarked)
 (hfi:db'.files=db.files.upsert file)
 (hf:file.deletedAtUnixMs≠none → file.freshnessState = .deleted) :
 db'.DeletionsMarked := by
 intro f hm
 rw [hfi] at hm
 rcases Table.mem_upsert.mp hm with rfl|⟨hm,-⟩
 · exact hf
 · exact h f hm

theorem Db.DeletionsMarked.of_files (h:db.DeletionsMarked) (hf:db'.files=db.files) :
 db'.DeletionsMarked := by
 intro f hm
 rw [hf] at hm
 exact h f hm

theorem deletionsMarked_stable (env : Env) :
 CommitStable env (fun file=>file.deletedAtUnixMs=none) Db.DeletionsMarked where
 live h := h
 written h hrow _ hw := h.upsert hw.files fun hd=>absurd hrow hd
 retained h hli := h.upsert rfl fun hd=>absurd hli hd
 deleted h := h.upsert (Db.markDeletedFile_files ..) fun _=>rfl
 contract h hr := h.of_files (relinkContractChangedFiles_ok hr).1.files
 workspace h hl := h.of_files (linkWorkspace_some hl).1.files
 same h hs := h.of_files hs.files

end

section
variable {env : Env} {s t : Store}
 {db : Db} {state : IndexState} {req : IndexWorkspaceRequest} {plan : RunPlan}
 {report : IndexReport}

theorem saveState_state {u : Unit} (h:Yields (saveState state) s u t) :
 t.db.state=some state := by
 rw [yields_commit_ok h]
 rfl

theorem Db.RunCompleted.of_state {db' : Db} (h:db.RunCompleted) (hs:db'.state=db.state) :
 db'.RunCompleted := by
 unfold Db.RunCompleted
 rwa [hs]

theorem completeWorkspace_runCompleted {roots : RunRoots} {assignments : List (RootId × Path)}
 (h:Yields (completeWorkspace env req roots assignments state) s report t) :
 t.db.RunCompleted := by
 simp only [completeWorkspace,yields_bind] at h
 obtain ⟨_,_,-,_,_,-,_,_,-,_,_,-,_,_,hsa,-,rfl⟩:=h
 exact ⟨_,saveState_state hsa,rfl,rfl⟩

theorem indexWorkspace_runCompleted (h:Yields (indexWorkspace env req) s report t) :
 t.db.RunCompleted := by
 unfold indexWorkspace at h
 split at h
 · simp at h
 · simp at h
 simp only [yields_bind,yields_onError,runWorkspaceBody] at h
 obtain ⟨_,_,-,_,_,hc,_,_,hup,-,rfl⟩:=h
 exact completeWorkspace_runCompleted hc |>.of_state (congrArg Db.state (upsertRun_yields hup))

theorem indexPaths_runCompleted {req : IndexPathsRequest}
 (h:Yields (indexPaths env req) s report t) : t.db.RunCompleted := by
 obtain ⟨u,hc,hu⟩:=yields_indexPaths h
 simp only [completePaths,yields_bind] at hc
 obtain ⟨_,_,-,_,_,-,_,_,-,_,_,-,_,_,-,_,_,hsa,-,rfl⟩:=hc
 rw [hu]
 exact ⟨_,saveState_state hsa,rfl,rfl⟩

theorem not_runCompleted_of_state (hs:db.state=some state)
 (h:state.activeRunId≠none ∨ state.status≠.completed) : ¬db.RunCompleted := by
 rintro ⟨state',hs',hc,ha⟩
 rw [hs] at hs'
 cases hs'
 exact h.elim (fun h=>h ha) fun h=>h hc

theorem completeWorkspace_stops {roots : RunRoots} {assignments : List (RootId × Path)}
 (hs:s.db.state=some state) (ha:state.activeRunId≠none)
 (h:Stops (completeWorkspace env req roots assignments state) s t) :
 ∃state',t.db.state=some state' ∧ state'.activeRunId≠none := by
 simp only [completeWorkspace,stops_bind,stops_readDb,false_or,stops_pure,and_false,exists_false,
  or_false] at h
 obtain ⟨plan,_,⟨rfl,rfl⟩,h⟩:=h
 rcases h with h|⟨_,s1,h1,h⟩
 · rw [stops_commit h]
   exact ⟨state,hs,ha⟩
 rcases h with h|⟨_,s2,h2,h⟩
 · rw [stops_commit h]
   exact ⟨_,saveState_state h1,ha⟩
 have hst:=saveState_state h2
 have keep:=(state_stable env s2.db.state).runWorkspacePlan
  (workspacePlan_for env req roots assignments s.db)
 rcases h with h|⟨st,t1,hr,h⟩
 · exact ⟨_,(keep.stops rfl h).trans hst,ha⟩
 · rw [stops_commit h]
   exact ⟨_,(keep.yields rfl hr).trans hst,ha⟩

/-- A run that ends behind its state row was killed there, or its failure can be recorded. -/
theorem upsertRun_error {e : IndexError} (h:upsertRun s=(.error e,t)) :
 t.db=s.db ∧ (e = .killed ∨ t.fault=none) := by
 refine ⟨stops_commit ⟨e,h⟩,?_⟩
 unfold upsertRun Indexer.commit at h
 rcases s with ⟨db,_|⟨_|n,_|message⟩⟩ <;> simp only at h <;> cases h
 · exact .inl rfl
 · exact .inr rfl

theorem recordFailedRun_state {message : String}
 (h:(∃state,s.db.state=some state ∧ state.activeRunId≠none) ∨ s.fault=none) :
 ¬(recordFailedRun env (.failed message) s).2.db.RunCompleted := by
 rcases hr : recordFailedRun env (.failed message) s with ⟨e'|u,t⟩
 · have hst:Stops (recordFailedRun env (.failed message)) s t:=⟨e',hr⟩
   simp only [recordFailedRun,stops_bind,stops_readDb,false_or] at hst
   obtain ⟨_,_,⟨rfl,rfl⟩,hst⟩:=hst
   rcases h with ⟨state,hs,ha⟩|hf
   · rw [stops_commit hst]
     exact not_runCompleted_of_state hs (.inl ha)
   · obtain ⟨e,hst⟩:=hst
     simp [saveState,Indexer.commit,hf] at hst
 · have hok:Yields (recordFailedRun env (.failed message)) s u t:=hr
   simp only [recordFailedRun,yields_bind] at hok
   obtain ⟨_,_,⟨rfl,rfl⟩,hok⟩:=hok
   exact not_runCompleted_of_state (saveState_state hok) (.inr (by simp))

theorem ensureWorkspaceAndRoot_state {db' : Db} {root : RootId × Path}
 (h:db.ensureWorkspaceAndRoot root = .ok db') : db'.state=db.state := by
 unfold Db.ensureWorkspaceAndRoot at h
 split at h
 · cases h
   rfl
 · cases h

structure Db.SameRecords (db db' : Db) : Prop where
 tables : db.SameTables db'
 state : db'.state = db.state

theorem Db.SameRecords.refl (db : Db) : db.SameRecords db := ⟨.refl db,rfl⟩

theorem ensureRoots_keeps (db : Db) (roots : List (RootId × Path)) :
 KeepsDb db.SameRecords
  (roots.foldlM (fun _ root=>commit fun db=>db.ensureWorkspaceAndRoot root) ()) := by
 refine Keeps.foldlM (fun _ root=>?_) _ _
 have step:∀ {u v : Db},db.SameRecords u → u.ensureWorkspaceAndRoot root = .ok v →
  db.SameRecords v := fun hu hv=>
  ⟨hu.tables.trans (ensureWorkspaceAndRoot_ok hv),(ensureWorkspaceAndRoot_state hv).trans hu.state⟩
 exact keepsDb_commit step

/-- The two calls whose runs `hydrate` is told about. -/
inductive IndexCall where
 | workspace (env : Env) (req : IndexWorkspaceRequest)
 | paths (env : Env) (req : IndexPathsRequest)

def IndexCall.run : IndexCall → IndexM IndexReport
 | workspace env req => indexWorkspace env req
 | paths env req => indexPaths env req

/-- The call stores the state row that calls its run completed. -/
def IndexCall.Completes : IndexCall → Store → Prop
 | workspace env req,s => ∃ root others begun u report t,
  canonicalizeRoots env.disk req.roots = .ok (root::others) ∧
  Yields (beginWorkspace env (root::others)) s begun u ∧
  Yields (completeWorkspace env req (workspaceRunRoots begun.1 root (root::others)) begun.1
   begun.2) u report t
 | paths env req,s => ∃ report t,Yields (completePaths env req) s report t

theorem beginWorkspace_stops {roots : List Path} (h:Stops (beginWorkspace env roots) s t) :
 s.db.SameRecords t.db := by
 have hen:=ensureRoots_keeps s.db (assignWorkspaceRootIds s.db.rootPathsById roots)
 simp only [beginWorkspace,stops_bind,stops_readDb,false_or,stops_pure,and_false,exists_false,
  or_false] at h
 obtain ⟨_,_,⟨rfl,rfl⟩,h|⟨_,s1,h1,_,_,⟨rfl,rfl⟩,h⟩⟩:=h
 · exact hen.stops (.refl _) h
 · rw [stops_commit h]
   exact hen.yields (.refl _) h1

theorem beginWorkspace_active {roots : List Path} {begun : List (RootId × Path) × IndexState}
 (h:Yields (beginWorkspace env roots) s begun t) :
 t.db.state=some begun.2 ∧ begun.2.activeRunId≠none := by
 simp only [beginWorkspace,yields_bind,yields_pure] at h
 obtain ⟨_,_,-,_,_,-,_,_,-,_,_,hsa,rfl,rfl⟩:=h
 exact ⟨saveState_state hsa,by simp⟩

theorem indexWorkspace_stops {e : IndexError} (h:indexWorkspace env req s=(.error e,t)) :
 s.db.SameRecords t.db ∨ ¬t.db.RunCompleted ∨
  e = .killed ∧ (IndexCall.workspace env req).Completes s := by
 unfold indexWorkspace at h
 rcases hr : canonicalizeRoots env.disk req.roots with message|⟨_|⟨root,others⟩⟩ <;> rw [hr] at h
 · exact .inl (stops_fail.mp ⟨e,h⟩ ▸ .refl _)
 · exact .inl (stops_fail.mp ⟨e,h⟩ ▸ .refl _)
 rcases bind_eq_error h with hb|⟨begun,u,hb,h⟩
 · exact .inl (beginWorkspace_stops ⟨e,hb⟩)
 obtain ⟨hst,ha⟩:=beginWorkspace_active hb
 obtain ⟨e₀,v,hbo,rfl,he⟩:=onError_eq_error h
 right
 rcases bind_eq_error hbo with hc|⟨report,w,hc,hup⟩
 · obtain ⟨state,hs,hac⟩:=completeWorkspace_stops hst ha ⟨e₀,hc⟩
   cases e₀ with
   | killed => exact .inl (not_runCompleted_of_state hs (.inl hac))
   | failed message => exact .inl (recordFailedRun_state (.inl ⟨state,hs,hac⟩))
 · -- the state row is stored: a failure replaces it, and only a kill leaves it
   have hup:upsertRun w=(.error e₀,v):=
    (bind_eq_error hup).resolve_right fun ⟨_,_,_,hpu⟩=>nomatch hpu
   cases e₀ with
   | killed => exact .inr ⟨he rfl,root,others,begun,u,report,w,hr,hb,hc⟩
   | failed message =>
    exact .inl (recordFailedRun_state (.inr ((upsertRun_error hup).2.resolve_left nofun)))

theorem workspaceRootFor_stops {workspaceId : Int}
 (h:Stops (workspaceRootFor workspaceId) s t) : t=s := by
 simp only [workspaceRootFor,stops_bind,stops_readDb,false_or] at h
 obtain ⟨_,_,⟨rfl,rfl⟩,h⟩:=h
 split at h
 · split_ifs at h
   · exact absurd h stops_pure
   · exact (stops_fail.mp h).symm
 · exact (stops_fail.mp h).symm

theorem completePaths_stops {req : IndexPathsRequest} {Row : File → Prop} {I : Db → Prop}
 (h:Stops (completePaths env req) s t) (hI:WriteStable env Row I)
 (hma:MarksRows env Row (pathsRequestPlan env req s.db)
  (if req.expandDependents then touchedKeys env req s.db else [])) (hdb:I s.db) : I t.db := by
 simp only [completePaths,stops_bind,stops_readDb,false_or,yields_readDb,stops_pure,and_false,
  exists_false,or_false] at h
 rcases h with h|⟨root,_,hro,_,_,⟨rfl,rfl⟩,_,_,⟨rfl,rfl⟩,h⟩
 · rwa [workspaceRootFor_stops h]
 obtain ⟨hwo,rfl⟩:=workspaceRootFor_yields hro
 have hr:pathsPlan env (pathsRunRoots s.db.rootPathsById root) s.db.rootPathsById
  (touchedKeys env req s.db) s.db=pathsRequestPlan env req s.db := by
  simp [pathsRequestPlan,hwo]
 rw [←touchedKeys,hr] at h
 have keep:=hI.runPathsPlan (pathsRequestPlan_for env req s.db) hma
 rcases h with h|⟨st,t1,hru,_,_,⟨rfl,rfl⟩,h⟩
 · exact keep.stops hdb h
 · rw [stops_commit h]
   exact keep.yields hdb hru

end

/-- How a call ended: it returned Ok; it was refused a commit and returned Err, was killed before
one, or failed by itself; or it was killed after its last commit, before it returned. -/
inductive Ending where
 | returned
 | stopped (fault : Option (Nat × Stop)) (error : IndexError)
 | killedLate

def IndexCall.EndsIn (c : IndexCall) (db : Db) : Ending → Db → Prop
 | .returned,db' => ∃ report t,Yields c.run ⟨db,none⟩ report t ∧ t.db = db'
 | .stopped fault error,db' => ∃ t,c.run ⟨db,fault⟩ = (.error error,t) ∧ t.db = db'
 | .killedLate,db' => ∃ report t,Yields c.run ⟨db,none⟩ report t ∧ t.db = db'

/-- Histories of calls: the database they leave, whether a call since the last one
 that returned Ok stopped after a file write, and whether the last call returned
 Ok. A file write stamps a row with the id of its run, so it changes the tables. -/
inductive Watched (Cond : IndexCall → Db → Bool → Ending → Prop) : Db → Bool → Bool → Prop
 | empty : Watched Cond Db.empty false false
 | returned {db db' : Db} {broken ok : Bool} (c : IndexCall) (h : Watched Cond db broken ok)
  (hc : Cond c db false .returned) (he : c.EndsIn db .returned db') : Watched Cond db' false true
 | wrote {db db' : Db} {broken ok : Bool} (c : IndexCall) (e : Ending)
  (h : Watched Cond db broken ok) (hc : Cond c db true e) (hne : e≠.returned)
  (he : c.EndsIn db e db') (hw : ¬ db.SameTables db') : Watched Cond db' true false
 | quiet {db db' : Db} {broken ok : Bool} (c : IndexCall) (e : Ending)
  (h : Watched Cond db broken ok) (hc : Cond c db broken e) (hne : e≠.returned)
  (he : c.EndsIn db e db') (hw : db.SameTables db') : Watched Cond db' broken false

/-- An `index_paths` call that expands its dependents names no file that is deleted
 and still gone. -/
def NamesNoDeleted (env : Env) (req : IndexPathsRequest) (db : Db) : Prop :=
 req.expandDependents = true → ∀ key ∈ touchedKeys env req db,∀ f ∈ db.files.rows,
  fileKeyForFile f = key → f.deletedAtUnixMs = none ∨
   key ∈ (pathsRequestPlan env req db).candidates.map fileKeyForCandidate

/-- The calls whose bookkeeping `hydrate` can rely on. An `index_paths` call names no deleted file.
 Where the history is broken with the call, it is not killed behind the state row that calls its run
 completed; and if it is an `index_paths` call, it does not fail there either, nor begin under the
 state row of a completed run. -/
def Accountable (c : IndexCall) (db : Db) (broken : Bool) (e : Ending) : Prop :=
 (match c with
  | .workspace _ _ => True
  | .paths env req => NamesNoDeleted env req db) ∧
 (broken = true → match c,e with
  | _,.returned => True
  | _,.killedLate => False
  | .workspace _ _,.stopped fault error => error = .killed → ¬ c.Completes ⟨db,fault⟩
  | .paths _ _,.stopped fault _ => ¬ c.Completes ⟨db,fault⟩ ∧ ¬ db.RunCompleted)

section
variable {env : Env} {db db' : Db} {s t : Store} {c : IndexCall} {broken : Bool}

theorem NamesNoDeleted.marksRows {req : IndexPathsRequest} (hn:NamesNoDeleted env req db) :
 MarksRows env (fun file=>file.deletedAtUnixMs=none) (pathsRequestPlan env req db)
  (if req.expandDependents then touchedKeys env req db else []) := by
 rintro key file he (h|⟨hfo,hsc⟩) _ _
 · exact h
 split_ifs at hfo with hx
 · obtain ⟨hf,hk⟩:=((pathsRequestPlan_for env req db).existing key file).mp he
   exact (hn hx key hfo file hf hk).resolve_right hsc
 · cases hfo

theorem completePaths_deletionsMarked {req : IndexPathsRequest} {report : IndexReport}
 (h:Yields (completePaths env req) s report t) (hn:NamesNoDeleted env req s.db)
 (hdb:s.db.DeletionsMarked) : t.db.DeletionsMarked := by
 obtain ⟨st,t1,hr,ht1,-⟩:=completePaths_yields h
 have keep:=(deletionsMarked_stable env).runPathsPlan (pathsRequestPlan_for env req s.db)
  hn.marksRows
 exact (keep.yields hdb hr).of_files ht1.files

theorem indexPaths_stops {req : IndexPathsRequest} (h:Stops (indexPaths env req) s t) :
 Stops (completePaths env req) s t ∨
  ∃report u,Yields (completePaths env req) s report u ∧ t.db=u.db := by
 simp only [indexPaths,stops_bind,stops_pure,and_false,exists_false,or_false] at h
 obtain hst|⟨report,u,hc,hup⟩:=h
 · exact .inl hst
 · exact .inr ⟨report,u,hc,stops_commit hup⟩

/-- What `hydrate` relies on: deleted rows say so, and a write without a completed
 run is not followed by the record of one. -/
structure Db.Sound (db : Db) (broken : Bool) : Prop where
 deletions : db.DeletionsMarked
 broken : broken = true → ¬ db.RunCompleted

theorem IndexCall.returned_sound {report : IndexReport} {e : Ending}
 (h:Accountable c db broken e) (hdb:db.DeletionsMarked) (hr:Yields c.run ⟨db,none⟩ report t) :
 t.db.DeletionsMarked ∧ t.db.RunCompleted := by
 cases c with
 | workspace env req =>
  exact ⟨((deletionsMarked_stable env).indexWorkspace req).yields hdb hr,
   indexWorkspace_runCompleted hr⟩
 | paths env req =>
  obtain ⟨u,hc,hu⟩:=yields_indexPaths hr
  exact ⟨hu ▸ completePaths_deletionsMarked hc h.1 hdb,indexPaths_runCompleted hr⟩

theorem IndexCall.stopped_sound {fault : Option (Nat × Stop)} {error : IndexError}
 (h:Accountable c db broken (.stopped fault error)) (hdb:db.DeletionsMarked)
 (hr:c.run ⟨db,fault⟩=(.error error,t)) :
 t.db.DeletionsMarked ∧
  (broken=true → ¬db.SameTables t.db ∨ ¬db.RunCompleted → ¬t.db.RunCompleted) := by
 cases c with
 | workspace env req =>
  refine ⟨((deletionsMarked_stable env).indexWorkspace req).stops hdb ⟨error,hr⟩,fun hb hc=>?_⟩
  rcases indexWorkspace_stops hr with ⟨hta,hst⟩|hno|⟨hk,hco⟩
  · exact fun ht=>(hc.resolve_left fun hne=>hne hta) (ht.of_state hst.symm)
  · exact hno
  · exact (h.2 hb hk hco).elim
 | paths env req =>
  have hcond:broken=true → ¬(IndexCall.paths env req).Completes ⟨db,fault⟩ ∧ ¬db.RunCompleted:=h.2
  rcases indexPaths_stops ⟨error,hr⟩ with hst|⟨report,u,hc,hu⟩
  · have hsa:=completePaths_stops hst (state_stable env db.state) (fun _ _ _ _ _ _=>trivial) rfl
    have hmarks:=NamesNoDeleted.marksRows h.1
    exact ⟨completePaths_stops hst (deletionsMarked_stable env).toWriteStable hmarks hdb,
     fun hb _ ht=>(hcond hb).2 (ht.of_state hsa.symm)⟩
  · have hmarked:=completePaths_deletionsMarked hc h.1 hdb
    exact ⟨by rwa [hu],fun hb=>((hcond hb).1 ⟨report,u,hc⟩).elim⟩

theorem Db.Sound.stops {db' : Db} {after : Bool} {e : Ending} (h:db.Sound broken)
 (hc:Accountable c db after e) (hne:e≠.returned) (he:c.EndsIn db e db')
 (hw:after=true → ¬db.SameTables db' ∨ broken=true) : db'.Sound after := by
 cases e with
 | returned => exact absurd rfl hne
 | killedLate =>
  obtain ⟨report,t,hr,rfl⟩:=he
  exact ⟨(IndexCall.returned_sound hc h.deletions hr).1,fun ha=>(hc.2 ha).elim⟩
 | stopped fault error =>
  obtain ⟨t,hr,rfl⟩:=he
  obtain ⟨hd,hs⟩:=IndexCall.stopped_sound hc h.deletions hr
  exact ⟨hd,fun ha=>hs ha ((hw ha).imp_right h.broken)⟩

theorem Watched.sound {ok : Bool} (h:Watched Accountable db broken ok) :
 db.Sound broken ∧ (ok=true → db.RunCompleted) := by
 induction h with
 | empty => exact ⟨⟨fun f hf=>(nomatch hf),by simp⟩,by simp⟩
 | returned c h hc he ih =>
  obtain ⟨report,t,hr,rfl⟩:=he
  obtain ⟨hd,hr⟩:=IndexCall.returned_sound hc ih.1.deletions hr
  exact ⟨⟨hd,by simp⟩,fun _=>hr⟩
 | wrote c e h hc hne he hw ih => exact ⟨ih.1.stops hc hne he fun _=>.inl hw,by simp⟩
 | quiet c e h hc hne he hw ih => exact ⟨ih.1.stops hc hne he .inr,by simp⟩

end

section

def twoFilesParser : Parser :=
 .ofTable [("f",{ SourceSketch.blank with symbols := [("f",0,10)] }),
  ("g",{ SourceSketch.blank with symbols := [("g",0,10)] })] []

def twoFiles (content : String) (mtimeUnixMs : Int) (run : String) : Env :=
 { Env.plain twoFilesParser (.ofFiles ⟨[⟨["w","a.ts"],10,mtimeUnixMs,content,.readable⟩,
    ⟨["w","b.ts"],10,mtimeUnixMs,content,.readable⟩],by simp⟩) with
   runId := run
   runIdMarker := run }

def firstCall : IndexCall := .workspace (twoFiles "f" 1 "first") wholeWorkspace

def firstCalled : Db := (firstCall.run ⟨.empty,none⟩).2.db

theorem firstCall_returned : firstCall.EndsIn .empty .returned firstCalled := by
 obtain ⟨report,h⟩:=yields_of_succeeds
  (show succeeds firstCall.run ⟨.empty,none⟩=true by decide +kernel)
 exact ⟨report,_,h,rfl⟩

def halfWorkspace : IndexCall := .workspace (twoFiles "g" 2 "second") wholeWorkspace

def halfWorkspaceCalled : Db := (halfWorkspace.run ⟨firstCalled,some (5,.writeFails "full")⟩).2.db

def halfPaths : IndexCall :=
 .paths (twoFiles "g" 2 "second") ⟨1,[.relative ["a.ts"],.relative ["b.ts"]],false⟩

def halfPathsCalled : Db := (halfPaths.run ⟨firstCalled,some (1,.killed)⟩).2.db

end

end DhKit.Indexer
