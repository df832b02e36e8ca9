import DhKit.IndexRunSteps

/-!
# Plans and whole runs

What a plan promises about its database, and the inversion of a call into its plan and writes.
-/
namespace DhKit.Indexer
open KeyedTables CommitRules List

section
variable {blake3 : Blake3} {disk : Disk} {candidates : List FileCandidate}
 {existingFiles : List File} {forceFull : Bool} {touched : List FileKey} {key : FileKey}

/-- Why the hash table of a run holds what it holds. -/
structure HashEntriesFrom (blake3 : Blake3) (disk : Disk) (hashed : FileCandidate → Bool)
 (candidates : List FileCandidate) (result : HashCandidatesResult) : Prop where
 hash_of : ∀ key hash,result.hashes.get key = some hash → ∃ c ∈ candidates,
  fileKeyForCandidate c = key ∧ hashed c = true ∧
   ∃ content,disk.readFile c.absPath = .ok content ∧ hash = blake3.hex content
 failure_of : ∀ key message,result.hashFailures.get key = some message → ∃ c ∈ candidates,
  fileKeyForCandidate c = key ∧ ∃ err,message = hashReadMessage c err ∧
   if hashed c then disk.readFile c.absPath = .error err
   else disk.openFile c.absPath = .error err

section
variable {hashed : FileCandidate → Bool} {l : List FileCandidate} {result : HashCandidatesResult}
 {c : FileCandidate} (h : HashEntriesFrom blake3 disk hashed l result) (hc : c ∈ l)
include h hc

theorem HashEntriesFrom.fail {err : String} (he:if hashed c then
  disk.readFile c.absPath = .error err else disk.openFile c.absPath = .error err) :
 HashEntriesFrom blake3 disk hashed l { result with
  hashFailures := result.hashFailures.upsert (fileKeyForCandidate c,hashReadMessage c err) } := by
 refine ⟨h.hash_of,fun key message hk=>?_⟩
 simp only [HashMap.get_upsert] at hk
 split_ifs at hk with heq
 · cases hk
   exact ⟨c,hc,heq.symm,err,rfl,he⟩
 · exact h.failure_of key message hk

theorem HashEntriesFrom.hashCandidate :
 HashEntriesFrom blake3 disk hashed l (hashCandidate blake3 disk (hashed c) result c) := by
 unfold Indexer.hashCandidate
 split_ifs with hh
 · cases hr : disk.readFile c.absPath with
   | ok content =>
    refine ⟨fun key hash hk=>?_,h.failure_of⟩
    simp only [HashMap.get_upsert] at hk
    split_ifs at hk with he
    · cases hk
      exact ⟨c,hc,he.symm,hh,content,hr,rfl⟩
    · exact h.hash_of key hash hk
   | error err => exact h.fail hc (by simp [hh,hr])
 · cases ho : disk.openFile c.absPath with
   | ok _ => exact h
   | error err => exact h.fail hc (by simp [hh,ho])

end

theorem hashIncrementalCandidates_entries :
 HashEntriesFrom blake3 disk (shouldHash (existingByKey existingFiles) forceFull touched)
  candidates
  (hashIncrementalCandidates blake3 disk candidates existingFiles forceFull touched) := by
 unfold hashIncrementalCandidates
 suffices H : ∀ (l : List FileCandidate) (result : HashCandidatesResult),
  (∀c∈l,c∈candidates) →
  HashEntriesFrom blake3 disk (shouldHash (existingByKey existingFiles) forceFull touched)
   candidates result →
  HashEntriesFrom blake3 disk (shouldHash (existingByKey existingFiles) forceFull touched)
   candidates (l.foldl (fun result c=>hashCandidate blake3 disk
    (shouldHash (existingByKey existingFiles) forceFull touched c) result c) result) from
  H candidates _ (fun _ hc=>hc) ⟨by simp,by simp⟩
 intro l
 induction l with
 | nil => exact fun _ _ h=>h
 | cons c l ih =>
  intro result hl h
  exact ih _ (fun d hd=>hl d (mem_cons_of_mem _ hd))
   (h.hashCandidate (hl c mem_cons_self))

end

variable {scanned : List FileCandidate} {files : List File}
 {db db' : Db} {p : PlannedFile} {env : Env} {s t : Store} {report : IndexReport} {root : Path}

theorem mem_unscannedRows {file : File} :
 file∈unscannedRows scanned files ↔ file∈files ∧ file.deletedAtUnixMs=none ∧
  fileKeyForFile file ∉ scanned.map fileKeyForCandidate := by
 simp [unscannedRows]

/-- What a plan promises about the database it was made for. -/
structure RunPlan.For (plan : RunPlan) (env : Env) (db : Db) : Prop where
 existing : ∀ key file,plan.existing.get key = some file ↔
  file ∈ db.files.rows ∧ fileKeyForFile file = key
 toIndex : ∀ p ∈ plan.dirty.toIndex,p.candidate ∈ plan.candidates
 toDelete : ∀ key,key ∈ plan.dirty.toDelete ↔ ∃ f ∈ db.files.rows,fileKeyForFile f = key ∧
  f.deletedAtUnixMs = none ∧ key ∉ plan.candidates.map fileKeyForCandidate
 snapshot : ∀ snapshot ∈ plan.snapshot,snapshot = plan.roots.snapshotOf env.disk db
 failures : ∀ key message,plan.hashed.hashFailures.get key = some message →
  ∃ c ∈ plan.candidates,fileKeyForCandidate c = key

theorem existing_listFiles (db : Db) (key : FileKey) (file : File) :
 (existingByKey db.listFilesByWorkspace).get key=some file ↔
  file∈db.files.rows ∧ fileKeyForFile file=key := by
 rw [existingByKey_get db.nodup_keys_listFilesByWorkspace,Db.mem_listFilesByWorkspace]

variable {order : List FileKey → List FileKey}

theorem mem_order_unscanned (hp:∀keys,(order keys).Perm keys) {candidates : List FileCandidate}
 {key : FileKey} :
 key∈order ((unscannedRows candidates db.listFilesByWorkspace).map fileKeyForFile) ↔
  ∃f∈db.files.rows,fileKeyForFile f=key ∧ f.deletedAtUnixMs=none ∧
   key ∉ candidates.map fileKeyForCandidate := by
 rw [(hp _).mem_iff,mem_map]
 constructor
 · rintro ⟨f,hf,rfl⟩
   obtain ⟨hf,hd,hs⟩:=mem_unscannedRows.mp hf
   exact ⟨f,Db.mem_listFilesByWorkspace.mp hf,rfl,hd,hs⟩
 · rintro ⟨f,hf,rfl,hd,hs⟩
   exact ⟨f,mem_unscannedRows.mpr ⟨Db.mem_listFilesByWorkspace.mpr hf,hd,hs⟩,rfl⟩

theorem mem_buildDirtySet_toIndex {hashes : HashMap FileKey String}
 {forceFull : Bool} {touched : List FileKey} :
 p∈(buildDirtySet order scanned hashes files forceFull touched).toIndex ↔
  p.candidate∈scanned ∧ ∃hash,hashes.get p.key=some hash ∧
   planCandidate p.candidate ((existingByKey files).get p.key) hash forceFull
    (decide (p.key∈touched))=some p.level := by
 simp only [buildDirtySet,(perm_insertionSort _ _).mem_iff,mem_filterMap,Option.bind_eq_some_iff,
  Option.map_eq_some_iff]
 constructor
 · rintro ⟨c,hc,hash,hh,level,hl,rfl⟩
   exact ⟨hc,hash,hh,hl⟩
 · rintro ⟨hc,hash,hh,hl⟩
   exact ⟨p.candidate,hc,hash,hh,p.level,hl,rfl⟩

theorem mem_buildMetadataOnlyDirtySet_toIndex :
 p∈(buildMetadataOnlyDirtySet order scanned files).toIndex ↔
  p.candidate∈scanned ∧ p.level = .contentOnly ∧ ∃file,
   (existingByKey files).get p.key=some file ∧ metadataChanged file p.candidate := by
 simp only [buildMetadataOnlyDirtySet,mem_filterMap,Option.bind_eq_some_iff,
  Option.ite_none_right_eq_some,Option.some.injEq]
 constructor
 · rintro ⟨c,hc,file,hf,hm,rfl⟩
   exact ⟨hc,rfl,file,hf,hm⟩
 · rintro ⟨hc,hl,file,hf,hm⟩
   refine ⟨p.candidate,hc,file,hf,hm,?_⟩
   cases p
   cases hl
   rfl

variable (env : Env) (req : IndexWorkspaceRequest)

theorem workspacePlan_for (roots : RunRoots) (assignments : List (RootId × Path)) (db : Db) :
 (workspacePlan env req roots assignments db).For env db where
 existing := existing_listFiles db
 toIndex := by
  intro p hp
  simp only [workspacePlan,workspaceDirtySet] at hp
  split_ifs at hp
  · exact (mem_buildMetadataOnlyDirtySet_toIndex.mp hp).1
  · exact (mem_buildDirtySet_toIndex.mp hp).1
 toDelete := by
  intro key
  simp only [workspacePlan,workspaceDirtySet]
  split_ifs
  · exact mem_order_unscanned (env.order_perm .toDelete)
  · exact mem_order_unscanned (env.order_perm .toDelete)
 snapshot := by
  intro snapshot hs
  simp only [workspacePlan] at hs
  split_ifs at hs
  · exact (Option.mem_some_iff.mp hs).symm
  · cases hs
 failures := by
  intro key message hm
  obtain ⟨c,hc,hk,-⟩:=hashIncrementalCandidates_entries.failure_of key message hm
  exact ⟨c,hc,hk⟩

theorem pathsPlan_for (roots : RunRoots) (rootPaths : List (RootId × Path))
 (touched : List FileKey) (db : Db) :
 (pathsPlan env roots rootPaths touched db).For env db where
 existing := existing_listFiles db
 toIndex := fun p hp=>(mem_buildDirtySet_toIndex.mp hp).1
 toDelete := fun key=>mem_order_unscanned (env.order_perm .toDelete)
 snapshot := by
  intro snapshot hs
  simp only [pathsPlan] at hs
  split_ifs at hs
  · exact (Option.mem_some_iff.mp hs).symm
  · cases hs
 failures := by
  intro key message hm
  obtain ⟨c,hc,hk,-⟩:=hashIncrementalCandidates_entries.failure_of key message hm
  exact ⟨c,hc,hk⟩

def requestRoots (disk : Disk) (req : IndexWorkspaceRequest) : List Path :=
 match canonicalizeRoots disk req.roots with
 | .ok roots => roots
 | .error _ => []

def requestAssignments (db : Db) :
 List (RootId × Path) :=
 assignWorkspaceRootIds db.rootPathsById (requestRoots env.disk req)

def requestPlan (db : Db) : RunPlan :=
 workspacePlan env req
  (workspaceRunRoots (requestAssignments env req db) ((requestRoots env.disk req).headD [])
   (requestRoots env.disk req))
  (requestAssignments env req db) db

theorem requestPlan_for (db : Db) :
 (requestPlan env req db).For env db := workspacePlan_for ..

theorem Db.SameTables.listFiles (h:db.SameTables db') :
 db'.listFilesByWorkspace=db.listFilesByWorkspace := by
 unfold Db.listFilesByWorkspace
 rw [h.files]

theorem Db.SameTables.snapshotOf (h:db.SameTables db') (roots : RunRoots)
 (disk : Disk) : roots.snapshotOf disk db'=roots.snapshotOf disk db := by
 unfold RunRoots.snapshotOf Db.findSymbolsByWorkspace
 rw [h.listFiles,h.symbols]

theorem Db.SameTables.workspacePlan (h:db.SameTables db') (env : Env)
 (req : IndexWorkspaceRequest) (roots : RunRoots) (assignments : List (RootId × Path)) :
 workspacePlan env req roots assignments db'=workspacePlan env req roots assignments db := by
 unfold Indexer.workspacePlan
 rw [h.listFiles,h.snapshotOf]

theorem indexWorkspace_yields {env : Env} {req : IndexWorkspaceRequest}
 (h:Yields (indexWorkspace env req) s report t) :
 requestRoots env.disk req≠[] ∧ ∃s1 st t1,s.db.SameTables s1.db ∧
  Yields (runWorkspacePlan env (requestPlan env req s.db)) s1 st t1 ∧
  t1.db.SameTables t.db ∧ report=reportOf (requestPlan env req s.db) st := by
 unfold indexWorkspace at h
 split at h
 · simp at h
 · simp at h
 next workspaceRoot others hr =>
 have hro:requestRoots env.disk req=workspaceRoot::others:=by
  simp [requestRoots,hr]
 refine ⟨by simp [hro],?_⟩
 simp only [yields_bind,yields_readDb,yields_onError,beginWorkspace,runWorkspaceBody,
  completeWorkspace,yields_pure] at h
 obtain ⟨_,_,⟨assignments,_,⟨rfl,rfl⟩,_,s1,hen,stored,_,⟨rfl,rfl⟩,_,s2,hs2,rfl,rfl⟩,_,_,
  ⟨plan,_,⟨rfl,rfl⟩,_,s3,hs3,_,s4,hs4,st,t1,hru,_,t2,ht2,rfl,rfl⟩,_,t3,ht3,rfl,rfl⟩ := h
 have same1:s.db.SameTables s1.db:=
  foldlM_invariant _ (fun _ u=>s.db.SameTables u.db) _
   (fun _ _ _ _ _ _ hI hst=>hI.trans (ensureWorkspaceAndRoot_ok (yields_commit hst)))
   (.refl _) hen
 have same2:=same1.trans (saveState_yields hs2)
 have hp:workspacePlan env req (workspaceRunRoots
  (assignWorkspaceRootIds s.db.rootPathsById (workspaceRoot::others)) workspaceRoot
  (workspaceRoot::others))
  (assignWorkspaceRootIds s.db.rootPathsById (workspaceRoot::others)) s2.db =
  requestPlan env req s.db := by
  rw [same2.workspacePlan]
  simp [requestPlan,requestAssignments,hro]
 rw [hp] at hru ⊢
 exact ⟨s4,st,t1,(same2.trans (saveState_yields hs3)).trans (saveState_yields hs4),hru,
  upsertRun_yields ht3 ▸ saveState_yields ht2,rfl⟩

section
variable (req : IndexPathsRequest) (db : Db)

def touchedKeys : List FileKey :=
 resolveTouchedFileKeys env.disk db.rootPathsById req.paths

def pathsRequestPlan : RunPlan :=
 pathsPlan env (pathsRunRoots db.rootPathsById (db.workspaceRoot.getD [])) db.rootPathsById
  (touchedKeys env req db) db

theorem pathsRequestPlan_for :
 (pathsRequestPlan env req db).For env db := pathsPlan_for ..

end

theorem workspaceRootFor_yields {workspaceId : Int}
 (h:Yields (workspaceRootFor workspaceId) s root t) :
 s.db.workspaceRoot=some root ∧ s=t := by
 simp only [workspaceRootFor,yields_bind] at h
 obtain ⟨_,_,⟨rfl,rfl⟩,h⟩:=h
 split at h
 · next path hp =>
   split_ifs at h
   · simp only [yields_pure] at h
     exact ⟨h.1 ▸ hp,h.2⟩
   · simp at h
 · simp at h

theorem completePaths_yields {env : Env} {req : IndexPathsRequest}
 (h:Yields (completePaths env req) s report t) :
 ∃st t1,Yields (runPathsPlan env (pathsRequestPlan env req s.db) (touchedKeys env req s.db)
  req.expandDependents) s st t1 ∧
  t1.db.SameTables t.db ∧ report=reportOf (pathsRequestPlan env req s.db) st := by
 simp only [completePaths,yields_bind] at h
 obtain ⟨root,_,hr,rootPaths,_,⟨rfl,rfl⟩,plan,_,⟨rfl,rfl⟩,st,t1,hru,_,_,
  ⟨rfl,rfl⟩,_,t2,hsa,rfl,rfl⟩ := h
 obtain ⟨hwo,rfl⟩:=workspaceRootFor_yields hr
 have hp:pathsRequestPlan env req s.db=pathsPlan env
  (pathsRunRoots s.db.rootPathsById root) s.db.rootPathsById (touchedKeys env req s.db) s.db := by
  simp [pathsRequestPlan,hwo]
 rw [hp]
 exact ⟨st,t1,hru,saveState_yields hsa,rfl⟩

theorem yields_indexPaths {env : Env} {req : IndexPathsRequest}
 (h:Yields (indexPaths env req) s report t) :
 ∃u,Yields (completePaths env req) s report u ∧ t.db=u.db := by
 simp only [indexPaths,yields_bind] at h
 obtain ⟨_,u,hc,_,_,hup,rfl,rfl⟩:=h
 exact ⟨u,hc,upsertRun_yields hup⟩

theorem invalidatePath_yields {env : Env} {rootPaths : List (RootId × Path)} {path : RequestPath}
 {u : Unit}
 (h:Yields (invalidatePath env root rootPaths path) s u t) :
 t=s ∨ ∃key file,invalidatedFileKey env.disk root rootPaths path=some key ∧
  file∈s.db.files.rows ∧ fileKeyForFile file=key ∧
  s.db.Written t.db (invalidatedRow env file) [] [] [] true := by
 unfold invalidatePath at h
 split at h
 · simp only [yields_pure] at h
   exact .inl h.2.symm
 · next key hk =>
   simp only [yields_bind] at h
   obtain ⟨_,_,⟨rfl,rfl⟩,h⟩:=h
   split at h
   · simp only [yields_pure] at h
     exact .inl h.2.symm
   · next file hf =>
     obtain ⟨hf,hke⟩:=(Table.find_eq_some _).mp hf
     exact .inr ⟨key,file,hk,hf,hke,Db.writeFileAtomically_ok (yields_commit h)⟩

inductive Call where
 | indexWorkspace (env : Env) (req : IndexWorkspaceRequest)
 | indexPaths (env : Env) (req : IndexPathsRequest)
 | invalidatePaths (env : Env) (workspaceId : Int) (paths : List RequestPath)

def Call.Returns : Call → Db → Db → Prop
 | indexWorkspace env req,db,db' =>
  ∃ report t,Yields (Indexer.indexWorkspace env req) ⟨db,none⟩ report t ∧ t.db = db'
 | indexPaths env req,db,db' =>
  ∃ report t,Yields (Indexer.indexPaths env req) ⟨db,none⟩ report t ∧ t.db = db'
 | invalidatePaths env workspaceId paths,db,db' =>
  ∃ u t,Yields (Indexer.invalidatePaths env workspaceId paths) ⟨db,none⟩ u t ∧ t.db = db'

def Call.result : Call → Db → Db
 | indexWorkspace env req,db => (Indexer.indexWorkspace env req ⟨db,none⟩).2.db
 | indexPaths env req,db => (Indexer.indexPaths env req ⟨db,none⟩).2.db
 | invalidatePaths env workspaceId paths,db =>
  (Indexer.invalidatePaths env workspaceId paths ⟨db,none⟩).2.db

def Call.succeeds : Call → Db → Bool
 | indexWorkspace env req,db => CommitRules.succeeds (Indexer.indexWorkspace env req) ⟨db,none⟩
 | indexPaths env req,db => CommitRules.succeeds (Indexer.indexPaths env req) ⟨db,none⟩
 | invalidatePaths env workspaceId paths,db =>
  CommitRules.succeeds (Indexer.invalidatePaths env workspaceId paths) ⟨db,none⟩

theorem Call.returns_result {c : Call} (h:c.succeeds db=true) :
 c.Returns db (c.result db) := by
 cases c with
 | indexWorkspace env req | indexPaths env req =>
  obtain ⟨report,hr⟩:=yields_of_succeeds h
  exact ⟨report,_,hr,rfl⟩
 | invalidatePaths env workspaceId paths =>
  obtain ⟨u,hr⟩:=yields_of_succeeds h
  exact ⟨u,_,hr,rfl⟩

/-- The databases that calls which all return Ok reach from an empty one, each call
 made in a database that meets the condition for it. -/
inductive Reachable (Cond : Call → Db → Prop) : Db → Prop
 | empty : Reachable Cond Db.empty
 | call {db db' : Db} (c : Call) (hdb : Reachable Cond db) (hc : Cond c db)
  (h : c.Returns db db') : Reachable Cond db'

end DhKit.Indexer
