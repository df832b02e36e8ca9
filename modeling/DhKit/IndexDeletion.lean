import DhKit.IndexRowConsistency

/-!
# Which rows a run deletes

A run deletes every live row whose key it did not scan, so its deletions are
those of vanished files exactly when the scan covers all live rows.
-/
namespace DhKit.Indexer
open KeyedTables CommitRules List

variable {disk : Disk} {roots : List (RootId × Path)} {c : FileCandidate}

theorem mem_scanRoots :
 c∈scanRoots disk roots ↔ ∃r∈roots,c∈scanWorkspace disk r.2 r.1 :=
 mem_flatMap

def Disk.Holds (disk : Disk) (root : Path) (relPath : RelPath) : Prop :=
 ∃ e ∈ disk.entries.rows,(Disk.stripRoot root e.absPath).map normalizeRelPath = some relPath

instance (disk : Disk) (root : Path) (relPath : RelPath) : Decidable (disk.Holds root relPath) :=
 inferInstanceAs (Decidable (∃ e ∈ disk.entries.rows,_))

theorem candidateOfEntry_eq_some {root : Path} {rootId : RootId} {e : DiskEntry}
 (h:candidateOfEntry disk root rootId e=some c) :
 c.rootId=rootId ∧ c.absPath=e.absPath ∧ c.sizeBytes=e.sizeBytes ∧
  c.mtimeUnixMs=e.mtimeUnixMs ∧
  (Disk.stripRoot root e.absPath).map normalizeRelPath=some c.relPath := by
 unfold candidateOfEntry at h
 split at h
 · cases h
 · next rel hr =>
   split_ifs at h
   simp only [Option.map_eq_some_iff] at h
   obtain ⟨language,-,rfl⟩:=h
   exact ⟨rfl,rfl,rfl,rfl,by rw [hr]; rfl⟩

theorem holds_of_mem_scanRoots (h:c∈scanRoots disk roots) :
 ∃r∈roots,r.1=c.rootId ∧ disk.Holds r.2 c.relPath := by
 obtain ⟨r,hr,hc⟩:=mem_scanRoots.mp h
 obtain ⟨e,he,hc⟩:=mem_scanWorkspace.mp hc
 obtain ⟨hid,-,-,-,hre⟩:=candidateOfEntry_eq_some hc
 exact ⟨r,hr,hid.symm,e,he,hre⟩

theorem mem_of_mem_truncateCandidates {maxFiles : Option Nat} {candidates : List FileCandidate}
 (h:c∈truncateCandidates maxFiles candidates) : c∈candidates := by
 cases maxFiles with
 | none => exact h
 | some n => exact mem_of_mem_take h

section
variable (env : Env) (req : IndexWorkspaceRequest) (db : Db)

def requestScan : List FileCandidate := scanRoots env.disk (requestAssignments env req db)

def RootRequested (rootId : RootId) : Prop := ∃ r ∈ requestAssignments env req db,r.1 = rootId

def Vanished (file : File) : Prop :=
 RootRequested env req db file.rootId ∧ ∀ r ∈ requestAssignments env req db,
  r.1 = file.rootId → ¬ env.disk.Holds r.2 file.relPath

/-- The file of a row was scanned and left out by `max_files`. -/
def BeyondCut (file : File) : Prop :=
 fileKeyForFile file ∈ (requestScan env req db).map fileKeyForCandidate ∧
  fileKeyForFile file ∉ (requestPlan env req db).candidates.map fileKeyForCandidate

end

def Db.Deleted (db : Db) (key : FileKey) : Prop :=
 ∃ f ∈ db.files.rows,fileKeyForFile f = key ∧ f.deletedAtUnixMs≠none

structure Db.KeepsFactsOf (db db' : Db) (id : FileId) : Prop where
 symbols : db'.findSymbolsByFile id = db.findSymbolsByFile id
 chunks : db'.findChunksByFile id = db.findChunksByFile id
 edges : db'.findEdgesByFile id = db.findEdgesByFile id

/-- Of the rows that were live before a run, it deletes vanished files only, and
 keeps the facts of other roots and of files beyond the cut. -/
structure OnlyVanishedDeleted (env : Env) (req : IndexWorkspaceRequest) (db db' : Db) : Prop where
 deleted : ∀ f ∈ db.files.rows,f.deletedAtUnixMs = none → db'.Deleted (fileKeyForFile f) →
  Vanished env req db f
 kept : ∀ f ∈ db.files.rows,f.deletedAtUnixMs = none →
  ¬ RootRequested env req db f.rootId ∨ BeyondCut env req db f →
   db.KeepsFactsOf db' (fileKeyForFile f)

section
variable {env : Env} {plan : RunPlan} {db db' : Db} {key : FileKey}
 {files : Table FileId File fileKeyForFile} {file : File}

theorem notDeleted_upsert (hl:file.deletedAtUnixMs=none ∨ fileKeyForFile file≠key)
 (h:∀f∈files.rows,fileKeyForFile f=key → f.deletedAtUnixMs=none) :
 ∀f∈(files.upsert file).rows,fileKeyForFile f=key → f.deletedAtUnixMs=none := by
 intro f hf hk
 rcases Table.mem_upsert.mp hf with rfl|⟨hf,-⟩
 · exact hl.resolve_right (fun hne=>hne hk)
 · exact h f hf hk

section
variable (hplan : plan.For env db) (hc : key ∈ plan.candidates.map fileKeyForCandidate)
 {x y : RunState × Db}
include hplan hc

theorem Db.NotDeleted.step (hst:PlanStep env plan (ForcedMarks plan []) x y)
 (h:x.2.NotDeleted key) : y.2.NotDeleted key := by
 unfold Db.NotDeleted at h ⊢
 cases hst with
 | planned p _ hw =>
  rw [hw.files]
  exact notDeleted_upsert (.inl (processOutcome_deletedAt ..)) h
 | hashFailed c _ hw =>
  obtain ⟨message,existing,-,-,hw⟩:=hw
  rw [hw.files]
  exact notDeleted_upsert (.inl rfl) h
 | notCurrent key' file message reason he hm hw =>
  have hl:file.deletedAtUnixMs=none:=by simpa [ForcedMarks] using hm
  rw [hw.files]
  exact notDeleted_upsert (.inl hl) h
 | counted => exact h
 | deleted key' file he hd =>
  refine notDeleted_upsert (.inr fun hk=>?_) h
  obtain ⟨_,-,-,-,hn⟩:=(hplan.toDelete key').mp hd
  have hke:fileKeyForFile file=key':=((hplan.existing key' file).mp he).2
  exact hn (hke ▸ hk ▸ hc)
 | retained hr =>
  intro f hf hk
  obtain ⟨g,hg,rfl⟩:=(hr.files f).mp hf
  split_ifs at hk ⊢ with hs
  · exact h g hg hk
  · exact h g hg hk

theorem Db.NotDeleted.steps (hst:PlanSteps env plan (ForcedMarks plan []) x y)
 (h:x.2.NotDeleted key) :
 y.2.NotDeleted key := by
 induction hst with
 | refl => exact h
 | tail _ hste ih => exact ih.step hplan hc hste

end

theorem Db.Deleted.upsert (hfi:file.deletedAtUnixMs≠none) (h:fileKeyForFile file=key ∨
  ∃f∈files.rows,fileKeyForFile f=key ∧ f.deletedAtUnixMs≠none) :
 ∃f∈(files.upsert file).rows,fileKeyForFile f=key ∧ f.deletedAtUnixMs≠none := by
 by_cases hk : fileKeyForFile file=key
 · exact ⟨file,Table.mem_upsert_self files file,hk,hfi⟩
 · obtain ⟨f,hf,hfk,hd⟩:=h.resolve_left hk
   exact ⟨f,Table.mem_upsert.mpr (.inr ⟨hf,fun he=>hk (he ▸ hfk)⟩),hfk,hd⟩

theorem settleRun_deleted (hplan:plan.For env db) {st st' : RunState} {s t : Store}
 (h:Yields (settleRun env plan st) s st' t) (hd:key∈plan.dirty.toDelete) :
 t.db.Deleted key := by
 simp only [settleRun,yields_bind] at h
 obtain ⟨st1,s1,hde,counters,s2,hr,rfl,rfl⟩:=h
 have h1:s1.db.Deleted key:=by
  have ho:∀id∈plan.dirty.toDelete,∀st1 u st2 v,
   Yields (deleteFile env plan st1 id) u st2 v → id=key ∨ u.db.Deleted key →
   v.db.Deleted key := by
   intro id hid st1 u st2 v hst hI
   obtain ⟨f,hf,hk,-,-⟩:=(hplan.toDelete id).mp hid
   have he:plan.existing.get id=some f:=(hplan.existing id f).mpr ⟨hf,hk⟩
   rcases deleteFile_yields hst with ⟨hn,-⟩|⟨file,he',-,hv⟩
   · rw [he] at hn
     cases hn
   rw [he] at he'
   cases he'
   unfold Db.Deleted
   rw [hv,Db.markDeletedFile_files]
   exact Db.Deleted.upsert (by simp [Db.deletedRow]) (hI.imp_left hk.trans)
  exact foldlM_reaches _ (fun _ u=>u.db.Deleted key) hd
   (fun st1 u st2 v hst=>ho key hd st1 u st2 v hst (.inl rfl))
   (fun id hid st1 u st2 v hI hst=>ho id hid st1 u st2 v hst (.inr hI)) hde
 obtain ⟨f,hf,hk,hfd⟩:=h1
 have hsk:skipsRetention st1.indexed f=true:=by
  simp [skipsRetention,Option.isSome_iff_ne_none,hfd]
 exact ⟨f,((refreshUnchangedFiles_retained hr).files f).mpr ⟨f,hf,by simp [hsk]⟩,hk,hfd⟩

end

variable {req : IndexWorkspaceRequest}

theorem indexWorkspace_deleted_iff {env : Env} {db db' : Db}
 (h:(Call.indexWorkspace env req).Returns db db') {f : File} (hf:f∈db.files.rows)
 (hl:f.deletedAtUnixMs=none) :
 db'.Deleted (fileKeyForFile f) ↔
  fileKeyForFile f ∉ (requestPlan env req db).candidates.map fileKeyForCandidate := by
 obtain ⟨report,t,h,rfl⟩:=h
 obtain ⟨-,s1,st,t1,hs1,hr,ht1,-⟩:=indexWorkspace_yields h
 obtain ⟨mid,hset,hre⟩:=runWorkspacePlan_yields hr
 have hplan:=requestPlan_for env req db
 have hfi:t.db.files=mid.db.files:=ht1.files.trans (relinkRun_sameFacts hre).files
 constructor
 · rintro ⟨g,hg,hk,hd⟩ hc
   have hst:s1.db.NotDeleted (fileKeyForFile f):=by
    intro g hg hk
    rw [hs1.files] at hg
    rw [db.files.row_unique hg hf hk]
    exact hl
   rw [hfi] at hg
   exact hd (Db.NotDeleted.steps hplan hc (settledWorkspace_steps hplan hset) hst g hg hk)
 · intro hc
   simp only [settledWorkspace,yields_bind] at hset
   obtain ⟨_,_,-,_,_,-,_,_,-,hse⟩:=hset
   have hd:=settleRun_deleted hplan hse ((hplan.toDelete _).mpr ⟨f,hf,rfl,hl,hc⟩)
   unfold Db.Deleted at hd ⊢
   rwa [hfi]

/-- A run deletes vanished files only exactly when every live row was scanned or
 belongs to a vanished file. -/
theorem onlyVanishedDeleted_iff {env : Env} {req : IndexWorkspaceRequest} {db db' : Db}
 (h : (Call.indexWorkspace env req).Returns db db') :
 OnlyVanishedDeleted env req db db' ↔ ∀ f ∈ db.files.rows,f.deletedAtUnixMs = none →
  fileKeyForFile f ∈ (requestPlan env req db).candidates.map fileKeyForCandidate ∨
   Vanished env req db f := by
 constructor
 · intro ho f hf hl
   by_cases hc : fileKeyForFile f∈(requestPlan env req db).candidates.map fileKeyForCandidate
   · exact .inl hc
   · exact .inr (ho.deleted f hf hl ((indexWorkspace_deleted_iff h hf hl).mpr hc))
 intro hco
 refine ⟨fun f hf hl hd=>?_,fun f hf hl hou=>?_⟩
 · exact (hco f hf hl).resolve_left ((indexWorkspace_deleted_iff h hf hl).mp hd)
 · -- a covered row is neither of another root nor beyond the cut
   have held:∀ {c},c∈requestScan env req db → fileKeyForCandidate c=fileKeyForFile f →
    RootRequested env req db f.rootId ∧ ¬Vanished env req db f := by
    intro c hc hk
    obtain ⟨r,hr,hid,hh⟩:=holds_of_mem_scanRoots hc
    simp only [fileKeyForCandidate,fileKeyForFile,FileKey.mk.injEq] at hk
    rw [hk.1] at hid
    rw [hk.2] at hh
    exact ⟨⟨r,hr,hid⟩,fun hv=>hv.2 r hr hid hh⟩
   rcases hco f hf hl with hc|hv
   · obtain ⟨c,hc,hk⟩:=mem_map.mp hc
     rcases hou with hro|hcu
     · exact absurd (held (mem_of_mem_truncateCandidates hc) hk).1 hro
     · exact absurd (mem_map.mpr ⟨c,hc,hk⟩) hcu.2
   · rcases hou with hro|hcu
     · exact absurd hv.1 hro
     · obtain ⟨c,hc,hk⟩:=mem_map.mp hcu.1
       exact absurd hv (held hc hk).2

section

def otherFile : DiskEntry := ⟨["v","b.ts"],10,1,"f",.readable⟩

def bothFiles : Env :=
 .plain oneFileParser (.ofFiles ⟨[oneFile,otherFile],by simp [oneFile,otherFile]⟩)

def bothRoots : IndexWorkspaceRequest := ⟨[["w"],["v"]],false,none⟩

def bothIndexed : Db := (Call.indexWorkspace bothFiles bothRoots).result .empty

def oneReindexed : Db := (Call.indexWorkspace bothFiles wholeWorkspace).result bothIndexed

/-- After the file is removed, the next run deletes its row. -/
theorem onlyVanishedDeleted_removed :
 OnlyVanishedDeleted withoutFile wholeWorkspace firstIndexed
  ((Call.indexWorkspace withoutFile wholeWorkspace).result firstIndexed) ∧
 ((Call.indexWorkspace withoutFile wholeWorkspace).result firstIndexed).Deleted
  ⟨1,normalizeRelPath ["a.ts"]⟩ := by
 refine ⟨(onlyVanishedDeleted_iff (Call.returns_result (by decide +kernel))).mpr ?_,?_⟩
 · simp only [Vanished,RootRequested]
   decide +kernel
 · unfold Db.Deleted
   decide +kernel

/-- A run over the first root alone deletes the row of the second, whose file still
 exists. -/
theorem indexWorkspace_deletes_other_root :
 (Call.indexWorkspace bothFiles bothRoots).Returns .empty bothIndexed ∧
 (Call.indexWorkspace bothFiles wholeWorkspace).Returns bothIndexed oneReindexed ∧
 ¬ OnlyVanishedDeleted bothFiles wholeWorkspace bothIndexed oneReindexed := by
 refine ⟨Call.returns_result (by decide +kernel),Call.returns_result (by decide +kernel),
  fun h=>?_⟩
 have hrow:∃f∈bothIndexed.files.rows,f.deletedAtUnixMs=none ∧
  (∃g∈oneReindexed.files.rows,fileKeyForFile g=fileKeyForFile f ∧
   g.deletedAtUnixMs≠none) ∧
  ∀r∈requestAssignments bothFiles wholeWorkspace bothIndexed,r.1≠f.rootId := by
  decide +kernel
 obtain ⟨f,hf,hl,hd,hro⟩:=hrow
 obtain ⟨⟨r,hr,hid⟩,-⟩:=h.deleted f hf hl hd
 exact hro r hr hid

end

end DhKit.Indexer
