import DhKit.IndexRunPhases

/-!
# File rows agree with the facts stored for them

A row is marked deleted exactly when it holds a deletion time, its counts are the
numbers of its symbols and chunks, and a deleted or not current row has none.
-/
namespace DhKit.Indexer
open KeyedTables CommitRules

structure Db.RowConsistent (db : Db) (file : File) : Prop where
 deleted : file.deletedAtUnixMs.isSome ↔ file.freshnessState = .deleted
 symbolCount : file.symbolCount = (db.findSymbolsByFile (fileKeyForFile file)).length
 chunkCount : file.chunkCount = (db.findChunksByFile (fileKeyForFile file)).length
 wiped : file.freshnessState = .deleted ∨ file.freshnessState = .notCurrent →
  db.findSymbolsByFile (fileKeyForFile file) = [] ∧
   db.findChunksByFile (fileKeyForFile file) = []

def Db.RowsConsistent (db : Db) : Prop := ∀ file ∈ db.files.rows,db.RowConsistent file

variable {db db' : Db} {file : File} {env : Env}

theorem Db.RowConsistent.congr (h:db.RowConsistent file)
 (hs:db'.findSymbolsByFile (fileKeyForFile file)=db.findSymbolsByFile (fileKeyForFile file))
 (hc:db'.findChunksByFile (fileKeyForFile file)=db.findChunksByFile (fileKeyForFile file)) :
 db'.RowConsistent file := by
 refine ⟨h.deleted,?_,?_,?_⟩
 · rw [hs,h.symbolCount]
 · rw [hc,h.chunkCount]
 · rw [hs,hc]
   exact h.wiped

theorem Db.RowsConsistent.written {symbols : List Symbol}
 {chunks : List Chunk} {edges : List GraphEdge} {hasExisting : Bool} (h:db.RowsConsistent)
 (hw:db.Written db' file symbols chunks edges hasExisting)
 (hs:∀s∈symbols,s.fileId=fileKeyForFile file)
 (hc:∀c∈chunks,c.fileId=fileKeyForFile file) (hrow:db'.RowConsistent file) :
 db'.RowsConsistent := by
 intro f hf
 rcases hw.mem_files.mp hf with rfl|⟨hf,hk⟩
 · exact hrow
 · refine (h f hf).congr ?_ ?_
   · rw [hw.symbolsOf hs,if_neg hk]
   · rw [hw.chunksOf hc,if_neg hk]

theorem Db.RowConsistent.of_no_facts (hs:db.findSymbolsByFile (fileKeyForFile file)=[])
 (hc:db.findChunksByFile (fileKeyForFile file)=[])
 (hcount:file.symbolCount=0 ∧ file.chunkCount=0)
 (hde:file.deletedAtUnixMs.isSome ↔ file.freshnessState = .deleted) :
 db.RowConsistent file :=
 ⟨hde,by simp [hs,hcount.1],by simp [hc,hcount.2],fun _=>⟨hs,hc⟩⟩

section
variable (h : db.RowsConsistent)
include h

theorem Db.RowsConsistent.wiped (hw:db.Written db' file [] [] [] true)
 (hl:file.deletedAtUnixMs=none)
 (hst:file.freshnessState = .notCurrent)
 (hcount:file.symbolCount=0 ∧ file.chunkCount=0) : db'.RowsConsistent := by
 refine h.written hw (by simp) (by simp) (.of_no_facts ?_ ?_ hcount (by simp [hl,hst]))
 · rw [hw.symbolsOf (by simp)]
   simp
 · rw [hw.chunksOf (by simp)]
   simp

theorem Db.RowsConsistent.markDeleted (file : File) (deletedAt : Int) (marker : String) :
 (db.markDeletedFile file deletedAt marker).RowsConsistent := by
 intro f hf
 rw [Db.markDeletedFile_files,Table.mem_upsert] at hf
 rcases hf with rfl|⟨hf,hk⟩
 · refine .of_no_facts ?_ ?_ ⟨rfl,rfl⟩ (by simp [Db.deletedRow])
   · rw [Db.markDeletedFile_symbolsOf]
     exact if_pos rfl
   · rw [Db.markDeletedFile_chunksOf]
     exact if_pos rfl
 · have hk:fileKeyForFile f≠fileKeyForFile file:=hk
   refine (h f hf).congr ?_ ?_
   · rw [Db.markDeletedFile_symbolsOf,if_neg hk]
   · rw [Db.markDeletedFile_chunksOf,if_neg hk]

theorem Db.RowsConsistent.retained {indexed : List FileKey}
 (hr:RetainedSoFar env indexed db [] db') : db'.RowsConsistent := by
 have hs:∀id,db'.findSymbolsByFile id=db.findSymbolsByFile id:=by
  intro id
  rw [Db.findSymbolsByFile,hr.symbols,Db.findSymbolsByFile]
 have hc:∀id,db'.findChunksByFile id=db.findChunksByFile id:=by
  intro id
  rw [Db.findChunksByFile,hr.chunks,Db.findChunksByFile]
 intro f hf
 obtain ⟨g,hg,rfl⟩:=(hr.files f).mp hf
 split_ifs with hsk
 · exact (h g hg).congr (hs _) (hc _)
 simp only [List.not_mem_nil] at hsk
 simp only [skipsRetention,decide_eq_true_eq,not_or] at hsk
 refine ⟨?_,?_,?_,?_⟩
 · simp [retainedRow,hsk.1]
 · rw [hs,retainedRow_key]
   exact (h g hg).symbolCount
 · rw [hc,retainedRow_key]
   exact (h g hg).chunkCount
 · simp [retainedRow]

theorem Db.RowsConsistent.sameFacts (hs:db.SameFacts db') : db'.RowsConsistent := by
 intro f hf
 rw [hs.files] at hf
 refine (h f hf).congr ?_ ?_
 · rw [Db.findSymbolsByFile,hs.symbols,Db.findSymbolsByFile]
 · rw [Db.findChunksByFile,hs.chunks,Db.findChunksByFile]

end

/-- The scanned files of a plan that have no row have distinct keys, and no file
 has more facts than a 32-bit count holds. -/
structure RunPlan.Countable (plan : RunPlan) (env : Env) : Prop where
 distinct : plan.NewKeysDistinct
 symbols_lt : ∀ c ∈ plan.candidates,(factsOf env plan.roots c).symbols.length < 2^32
 chunks_lt : ∀ c ∈ plan.candidates,(factsOf env plan.roots c).chunks.length < 2^32

structure RunConsistent (env : Env) (plan : RunPlan) (db : Db) : Prop where
 rows : db.RowsConsistent
 newFacts : NewFactsFrom env plan db

section
variable {env : Env} {plan : RunPlan} {db db' : Db}

section
variable (hcount : plan.Countable env)
 {p : PlannedFile} {Marks : FileKey → File → Prop} {x y : RunState × Db}
include hcount

theorem outcome_row_consistent (hp:p.candidate∈plan.candidates)
 (hs:db'.findSymbolsByFile p.key=(factsOf env plan.roots p.candidate).symbols)
 (hc:db'.findChunksByFile p.key=(factsOf env plan.roots p.candidate).chunks) :
 db'.RowConsistent (plan.outcome env p).persistedFile := by
 have hk:fileKeyForFile (plan.outcome env p).persistedFile=p.key:=processOutcome_key ..
 have hls:=hcount.symbols_lt p.candidate hp
 have hlc:=hcount.chunks_lt p.candidate hp
 unfold factsOf at hs hc hls hlc
 cases hx : extractCandidate env plan.roots p.candidate with
 | error failure =>
  rw [hx] at hs hc
  refine .of_no_facts (hk ▸ hs) (hk ▸ hc) ?_ ?_ <;>
   simp [RunPlan.outcome,processOutcome,hx,failedRow]
 | ok facts =>
  rw [hx] at hs hc hls hlc
  have ho:(plan.outcome env p).persistedFile.symbolCount=facts.symbols.length%2^32 ∧
   (plan.outcome env p).persistedFile.chunkCount=facts.chunks.length%2^32 ∧
   (plan.outcome env p).persistedFile.freshnessState =
    (if facts.hasErrors then .degradedPartial else .refreshedCurrent) := by
   simp [RunPlan.outcome,processOutcome,hx,extractedOutcome,extractedRow]
  refine ⟨?_,?_,?_,?_⟩
  · rw [ho.2.2,RunPlan.outcome,processOutcome_deletedAt]
    split_ifs <;> simp
  · rw [hk,hs,ho.1,Nat.mod_eq_of_lt hls]
  · rw [hk,hc,ho.2.1,Nat.mod_eq_of_lt hlc]
  · rw [ho.2.2]
    split_ifs <;> simp

theorem RunConsistent.planned (h:RunConsistent env plan db) (hp:p.candidate∈plan.candidates)
 (hw:plan.PlannedWrite env p db db') : db'.RowsConsistent := by
 have hl:=factsOf_local env plan.roots p.candidate
 have hex:=h.newFacts.extracted hw hcount.distinct hp
 refine h.rows.written hw ?_ ?_ (outcome_row_consistent hcount hp hex.symbols hex.chunks)
 · rw [RunPlan.outcome_key]
   exact hl.symbol_file
 · rw [RunPlan.outcome_key]
   exact hl.chunk_file

theorem RunConsistent.step (hma:∀key file,plan.existing.get key=some file → Marks key file →
  file.deletedAtUnixMs=none)
 (h:RunConsistent env plan x.2) (hst:PlanStep env plan Marks x y) :
 RunConsistent env plan y.2 := by
 refine ⟨?_,h.newFacts.step hcount.distinct hst⟩
 cases hst with
 | planned p hc hw => exact h.planned hcount hc hw
 | hashFailed c hc hw =>
  obtain ⟨message,existing,-,-,hw⟩:=hw
  exact h.rows.wiped hw rfl rfl ⟨rfl,rfl⟩
 | notCurrent key file message reason he hm hw =>
  exact h.rows.wiped hw (hma key file he hm) rfl ⟨rfl,rfl⟩
 | counted => exact h.rows
 | deleted key file he hd => exact h.rows.markDeleted file env.now env.runIdMarker
 | retained hr => exact h.rows.retained hr

theorem RunConsistent.steps (hma:∀key file,plan.existing.get key=some file → Marks key file →
  file.deletedAtUnixMs=none)
 (h:RunConsistent env plan x.2) (hst:PlanSteps env plan Marks x y) :
 RunConsistent env plan y.2 := by
 induction hst with
 | refl => exact h
 | tail _ hste ih => exact ih.step hcount hma hste

end

end

theorem Db.SameTables.rowsConsistent (h:db.SameTables db')
 (hr:db.RowsConsistent) : db'.RowsConsistent :=
 hr.sameFacts ⟨h.files,h.symbols,h.chunks⟩

def Db.NotDeleted (db : Db) (key : FileKey) : Prop :=
 ∀ f ∈ db.files.rows,fileKeyForFile f = key → f.deletedAtUnixMs = none

theorem invalidatePaths_rowsConsistent {workspaceId : Int} {paths : List RequestPath}
 {s t : Store} {u : Unit} (h:Yields (invalidatePaths env workspaceId paths) s u t)
 (hp:∀root,s.db.workspaceRoot=some root → ∀path∈paths,
  ∀key∈invalidatedFileKey env.disk root s.db.rootPathsById path,s.db.NotDeleted key)
 (hr:s.db.RowsConsistent) : t.db.RowsConsistent := by
 simp only [invalidatePaths,yields_bind] at h
 obtain ⟨root,_,hro,_,_,⟨rfl,rfl⟩,h⟩:=h
 obtain ⟨hws,rfl⟩:=workspaceRootFor_yields hro
 refine (foldlM_invariant _ (fun _ v=>v.db.RowsConsistent ∧
  ∀key,s.db.NotDeleted key → v.db.NotDeleted key) _ ?_ ⟨hr,fun _ h=>h⟩ h).1
 rintro path _ v _ w hpa ⟨hv,hke⟩ hst
 rcases invalidatePath_yields hst with rfl|⟨key,file,hk,hf,hfk,hw⟩
 · exact ⟨hv,hke⟩
 have hl:file.deletedAtUnixMs=none:=
  hke key (hp root hws path hpa key hk) file hf hfk
 refine ⟨hv.wiped hw hl rfl ⟨rfl,rfl⟩,fun k hn f hm hfk'=>?_⟩
 rcases hw.mem_files.mp hm with rfl|⟨hm,-⟩
 · exact hl
 · exact hke k hn f hm hfk'

/-- When a call keeps the rows consistent: an indexing call by the candidates of its
 plan, and by the deleted rows that it or an invalidation is asked to touch. -/
def KeepsRows : Call → Db → Prop
 | .indexWorkspace env req,db => (requestPlan env req db).Countable env
 | .indexPaths env req,db => (pathsRequestPlan env req db).Countable env ∧
  (req.expandDependents = true → ∀ key ∈ touchedKeys env req db,
   key ∉ (pathsRequestPlan env req db).candidates.map fileKeyForCandidate → db.NotDeleted key)
 | .invalidatePaths env _ paths,db => ∀ root,db.workspaceRoot = some root → ∀ path ∈ paths,
  ∀ key ∈ invalidatedFileKey env.disk root db.rootPathsById path,db.NotDeleted key

theorem Call.Returns.rowsConsistent {c : Call} (h:c.Returns db db')
 (hc:KeepsRows c db) (hr:db.RowsConsistent) : db'.RowsConsistent := by
 cases c with
 | indexWorkspace env req =>
  obtain ⟨report,t,h,rfl⟩:=h
  obtain ⟨-,s1,st,t1,hs1,hru,ht1,-⟩:=indexWorkspace_yields h
  have hp:=requestPlan_for env req db
  have hst:RunConsistent env (requestPlan env req db) s1.db:=
   ⟨hs1.rowsConsistent hr,.start hp hs1⟩
  obtain ⟨mid,hse,hre⟩:=runWorkspacePlan_yields hru
  refine ht1.rowsConsistent ((hst.steps hc ?_
   (settledWorkspace_steps hp hse)).rows.sameFacts (relinkRun_sameFacts hre))
  simp [ForcedMarks]
 | indexPaths env req =>
  obtain ⟨report,t,h,rfl⟩:=h
  obtain ⟨u,hpa,hu⟩:=yields_indexPaths h
  obtain ⟨st,t1,hru,ht1,-⟩:=completePaths_yields hpa
  rw [←hu] at ht1
  have hp:=pathsRequestPlan_for env req db
  obtain ⟨mid,hse,hre⟩:=runPathsPlan_yields hru
  have hst:RunConsistent env (pathsRequestPlan env req db) db:=
   ⟨hr,.start hp (.refl db)⟩
  refine ht1.rowsConsistent ((hst.steps hc.1 ?_
   (settledPaths_steps hp hse)).rows.sameFacts (relinkRun_sameFacts hre))
  intro key file he hm
  obtain ⟨hf,hk⟩:=(hp.existing key file).mp he
  rcases hm with hl|⟨hfo,hsc⟩
  · exact hl
  · split_ifs at hfo with hex
    · exact hc.2 hex key hfo hsc file hf hk
    · simp at hfo
 | invalidatePaths env workspaceId paths =>
  obtain ⟨u,t,h,rfl⟩:=h
  exact invalidatePaths_rowsConsistent h hc hr

/-- In every history whose calls meet the condition, every row is consistent after
 each call. -/
theorem rowsConsistent_of_reachable (h : Reachable KeepsRows db) :
 db.RowsConsistent := by
 induction h with
 | empty => simp [Db.RowsConsistent,Db.empty]
 | call c _ hc h ih => exact h.rowsConsistent hc ih

section

def oneFileParser : Parser :=
 .ofTable [("f",{ SourceSketch.blank with symbols := [("f",0,10)] })] []

def oneFile : DiskEntry := ⟨["w","a.ts"],10,1,"f",.readable⟩

def withFile : Env := .plain oneFileParser (.ofFiles ⟨[oneFile],by simp⟩)

def withoutFile : Env := .plain oneFileParser (.ofFiles .empty)

def wholeWorkspace : IndexWorkspaceRequest := ⟨[["w"]],false,none⟩

def firstIndexed : Db := (Call.indexWorkspace withFile wholeWorkspace).result .empty

def invalidated : Db := (Call.invalidatePaths withFile 1 [.relative ["a.ts"]]).result firstIndexed

def removed : Db := (Call.indexWorkspace withoutFile wholeWorkspace).result invalidated

/-- The file is indexed, invalidated and then gone from the disk. -/
theorem removed_rowsConsistent :
 firstIndexed.symbols.rows≠[] ∧
 (∃ f ∈ invalidated.files.rows,f.freshnessState = .notCurrent) ∧
 (∃ f ∈ removed.files.rows,f.deletedAtUnixMs≠none) ∧ removed.RowsConsistent := by
 refine ⟨by decide +kernel,by decide +kernel,by decide +kernel,rowsConsistent_of_reachable ?_⟩
 have hlive:∀f∈firstIndexed.files.rows,f.deletedAtUnixMs=none:=by decide +kernel
 have hfirst:Reachable KeepsRows firstIndexed:=
  .call (.indexWorkspace withFile wholeWorkspace) .empty
   ⟨by decide +kernel,by decide +kernel,by decide +kernel⟩
   (Call.returns_result (by decide +kernel))
 have hinvalidated:Reachable KeepsRows invalidated:=
  .call (.invalidatePaths withFile 1 [.relative ["a.ts"]]) hfirst
   (fun _ _ _ _ _ _ f hf _=>hlive f hf) (Call.returns_result (by decide +kernel))
 exact .call (.indexWorkspace withoutFile wholeWorkspace) hinvalidated
  ⟨by decide +kernel,by decide +kernel,by decide +kernel⟩
  (Call.returns_result (by decide +kernel))

def deletedIndexed : Db := (Call.indexWorkspace withoutFile wholeWorkspace).result firstIndexed

def deletedInvalidated : Db :=
 (Call.invalidatePaths withoutFile 1 [.relative ["a.ts"]]).result deletedIndexed

/-- Invalidating the path of a deleted file leaves a row that holds a deletion time
 and is not in the state deleted. -/
theorem invalidatePaths_deleted_row :
 (Call.indexWorkspace withFile wholeWorkspace).Returns .empty firstIndexed ∧
 (Call.indexWorkspace withoutFile wholeWorkspace).Returns firstIndexed deletedIndexed ∧
 (Call.invalidatePaths withoutFile 1 [.relative ["a.ts"]]).Returns deletedIndexed
  deletedInvalidated ∧
 ¬ deletedInvalidated.RowsConsistent := by
 refine ⟨Call.returns_result (by decide +kernel),Call.returns_result (by decide +kernel),
  Call.returns_result (by decide +kernel),fun h=>?_⟩
 have hrow:∃f∈deletedInvalidated.files.rows,f.deletedAtUnixMs.isSome ∧
  f.freshnessState≠.deleted := by decide +kernel
 obtain ⟨f,hf,hd,hs⟩:=hrow
 exact hs ((h f hf).deleted.mp hd)

end

end DhKit.Indexer
