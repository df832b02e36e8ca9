import DhKit.IndexRunTraces

/-!
# Histories of calls

A history may hold calls that return, calls that fail and calls that are killed between two
commits.
-/
namespace DhKit.Indexer
open KeyedTables CommitRules

def Call.leaves : Call → Store → Db
 | indexWorkspace env req,s => (Indexer.indexWorkspace env req s).2.db
 | indexPaths env req,s => (Indexer.indexPaths env req s).2.db
 | invalidatePaths env workspaceId paths,s =>
  (Indexer.invalidatePaths env workspaceId paths s).2.db

inductive Arises : Db → Prop
 | empty : Arises Db.empty
 | call {db : Db} (c : Call) (fault : Option (Nat × Stop)) (h : Arises db) :
  Arises (c.leaves ⟨db,fault⟩)

def WritableEdges (env : Env) (db : Db) (id : FileId) (edges : List GraphEdge) : Prop :=
 edges = [] ∨ ∃ roots snapshot reuse facts,facts.Local id ∧
  edges = edgesToWrite env roots snapshot reuse id facts db

/-- A property of the database that each write of a run keeps, for runs that write `Row`s. -/
structure WriteStable (env : Env) (Row : File → Prop) (I : Db → Prop) : Prop where
 live : ∀ {file : File},file.deletedAtUnixMs = none → Row file
 written : ∀ {db db' : Db} {file : File} {symbols : List Symbol} {chunks : List Chunk}
  {edges : List GraphEdge} {hasExisting : Bool},I db → Row file →
  WritableEdges env db (fileKeyForFile file) edges →
  db.Written db' file symbols chunks edges hasExisting → I db'
 retained : ∀ {db : Db} {file : File},I db → file.deletedAtUnixMs = none →
  I (db.upsertFile (retainedRow env file))
 deleted : ∀ {db : Db} {file : File},I db →
  I (db.markDeletedFile file env.now env.runIdMarker)
 contract : ∀ {db db' : Db} {changed contractChanged : List FileId},I db →
  db.relinkContractChangedFiles changed contractChanged = .ok db' → I db'
 workspace : ∀ {db db' : Db} {root : Path} {rootPaths : HashMap RootId Path},I db →
  db.linkWorkspace env.disk root rootPaths = some db' → I db'

/-- A property of the database that each kind of commit keeps. -/
structure CommitStable (env : Env) (Row : File → Prop) (I : Db → Prop) : Prop
 extends WriteStable env Row I where
 same : ∀ {db db' : Db},I db → db.SameTables db' → I db'

abbrev KeepsDb {α : Type} (I : Db → Prop) (x : IndexM α) : Prop :=
 Keeps (fun s : Store => I s.db) x

theorem keepsDb_readDb {α : Type} {I : Db → Prop} (f : Db → α) : KeepsDb I (readDb f) :=
 Keeps.query _

theorem keepsDb_read {α β : Type} {I : Db → Prop} {g : Db → α} {f : α → IndexM β}
 (h:∀db,KeepsDb I (f (g db))) : KeepsDb I (readDb g >>= f) := by
 refine Keeps.bind_yields (keepsDb_readDb g) fun a s t hr=>?_
 rw [←(yields_readDb.mp hr).1]
 exact h s.db

theorem keepsDb_commit {I : Db → Prop} {f : Db → Except String Db}
 (h:∀ {db db'},I db → f db = .ok db' → I db') : KeepsDb I (commit f) := by
 intro s hs
 unfold Indexer.commit
 rcases s with ⟨db,_|⟨_|n,_|message⟩⟩ <;> simp only
 · cases hf : f db with
   | ok db' => exact h hs hf
   | error e => exact hs
 · exact hs
 · exact hs
 all_goals
  cases hf : f db with
  | ok db' => exact h hs hf
  | error e => exact hs

theorem keepsDb_upsertRun {I : Db → Prop} : KeepsDb I upsertRun :=
 keepsDb_commit fun hdb hs=>Except.ok.inj hs ▸ hdb

/-- A property of computations that binding keeps, and that a write without facts has. -/
structure Compositional (Row : File → Prop) (Q : ∀ {α : Type},IndexM α → Prop) : Prop where
 live : ∀ {file : File},file.deletedAtUnixMs = none → Row file
 pure : ∀ {α : Type} (a : α),Q (Pure.pure a : IndexM α)
 read : ∀ {α β : Type} {g : Db → α} {f : α → IndexM β},(∀ db,Q (f (g db))) →
  Q (readDb g >>= f)
 bind : ∀ {α β : Type} {x : IndexM α} {f : α → IndexM β},Q x → (∀ a,Q (f a)) → Q (x >>= f)
 wiped : ∀ file,Row file → Q (commit fun db => db.writeFileAtomically file [] [] [] true)

namespace Compositional
variable {Row : File → Prop} {Q : ∀ {α : Type},IndexM α → Prop} (hQ : Compositional Row Q)
 {env : Env}
include hQ

theorem foldlM {α β : Type} {f : β → α → IndexM β} {l : List α} (hf:∀b,∀a∈l,Q (f b a))
 (b : β) : Q (l.foldlM f b) := by
 induction l generalizing b with
 | nil => exact hQ.pure b
 | cons a l ih =>
  exact hQ.bind (hf b a List.mem_cons_self) (ih fun b c hc=>hf b c (List.mem_cons_of_mem _ hc))

theorem expanding {inp : ExpansionInput} {roots : List FileKey}
 (hma:∀key file,Markable inp roots key file →
  ∀message reason,Row (notCurrentRow env file message reason)) :
 Expanding env inp roots fun _ x=>Q x where
 skip _ := hQ.pure _
 queued _ := hQ.pure _
 marked message reason hm _ :=
  hQ.bind (hQ.wiped _ (hma _ _ hm message reason)) fun _=>hQ.pure _
 bind := hQ.bind
 read := hQ.read

theorem markHashFailed (plan : RunPlan) (st : RunState) (candidate : FileCandidate) :
 Q (markHashFailed env plan st candidate) := by
 unfold Indexer.markHashFailed
 simp only
 split
 · split_ifs
   · exact hQ.pure _
   · exact hQ.bind (hQ.wiped _ (hQ.live rfl)) fun _=>hQ.pure _
 · exact hQ.pure _

theorem markTouchedFailed {plan : RunPlan} {db : Db} (hplan:plan.For env db) (st : RunState)
 (key : FileKey) : Q (markTouchedFailed env plan st key) := by
 unfold Indexer.markTouchedFailed
 split
 · next message existing hm he =>
   split_ifs
   · exact hQ.pure _
   split
   · exact hQ.bind (hQ.wiped _ (hQ.live rfl)) fun _=>hQ.pure _
   · next hnone =>
     obtain ⟨c,hc,hk⟩:=hplan.failures key message hm
     exact absurd hk (by simpa using List.find?_eq_none.mp hnone c hc)
 · exact hQ.pure _

end Compositional

/-- What a run may mark not current is a `Row`. -/
def MarksRows (env : Env) (Row : File → Prop) (plan : RunPlan) (forced : List FileKey) : Prop :=
 ∀ key file,plan.existing.get key = some file → ForcedMarks plan forced key file →
  ∀ message reason,Row (notCurrentRow env file message reason)

namespace WriteStable
variable {env : Env} {Row : File → Prop} {I : Db → Prop} (hI : WriteStable env Row I)
 {plan : RunPlan} {db : Db}
include hI

theorem marksRows_nil : MarksRows env Row plan [] :=
 fun _ _ _ hm _ _=>hI.live (hm.resolve_right fun hk=>(nomatch hk.1))

theorem compositional : Compositional Row fun x=>KeepsDb I x where
 live := hI.live
 pure := Keeps.pure
 read hf := keepsDb_read hf
 bind := Keeps.bind
 wiped _ hrow :=
  keepsDb_commit fun hdb hw=>hI.written hdb hrow (.inl rfl) (Db.writeFileAtomically_ok hw)

theorem processAndWriteFile (roots : RunRoots) (snapshot : Option WorkspaceSnapshot)
 (planned : PlannedFile) (contentHash : String) (existing : Option File) :
 KeepsDb I (processAndWriteFile env roots snapshot planned contentHash existing) := by
 unfold Indexer.processAndWriteFile
 split
 · next message reason _ =>
   refine Keeps.bind (keepsDb_commit fun hdb hw=>?_) fun _=>Keeps.pure _
   exact hI.written hdb (hI.live rfl) (.inl rfl) (Db.writeFileAtomically_ok hw)
 · next facts hx =>
   refine Keeps.bind (keepsDb_commit fun {db db'} hdb hw=>?_) fun _=>Keeps.pure _
   have hl:facts.Local planned.key:=by
    have h:=factsOf_local env roots planned.candidate
    rwa [factsOf,hx] at h
   refine hI.written hdb (hI.live rfl) ?_ (Db.writeFileAtomically_ok hw)
   exact .inr ⟨roots,snapshot,_,facts,hl,rfl⟩

theorem indexPlanned (plan : RunPlan) (st : RunState) (planned : PlannedFile) :
 KeepsDb I (indexPlanned env plan st planned) :=
 Keeps.bind (keepsDb_readDb _) fun _=>Keeps.bind (hI.processAndWriteFile _ _ _ _ _) fun _=>
  Keeps.pure _

theorem refreshQueued (plan : RunPlan) (st : RunState) (planned : PlannedFile) :
 KeepsDb I (refreshQueued env plan st planned) := by
 unfold Indexer.refreshQueued
 split_ifs
 · exact Keeps.pure _
 · split
   · exact hI.compositional.markHashFailed _ _ _
   · exact hI.indexPlanned _ _ _

theorem expandAndRefresh (hplan:plan.For env db) {initial forced : List FileKey}
 {st : RunState} (hst:Tracked plan initial st) (hma:MarksRows env Row plan forced) :
 KeepsDb I (expandAndRefresh env plan initial forced st) := by
 have hexp:Expanding env (expansionInput plan initial)
  (confirmedChanges plan forced st).allRoots fun _ x=>KeepsDb I x :=
  hI.compositional.expanding fun key file hm=>
   hma key file hm.existing (markable_forced hplan hst hm)
 exact Keeps.bind (hexp.applyConfirmedInvalidationExpansion
  (fun _ _ hf=>(existingByKey_key hf).2) _) fun _=>Keeps.foldlM (hI.refreshQueued plan) _ _

theorem refreshUnchangedFiles (indexed : List FileKey) (counters : FreshnessCounters) :
 KeepsDb I (refreshUnchangedFiles env indexed counters) := by
 refine Keeps.bind (keepsDb_readDb _) fun files=>Keeps.foldlM (fun counters file=>?_) _ _
 unfold retainUnchanged
 split_ifs with hs
 · exact Keeps.pure _
 refine Keeps.bind (keepsDb_commit fun hdb hok=>?_) fun _=>Keeps.pure _
 cases hok
 -- a row that is retained is live
 simp only [skipsRetention,not_or,decide_eq_true_eq] at hs
 exact hI.retained hdb (by simpa using hs.1)

section
variable (plan : RunPlan) (st : RunState)

theorem deleteFile (id : FileId) :
 KeepsDb I (deleteFile env plan st id) := by
 unfold Indexer.deleteFile
 split
 · exact Keeps.pure _
 · refine Keeps.bind (keepsDb_commit fun hdb hs=>?_) fun _=>Keeps.pure _
   cases hs
   exact hI.deleted hdb

theorem relinkRun : KeepsDb I (relinkRun env plan st) := by
 unfold Indexer.relinkRun
 split_ifs
 · exact Keeps.pure _
 · exact Keeps.pure _
 · exact keepsDb_commit hI.contract
 refine keepsDb_commit fun hdb hl=>?_
 split at hl
 · next db' hdb' =>
   cases hl
   exact hI.workspace hdb hdb'
 · cases hl

theorem settleRun : KeepsDb I (settleRun env plan st) :=
 Keeps.bind (Keeps.foldlM (hI.deleteFile plan) _ _) fun _=>
  Keeps.bind (hI.refreshUnchangedFiles _ _) fun _=>Keeps.pure _

end

section
variable (hplan : plan.For env db)
include hplan

/-- The planned files, then the files that could not be hashed, then the expansion. -/
theorem refreshRun {forced : List FileKey}
 (hma:MarksRows env Row plan forced) {failed : List FileCandidate}
 (hf:∀c∈failed,c∈plan.candidates) {st : RunState} (hst:Recorded st) :
 KeepsDb I (do
  let st1 ← plan.dirty.toIndex.foldlM (Indexer.indexPlanned env plan) st
  let st2 ← failed.foldlM (Indexer.markHashFailed env plan) st1
  let st3 ← Indexer.expandAndRefresh env plan st1.indexed forced st2
  Indexer.settleRun env plan st3) := by
 refine Keeps.bind_yields (Keeps.foldlM (hI.indexPlanned plan) _ _) fun st1 s s1 h1=>?_
 obtain ⟨hr,-⟩ : Recorded st1 ∧ PlanSteps env plan (ForcedMarks plan forced) _ _ :=
  indexPlanned_steps hplan.toIndex h1 hst
 refine Keeps.bind_yields (Keeps.foldlM (hI.compositional.markHashFailed plan) _ _)
  fun st2 s1 s2 h2=>?_
 obtain ⟨htr,-⟩ : Tracked plan st1.indexed st2 ∧
  PlanSteps env plan (ForcedMarks plan forced) _ _ :=
  markHashFailed_steps hf h2 ⟨hr.deltas,fun k hk=>Or.inl (hr.fatal k hk)⟩
 exact Keeps.bind (hI.expandAndRefresh hplan htr hma) fun _=>hI.settleRun _ _

theorem settledWorkspace : KeepsDb I (settledWorkspace env plan) :=
 hI.refreshRun hplan hI.marksRows_nil (fun _ hc=>hc) .start

theorem runWorkspacePlan : KeepsDb I (runWorkspacePlan env plan) :=
 Keeps.bind (hI.settledWorkspace hplan) fun st=>
  Keeps.bind (hI.relinkRun plan st) fun _=>Keeps.pure _

theorem runPathsPlan {touched : List FileKey} {expand : Bool}
 (hma:MarksRows env Row plan (if expand then touched else [])) :
 KeepsDb I (runPathsPlan env plan touched expand) := by
 refine Keeps.bind ?_ fun st=>Keeps.bind (hI.relinkRun plan st) fun _=>Keeps.pure _
 refine Keeps.bind_yields (Keeps.foldlM (hI.compositional.markTouchedFailed hplan) _ _)
  fun st0 s s0 h0=>?_
 obtain ⟨hr,-⟩ : Recorded st0 ∧ PlanSteps env plan (ForcedMarks plan touched) _ _ :=
  markTouchedFailed_steps hplan h0 .start
 refine hI.refreshRun hplan hma (fun c hc=>?_) hr
 obtain ⟨p,hp,rfl⟩:=List.mem_map.mp hc
 exact hplan.toIndex p hp

end

end WriteStable

theorem keepsDb_workspaceRootFor {I : Db → Prop} (workspaceId : Int) :
 KeepsDb I (workspaceRootFor workspaceId) := by
 refine Keeps.bind (keepsDb_readDb _) fun root=>?_
 split
 · split_ifs
   · exact Keeps.pure _
   · exact Keeps.fail _
 · exact Keeps.fail _

namespace CommitStable
variable {env : Env} {Row : File → Prop} {I : Db → Prop}

section
variable (hI : CommitStable env Row I)
include hI

theorem saveState (state : IndexState) : KeepsDb I (saveState state) := by
 refine keepsDb_commit fun hdb hs=>?_
 cases hs
 exact hI.same hdb ⟨rfl,rfl,rfl,rfl⟩

theorem recordFailedRun (e : IndexError) : KeepsDb I (recordFailedRun env e) := by
 cases e with
 | killed => exact Keeps.pure _
 | failed message => exact Keeps.bind (keepsDb_readDb _) fun _=>hI.saveState _

theorem indexWorkspace (req : IndexWorkspaceRequest) : KeepsDb I (indexWorkspace env req) := by
 unfold Indexer.indexWorkspace
 split
 · exact Keeps.fail _
 · exact Keeps.fail _
 refine Keeps.bind (Keeps.bind (keepsDb_readDb _) fun _=>
  Keeps.bind (Keeps.foldlM (fun _ root=>?_) _ _) fun _=>Keeps.bind (keepsDb_readDb _) fun _=>
   Keeps.bind (hI.saveState _) fun _=>Keeps.pure _) fun _=>
  Keeps.onError (Keeps.bind (keepsDb_read fun db=>?_) fun _=>
   Keeps.bind keepsDb_upsertRun fun _=>Keeps.pure _) hI.recordFailedRun
 · exact keepsDb_commit fun hdb hr=>hI.same hdb (ensureWorkspaceAndRoot_ok hr)
 · exact Keeps.bind (hI.saveState _) fun _=>Keeps.bind (hI.saveState _) fun _=>
    Keeps.bind (hI.runWorkspacePlan (workspacePlan_for _ _ _ _ db)) fun _=>
     Keeps.bind (hI.saveState _) fun _=>Keeps.pure _

end

variable (hI : CommitStable env (fun _ => True) I)
include hI

theorem indexPaths (req : IndexPathsRequest) : KeepsDb I (indexPaths env req) :=
 Keeps.bind (Keeps.bind (keepsDb_workspaceRootFor _) fun _=>Keeps.bind (keepsDb_readDb _) fun _=>
  keepsDb_read fun db=>Keeps.bind (hI.runPathsPlan (pathsPlan_for _ _ _ _ db)
    fun _ _ _ _ _ _=>trivial) fun _=>Keeps.bind (keepsDb_readDb _) fun _=>
   Keeps.bind (hI.saveState _) fun _=>Keeps.pure _) fun _=>
  Keeps.bind keepsDb_upsertRun fun _=>Keeps.pure _

theorem invalidatePath (workspaceRoot : Path) (rootPaths : List (RootId × Path))
 (path : RequestPath) : KeepsDb I (invalidatePath env workspaceRoot rootPaths path) := by
 unfold Indexer.invalidatePath
 split
 · exact Keeps.pure _
 refine Keeps.bind (keepsDb_readDb _) fun row=>?_
 split
 · exact Keeps.pure _
 · exact hI.compositional.wiped _ trivial

theorem invalidatePaths (workspaceId : Int) (paths : List RequestPath) :
 KeepsDb I (invalidatePaths env workspaceId paths) :=
 Keeps.bind (keepsDb_workspaceRootFor _) fun _=>Keeps.bind (keepsDb_readDb _) fun _=>
  Keeps.foldlM (fun _ path=>hI.invalidatePath _ _ path) _ _

end CommitStable

theorem Arises.induct {I : Db → Prop} (hI:∀env,CommitStable env (fun _=>True) I)
 (h0:I Db.empty)
 {db : Db} (h:Arises db) : I db := by
 induction h with
 | empty => exact h0
 | call c fault _ ih =>
  cases c with
  | indexWorkspace env req => exact (hI env).indexWorkspace req _ ih
  | indexPaths env req => exact (hI env).indexPaths req _ ih
  | invalidatePaths env workspaceId paths =>
   exact (hI env).invalidatePaths workspaceId paths _ ih

end DhKit.Indexer
