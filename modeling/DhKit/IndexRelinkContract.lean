import DhKit.IndexEdgeOwnership
import DhKit.IndexRowConsistency

/-!
# The relink of contract changes

What `relink_contract_changed_files` leaves in the edge table, and when that is
what the run linked.
-/
namespace DhKit.Indexer
open KeyedTables CommitRules List

/-- The columns by which two edge rows are told apart. -/
structure EdgeKey where
 owner : FileId
 kind : EdgeKind
 fromNode : NodeId
 toNode : NodeId
 span : Option Span
deriving DecidableEq

def EdgeRow.key (row : EdgeRow) : EdgeKey :=
 ⟨row.sourceFileId,row.edge.kind,row.edge.fromNode,row.edge.toNode,row.edge.span⟩

theorem EdgeRow.owner_of_key {r r' : EdgeRow} (h:r.key=r'.key) :
 r.sourceFileId=r'.sourceFileId := congrArg EdgeKey.owner h

def Db.EdgeKeysDistinct (db : Db) : Prop := (db.edges.map EdgeRow.key).Nodup

variable {id : FileId} {e : GraphEdge}
 {db : Db} {mid : Store} {env : Env} {plan : RunPlan} {st : RunState}

theorem mem_findEdgesByFile :
 e∈db.findEdgesByFile id ↔ ⟨id,e⟩∈db.edges := by
 simp only [Db.findEdgesByFile,mem_map,mem_filter,decide_eq_true_eq]
 constructor
 · rintro ⟨r,⟨hr,rfl⟩,rfl⟩
   exact hr
 · exact fun h=>⟨_,⟨h,rfl⟩,rfl⟩

section
variable {db db' : Db} {changed contractChanged : List FileId} {r : EdgeRow}

def Db.ownImports (db : Db) (id : FileId) : List EdgeRow :=
 db.edges.filter fun r => r.sourceFileId = id ∧ isResolvedImport r.edge

def Db.incomingImports (db : Db) (id : FileId) : List EdgeRow :=
 ((db.edges.filter fun r => r.edge.toNode = .file id).take 200000).filter fun r =>
  isResolvedImport r.edge

theorem mem_ownImports :
 r∈db.ownImports id ↔ r∈db.edges ∧ r.sourceFileId=id ∧ isResolvedImport r.edge := by
 simp [Db.ownImports]

theorem mem_of_mem_incomingImports (h:r∈db.incomingImports id) :
 r∈db.edges ∧ isResolvedImport r.edge := by
 obtain ⟨hr,hi⟩:=mem_filter.mp h
 exact ⟨mem_of_mem_filter (mem_of_mem_take hr),hi⟩

theorem startsInFile_owned (ho:db.EdgesOwned) (hr:r∈db.edges)
 (id : FileId) : Db.startsInFile id r=decide (r.sourceFileId=id) := by
 unfold Db.startsInFile
 cases hn : r.edge.fromNode with
 | file id' => simp [(ho r hr).source id' hn,NodeId.isFile]
 | symbol s => simp [NodeId.isFile]
 | chunk c => simp [NodeId.isFile]

theorem sourceRows_owned (ho:db.EdgesOwned) {rows : List EdgeRow}
 (h:∀r∈rows,r∈db.edges ∧ isResolvedImport r.edge=true) :
 sourceRows (rows.map EdgeRow.edge)=rows := by
 induction rows with
 | nil => rfl
 | cons r rows ih =>
  obtain ⟨hr,hi⟩:=h r mem_cons_self
  have hfrom:=((ho r hr).imports (isImport_of_isResolvedImport hi)).1
  have hrow:rowUnderSource r.edge=[r]:=by
   simp [rowUnderSource,hfrom,Db.ownedRows,db.edgeColumns r hr]
  rw [map_cons,sourceRows,flatMap_cons,hrow,singleton_append]
  exact congrArg _ (ih fun r hr=>h r (mem_cons_of_mem _ hr))

theorem preservedFileImportEdges_owned (ho:db.EdgesOwned) (id : FileId) :
 db.preservedFileImportEdges id=(db.ownImports id).map EdgeRow.edge := by
 refine congrArg _ (filter_congr fun r hr=>decide_eq_decide.mpr ?_)
 constructor
 · exact fun h=>⟨h.1,h.2.2⟩
 · rintro ⟨rfl,hi⟩
   exact ⟨rfl,((ho r hr).imports (isImport_of_isResolvedImport hi)).1,hi⟩

theorem preservedIncomingImportEdges_eq (id : FileId) :
 db.preservedIncomingImportEdges id=(db.incomingImports id).map EdgeRow.edge := by
 unfold Db.preservedIncomingImportEdges Db.findIncomingEdges Db.incomingImports
 rw [←map_take,filter_map]
 rfl

theorem relinkContractChangedFiles_rows (ho:db.EdgesOwned)
 (h:db.relinkContractChangedFiles changed contractChanged = .ok db') :
 db'.edges=(db.edges.filter fun r=>r.sourceFileId ∉ contractChanged) ++
  (changed.flatMap db.ownImports++contractChanged.flatMap db.incomingImports) := by
 rw [(relinkContractChangedFiles_ok h).2]
 congr 1
 · refine filter_congr fun r hr=>?_
   rw [Bool.eq_iff_iff]
   simp only [startsInFile_owned ho hr,all_eq_true,Bool.not_eq_true',decide_eq_false_iff_not,
    decide_eq_true_eq]
   exact ⟨fun hal hc=>hal _ hc rfl,fun hc id hid he=>hc (he ▸ hid)⟩
 · have hco:db.contractImportEdges changed contractChanged =
    (changed.flatMap db.ownImports++contractChanged.flatMap db.incomingImports).map
     EdgeRow.edge := by
    unfold Db.contractImportEdges
    rw [map_append,map_flatMap,map_flatMap]
    congr 1
    · exact flatMap_congr fun id _=>preservedFileImportEdges_owned ho id
    · exact flatMap_congr fun id _=>preservedIncomingImportEdges_eq id
   rw [hco]
   refine sourceRows_owned ho fun r hr=>?_
   rcases mem_append.mp hr with hr|hr
   · obtain ⟨id,-,hr⟩:=mem_flatMap.mp hr
     exact ⟨(mem_ownImports.mp hr).1,(mem_ownImports.mp hr).2.2⟩
   · obtain ⟨id,-,hr⟩:=mem_flatMap.mp hr
     exact mem_of_mem_incomingImports hr

end

/-- The edge table after a relink is what was linked: no two rows agree on their
 key columns, and each changed file owns the edges that were linked for it. -/
structure Db.HoldsLinks (db : Db) (changed : List FileId) (linked : FileId → List GraphEdge) :
 Prop where
 distinct : db.EdgeKeysDistinct
 linked : ∀ id ∈ changed,∀ e,e ∈ db.findEdgesByFile id ↔ e ∈ linked id

/-- The states in which the relink of contract changes does no harm. -/
structure Db.Relinkable (db : Db) (changed contractChanged : List FileId)
 (linked : FileId → List GraphEdge) : Prop where
 distinct : db.EdgeKeysDistinct
 linked : ∀ id ∈ changed,∀ e ∈ linked id,e ∈ db.findEdgesByFile id
 contract : ∀ id ∈ contractChanged,∀ e ∈ db.findEdgesByFile id,isResolvedImport e = true
 changed : ∀ id ∈ changed,id ∉ contractChanged → ∀ e ∈ db.findEdgesByFile id,
  isResolvedImport e = false
 incoming : ∀ id ∈ contractChanged,∀ e ∈ db.findIncomingEdges id 200000,
  isResolvedImport e = false

section
variable {db db' : Db} {changed contractChanged : List FileId} {linked : FileId → List GraphEdge}

theorem mem_incomingImports_of_incoming (h:e∈db.findIncomingEdges id 200000)
 (hi:isResolvedImport e=true) :
 ∃r∈db.incomingImports id,r.edge=e := by
 unfold Db.findIncomingEdges at h
 rw [←map_take] at h
 obtain ⟨r,hr,rfl⟩:=mem_map.mp h
 exact ⟨r,mem_filter.mpr ⟨hr,hi⟩,rfl⟩

theorem Db.HoldsLinks.relinkable (how:db.EdgesOwned)
 (hsu:∀id∈contractChanged,id∈changed)
 (hl:∀id∈changed,∀e∈db.findEdgesByFile id,e∈linked id)
 (hok:db.relinkContractChangedFiles changed contractChanged = .ok db')
 (h:db'.HoldsLinks changed linked) : db.Relinkable changed contractChanged linked := by
 have hro:=relinkContractChangedFiles_rows how hok
 have hd:=h.distinct
 unfold Db.EdgeKeysDistinct at hd
 rw [hro] at hd
 have hco:((changed.flatMap db.ownImports ++
  contractChanged.flatMap db.incomingImports).map EdgeRow.key).Nodup := by
  rw [map_append] at hd
  exact (nodup_append.mp hd).2.1
 have hcon:∀id∈contractChanged,∀e∈db.findEdgesByFile id,
  isResolvedImport e=true := by
  intro id hid e he
  have haf:=(h.linked id (hsu id hid) e).mpr (hl id (hsu id hid) e he)
  rw [mem_findEdgesByFile,hro] at haf
  rcases mem_append.mp haf with hk|hc
  · simp [hid] at hk
  rcases mem_append.mp hc with ho|hi
  · obtain ⟨_,-,ho⟩:=mem_flatMap.mp ho
    exact (mem_ownImports.mp ho).2.2
  · obtain ⟨_,-,hi⟩:=mem_flatMap.mp hi
    exact (mem_of_mem_incomingImports hi).2
 refine ⟨?_,?_,hcon,?_,?_⟩
 · -- the rows of each owner were kept or collected whole
   refine nodup_map_of_owners EdgeRow.sourceFileId (fun _ _=>EdgeRow.owner_of_key) fun id=>?_
   by_cases hid : id∈contractChanged
   · have hal:(db.edges.filter fun r=>r.sourceFileId=id)=db.ownImports id:=by
      refine filter_congr fun r hr=>decide_eq_decide.mpr ⟨fun hk=>⟨hk,?_⟩,And.left⟩
      subst hk
      exact hcon _ hid _ (mem_findEdgesByFile.mpr hr)
     rw [hal]
     rw [map_append,map_flatMap] at hco
     exact (nodup_flatMap.mp (nodup_append.mp hco).1).1 id (hsu id hid)
   have hal:(db.edges.filter fun r=>r.sourceFileId=id) =
    (db.edges.filter fun r=>r.sourceFileId ∉ contractChanged).filter
     fun r=>r.sourceFileId=id := by
    rw [filter_filter]
    refine filter_congr fun r _=>?_
    by_cases hk : r.sourceFileId=id
    · simp [hk,hid]
    · simp [hk]
   rw [hal]
   rw [map_append] at hd
   exact (nodup_append.mp hd).1.sublist (filter_sublist.map _)
 · intro id hid e he
   have haf:=(h.linked id hid e).mpr he
   rw [mem_findEdgesByFile,hro] at haf
   rw [mem_findEdgesByFile]
   rcases mem_append.mp haf with hk|hc
   · exact mem_of_mem_filter hk
   rcases mem_append.mp hc with ho|hi
   · obtain ⟨_,-,ho⟩:=mem_flatMap.mp ho
     exact (mem_ownImports.mp ho).1
   · obtain ⟨_,-,hi⟩:=mem_flatMap.mp hi
     exact (mem_of_mem_incomingImports hi).1
 · intro id hid hn e he
   rw [mem_findEdgesByFile] at he
   by_contra hi
   -- the import is kept and collected again
   exact disjoint_of_nodup_append hd (mem_filter.mpr ⟨he,by simpa using hn⟩)
    (mem_append_left _ (mem_flatMap.mpr
     ⟨id,hid,mem_ownImports.mpr ⟨he,rfl,by simpa using hi⟩⟩))
 intro id hid e he
 by_contra hi
 obtain ⟨r,hr,rfl⟩:=mem_incomingImports_of_incoming he (by simpa using hi)
 obtain ⟨hrow,hre⟩:=mem_of_mem_incomingImports hr
 have hin:r∈contractChanged.flatMap db.incomingImports:=mem_flatMap.mpr ⟨id,hid,hr⟩
 by_cases hc : r.sourceFileId∈contractChanged
 · exact disjoint_of_nodup_append hco (mem_flatMap.mpr
    ⟨_,hsu _ hc,mem_ownImports.mpr ⟨hrow,rfl,hre⟩⟩) hin
 · exact disjoint_of_nodup_append hd (mem_filter.mpr ⟨hrow,by simpa using hc⟩)
    (mem_append_right _ hin)

theorem Db.Relinkable.holdsLinks (how:db.EdgesOwned) (hn:changed.Nodup)
 (hl:∀id∈changed,∀e∈db.findEdgesByFile id,e∈linked id)
 (hok:db.relinkContractChangedFiles changed contractChanged = .ok db')
 (h:db.Relinkable changed contractChanged linked) : db'.HoldsLinks changed linked := by
 have hin:contractChanged.flatMap db.incomingImports=[]:=by
  refine flatMap_eq_nil_iff.mpr fun id hid=>eq_nil_iff_forall_not_mem.mpr ?_
  intro r hr
  obtain ⟨hm,hi⟩:=mem_filter.mp hr
  have := h.incoming id hid r.edge (by
   unfold Db.findIncomingEdges
   rw [←map_take]
   exact mem_map.mpr ⟨r,hm,rfl⟩)
  simp [hi] at this
 have hro:=relinkContractChangedFiles_rows how hok
 rw [hin,append_nil] at hro
 have hco:∀r∈changed.flatMap db.ownImports,r∈db.edges ∧
  r.sourceFileId∈contractChanged := by
  intro r hr
  obtain ⟨id,hid,hr⟩:=mem_flatMap.mp hr
  obtain ⟨hm,rfl,hi⟩:=mem_ownImports.mp hr
  refine ⟨hm,by_contra fun hno=>?_⟩
  have := h.changed _ hid hno r.edge (mem_findEdgesByFile.mpr hm)
  simp [hi] at this
 refine ⟨?_,fun id hid e=>?_⟩
 · unfold Db.EdgeKeysDistinct
   rw [hro,map_append,nodup_append]
   refine ⟨h.distinct.sublist (filter_sublist.map _),?_,?_⟩
   · rw [map_flatMap,nodup_flatMap]
     refine ⟨fun id _=>h.distinct.sublist (filter_sublist.map _),hn.imp ?_⟩
     intro a b hne k ha hb
     obtain ⟨r,hr,rfl⟩:=mem_map.mp ha
     obtain ⟨r',hr',hk⟩:=mem_map.mp hb
     have ho:=EdgeRow.owner_of_key hk
     rw [(mem_ownImports.mp hr').2.1,(mem_ownImports.mp hr).2.1] at ho
     exact hne ho.symm
   · intro k hk k' hk' he
     obtain ⟨r,hr,rfl⟩:=mem_map.mp hk
     obtain ⟨r',hr',rfl⟩:=mem_map.mp hk'
     have hno:r.sourceFileId ∉ contractChanged:=by simpa using (mem_filter.mp hr).2
     exact hno (EdgeRow.owner_of_key he ▸ (hco r' hr').2)
 · rw [mem_findEdgesByFile,hro,mem_append]
   constructor
   · rintro (hk|hc)
     · exact hl id hid e (mem_findEdgesByFile.mpr (mem_of_mem_filter hk))
     · exact hl id hid e (mem_findEdgesByFile.mpr (hco _ hc).1)
   · intro he
     have hm:=h.linked id hid e he
     by_cases hc : id∈contractChanged
     · refine .inr (mem_flatMap.mpr ⟨id,hid,mem_ownImports.mpr ⟨?_,rfl,?_⟩⟩)
       · exact mem_findEdgesByFile.mp hm
       · exact h.contract id hc e hm
     · exact .inl (mem_filter.mpr ⟨mem_findEdgesByFile.mp hm,by simpa using hc⟩)

end

/-- The edges that `process_and_write_file` last linked for a file, as stored. -/
def RunState.linkedEdges (env : Env) (plan : RunPlan) (st : RunState) (key : FileKey) :
 List GraphEdge :=
 match st.writes.find? fun w => w.planned.key = key with
 | some w => (plan.edgesFor env w.planned w.before).map storedEdge
 | none => []

def RunState.changedKeys (st : RunState) : List FileKey := st.changedFiles.rows.map Prod.fst

def RunState.contractKeys (st : RunState) : List FileKey := st.contractChanged.rows.map Prod.fst

section
variable {env : Env} {plan : RunPlan} {db db' : Db}
 {file : File} {st : RunState} {Marks : FileKey → File → Prop}
 {symbols : List Symbol} {chunks : List Chunk} {edges : List GraphEdge} {hasExisting : Bool}
  {w : WriteRecord} {outcome : ProcessOutcome} {key : FileKey} {x y : RunState × Db}
   {st' : RunState}

theorem Db.Written.findEdges (ho:db.EdgesOwned)
 (hw:db.Written db' file symbols chunks edges hasExisting)
 (he:e∈db'.findEdgesByFile id) :
 (id=fileKeyForFile file ∧ e∈edges.map storedEdge) ∨
  (id≠fileKeyForFile file ∧ e∈db.findEdgesByFile id) := by
 rw [mem_findEdgesByFile,hw.edges] at he
 rcases mem_append.mp he with he|he
 · obtain ⟨hr,hkept⟩:=mem_filter.mp he
   refine .inr ⟨fun hid=>?_,mem_findEdgesByFile.mpr hr⟩
   rw [Db.keptByWrite,startsInFile_owned ho hr] at hkept
   simp [hid] at hkept
 · obtain ⟨e',he',heq⟩:=Db.mem_ownedRows.mp he
   cases heq
   exact .inl ⟨rfl,mem_map.mpr ⟨e',he',rfl⟩⟩

theorem Db.Written.findEdges_self (ho:db.EdgesOwned)
 (hw:db.Written db' file symbols chunks edges hasExisting) :
 e∈db'.findEdgesByFile (fileKeyForFile file) ↔ e∈edges.map storedEdge := by
 constructor
 · intro he
   rcases hw.findEdges ho he with ⟨-,h⟩|⟨h,-⟩
   · exact h
   · exact absurd rfl h
 · intro he
   obtain ⟨e',he',rfl⟩:=mem_map.mp he
   rw [mem_findEdgesByFile,hw.edges]
   exact mem_append_right _ (Db.mem_ownedRows.mpr ⟨e',he',rfl⟩)

/-- Along a run: edges have their owners, contract changes are changes, and a
 changed file owns no edge that was not linked for it. -/
structure LinksRecorded (env : Env) (plan : RunPlan) (x : RunState × Db) : Prop where
 owned : x.2.EdgesOwned
 contract : ∀ key ∈ x.1.contractKeys,key ∈ x.1.changedKeys
 linked : ∀ key ∈ x.1.changedKeys,∀ e ∈ x.2.findEdgesByFile key,
  e ∈ x.1.linkedEdges env plan key

theorem linkedEdges_recordOutcome (st : RunState) (w : WriteRecord) (outcome : ProcessOutcome)
 (key : FileKey) : (recordOutcome st w outcome).linkedEdges env plan key =
  if key=w.planned.key then (plan.edgesFor env w.planned w.before).map storedEdge
  else st.linkedEdges env plan key := by
 have hwr:(recordOutcome st w outcome).writes=w::st.writes:=rfl
 unfold RunState.linkedEdges
 rw [hwr]
 by_cases hk : key=w.planned.key
 · simp [hk]
 · simp [hk,Ne.symm hk]

theorem mem_changedKeys_recordOutcome :
 key∈(recordOutcome st w outcome).changedKeys ↔
  key=w.planned.key ∨ key∈st.changedKeys :=
 Table.mem_keys_upsert

theorem mem_contractKeys_recordOutcome :
 key∈(recordOutcome st w outcome).contractKeys ↔
  (outcome.delta.contractChanged=true ∧ key=w.planned.key) ∨ key∈st.contractKeys := by
 have hco:(recordOutcome st w outcome).contractChanged =
  if outcome.delta.contractChanged then
   st.contractChanged.upsert (w.planned.key,outcome.persistedFile)
  else st.contractChanged := rfl
 unfold RunState.contractKeys
 rw [hco]
 by_cases hc : outcome.delta.contractChanged=true
 · rw [if_pos hc,Table.mem_keys_upsert]
   exact or_congr_left ⟨fun hk=>⟨hc,hk⟩,And.right⟩
 · rw [if_neg hc]
   exact ⟨.inr,fun h=>h.resolve_left fun hk=>hc hk.1⟩

theorem plannedWrite_writable (p : PlannedFile) : WritableEdges env db
 (fileKeyForFile (plan.outcome env p).persistedFile) (plan.edgesFor env p db) := by
 have hk:fileKeyForFile (plan.outcome env p).persistedFile=p.key:=processOutcome_key ..
 rw [hk]
 exact .inr ⟨plan.roots,plan.snapshot,_,_,factsOf_local env plan.roots p.candidate,rfl⟩

theorem Db.EdgesOwned.planStep (h:x.2.EdgesOwned) (hst:PlanStep env plan Marks x y) :
 y.2.EdgesOwned := by
 cases hst with
 | planned p hc hw => exact (edgesOwned_stable env).written h trivial (plannedWrite_writable p) hw
 | hashFailed c hc hw =>
  obtain ⟨_,_,-,-,hw⟩:=hw
  exact (edgesOwned_stable env).written h trivial (.inl rfl) hw
 | notCurrent key file message reason he hm hw =>
  exact (edgesOwned_stable env).written h trivial (.inl rfl) hw
 | counted => exact h
 | deleted key file he hd => exact (edgesOwned_stable env).deleted h
 | retained hr =>
  intro r hm
  rw [hr.edges] at hm
  exact h r hm

theorem LinksRecorded.shrink (h:LinksRecorded env plan (st,db))
 (ho:db'.EdgesOwned) (hw:st'.writes=st.writes)
 (hc:st'.changedFiles=st.changedFiles) (hk:st'.contractChanged=st.contractChanged)
 (hsu:∀key,∀e∈db'.findEdgesByFile key,e∈db.findEdgesByFile key) :
 LinksRecorded env plan (st',db') := by
 refine ⟨ho,?_,?_⟩
 · unfold RunState.contractKeys RunState.changedKeys
   rw [hc,hk]
   exact h.contract
 · unfold RunState.changedKeys RunState.linkedEdges
   rw [hc,hw]
   exact fun key hm e he=>h.linked key hm e (hsu key e he)

theorem LinksRecorded.wiped (h:LinksRecorded env plan (st,db))
 (ho:db'.EdgesOwned) (hw:st'.writes=st.writes)
 (hc:st'.changedFiles=st.changedFiles) (hk:st'.contractChanged=st.contractChanged)
 (hwr:db.Written db' file [] [] [] true) :
 LinksRecorded env plan (st',db') := by
 refine h.shrink ho hw hc hk fun key e he=>?_
 rcases hwr.findEdges h.owned he with ⟨-,hm⟩|⟨-,hm⟩
 · simp at hm
 · exact hm

theorem LinksRecorded.step (h:LinksRecorded env plan x) (hst:PlanStep env plan Marks x y) :
 LinksRecorded env plan y := by
 have ho:=h.owned.planStep hst
 cases hst with
 | planned p hc hw =>
  have hke:fileKeyForFile (plan.outcome env p).persistedFile=p.key:=processOutcome_key ..
  refine ⟨ho,fun key hk=>?_,fun key hk e he=>?_⟩
  · rw [mem_changedKeys_recordOutcome]
    rcases mem_contractKeys_recordOutcome.mp hk with ⟨-,hk⟩|hk
    · exact .inl hk
    · exact .inr (h.contract key hk)
  · rw [linkedEdges_recordOutcome]
    rcases hw.findEdges h.owned he with ⟨hid,hm⟩|⟨hid,hm⟩
    · rw [hke] at hid
      rwa [if_pos hid]
    · rw [hke] at hid
      rw [if_neg hid]
      exact h.linked key ((mem_changedKeys_recordOutcome.mp hk).resolve_left hid) e hm
 | hashFailed c hc hw =>
  obtain ⟨_,_,-,-,hw⟩:=hw
  exact h.wiped ho rfl rfl rfl hw
 | notCurrent key file message reason he hm hw => exact h.wiped ho rfl rfl rfl hw
 | counted => exact h.shrink ho rfl rfl rfl fun _ _ he=>he
 | deleted key file he hd =>
  refine h.shrink ho rfl rfl rfl fun key e he=>?_
  rw [mem_findEdgesByFile] at he ⊢
  exact mem_of_mem_filter (mem_of_mem_filter (mem_of_mem_filter he))
 | retained hr =>
  refine h.shrink ho rfl rfl rfl fun key e he=>?_
  rwa [mem_findEdgesByFile,hr.edges,←mem_findEdgesByFile] at he

theorem LinksRecorded.steps (h:LinksRecorded env plan x) (hst:PlanSteps env plan Marks x y) :
 LinksRecorded env plan y := by
 induction hst with
 | refl => exact h
 | tail _ hste ih => exact ih.step hste

theorem Settles.linksRecorded (hdb:db.EdgesOwned)
 (h:Settles env db plan st mid) : LinksRecorded env plan (st,mid.db) := by
 obtain ⟨start,Marks,hs,hst⟩:=h.steps
 refine LinksRecorded.steps ⟨(edgesOwned_stable env).same hdb hs,?_,?_⟩ hst
 · simp [RunState.contractKeys,RunState.start]
 · simp [RunState.changedKeys,RunState.start]

end

def relinksContract (plan : RunPlan) (st : RunState) : Bool :=
 !decide (st.indexed = [] ∧ plan.dirty.toDelete = []) && !contentOnlyIncremental plan st &&
  decide (plan.dirty.toDelete = [] ∧ st.contractChanged.rows≠[])

theorem relinkRun_contract {s t : Store} {u : Unit}
 (hb:relinksContract plan st=true) (h:Yields (relinkRun env plan st) s u t) :
 s.db.relinkContractChangedFiles (env.order .relinkChanged st.changedKeys)
  (env.order .relinkContract st.contractKeys) = .ok t.db := by
 simp only [relinksContract,Bool.and_eq_true,Bool.not_eq_true',decide_eq_false_iff_not,
  decide_eq_true_eq] at hb
 unfold relinkRun at h
 rw [if_neg hb.1.1,if_neg (by simp [hb.1.2]),if_pos hb.2] at h
 exact yields_commit h

/-- The relink of contract changes leaves distinct rows and the edges that the run
 linked exactly when the state before it is relinkable: nothing linked was taken
 away since, contract-changed files own resolved imports only, other changed files
 own none, and none leads to a contract-changed file. -/
theorem relinkContract_holdsLinks_iff {env : Env} {db : Db} {plan : RunPlan} {st : RunState}
 {mid t : Store} (hdb : Arises db) (hrun : Settles env db plan st mid)
 (hbranch : relinksContract plan st = true) (hrel : Yields (relinkRun env plan st) mid () t) :
 t.db.HoldsLinks (st.changedKeys++st.contractKeys) (st.linkedEdges env plan) ↔
  mid.db.Relinkable st.changedKeys st.contractKeys (st.linkedEdges env plan) := by
 have hrec:=hrun.linksRecorded (edgesOwned_of_arises hdb)
 have hok:=relinkRun_contract hbranch hrel
 have hsu:∀id∈env.order .relinkContract st.contractKeys,
  id∈env.order .relinkChanged st.changedKeys := by
  simpa using hrec.contract
 have hl:∀id∈env.order .relinkChanged st.changedKeys,
  ∀e∈mid.db.findEdgesByFile id,e∈st.linkedEdges env plan id := by
  simpa using hrec.linked
 have hn:(env.order .relinkChanged st.changedKeys).Nodup:=
  (env.order_perm _ _).nodup_iff.mpr st.changedFiles.nodup
 constructor
 · intro h
   have h':=Db.HoldsLinks.relinkable hrec.owned hsu hl hok
    ⟨h.distinct,fun id hid=>h.linked id (mem_append_left _ (by simpa using hid))⟩
   refine ⟨h'.distinct,?_,?_,?_,?_⟩
   · simpa using h'.linked
   · simpa using h'.contract
   · simpa using h'.changed
   · simpa using h'.incoming
 · intro h
   have h':=Db.Relinkable.holdsLinks hrec.owned hn
    hl hok ⟨h.distinct,by simpa using h.linked,by simpa using h.contract,
     by simpa using h.changed,by simpa using h.incoming⟩
   refine ⟨h'.distinct,fun id hid=>h'.linked id ?_⟩
   rw [mem_order]
   exact (mem_append.mp hid).elim (fun hm=>hm) (hrec.contract id)

section

def importingParser : Parser :=
 .ofTable
  [("a1",{ SourceSketch.blank with imports := [("./b","g",false)] }),
   ("a2",{ SourceSketch.blank with
    imports := [("./b","g",false)],symbols := [("h",0,10)] }),
   ("b1",{ SourceSketch.blank with symbols := [("g",0,10)] }),
   ("b2",{ SourceSketch.blank with symbols := [("k",0,10)] })]
  [("./b",["w","b.ts"])]

def importingFiles (a b : String) (mtimeA mtimeB : Int) : Env :=
 .plain importingParser (.ofFiles ⟨[⟨["w","a.ts"],10,mtimeA,a,.readable⟩,
  ⟨["w","b.ts"],10,mtimeB,b,.readable⟩],by simp⟩)

def importsIndexed : Db :=
 (Call.indexWorkspace (importingFiles "a1" "b1" 1 1) wholeWorkspace).result .empty

theorem importsIndexed_arises : Arises importsIndexed :=
 .call (.indexWorkspace (importingFiles "a1" "b1" 1 1) wholeWorkspace) none .empty

def settling (env : Env) : IndexM RunState :=
 settledWorkspace env (requestPlan env wholeWorkspace importsIndexed)

def settled (env : Env) : Store := (settling env ⟨importsIndexed,none⟩).2

def relinking (env : Env) (st : RunState) : IndexM Unit :=
 relinkRun env (requestPlan env wholeWorkspace importsIndexed) st

def editedImporter : Env := importingFiles "a2" "b1" 2 1

theorem editedImporter_settles :
 (value (settling editedImporter) ⟨importsIndexed,none⟩).isSome := by decide +kernel

def importerRun : RunState :=
 (value (settling editedImporter) ⟨importsIndexed,none⟩).get editedImporter_settles

def importerRelinked : Store := (relinking editedImporter importerRun (settled editedImporter)).2

theorem editedImporter_state : importerRelinked.db.edges≠[] ∧
 relinksContract (requestPlan editedImporter wholeWorkspace importsIndexed) importerRun=true ∧
 succeeds (relinking editedImporter importerRun) (settled editedImporter)=true ∧
 ((settled editedImporter).db.edges.map EdgeRow.key).Nodup ∧
 (∀id∈importerRun.changedKeys,∀e∈importerRun.linkedEdges editedImporter
  (requestPlan editedImporter wholeWorkspace importsIndexed) id,
   e∈(settled editedImporter).db.findEdgesByFile id) ∧
 (∀id∈importerRun.contractKeys,∀e∈(settled editedImporter).db.findEdgesByFile id,
  isResolvedImport e=true) ∧
 (∀id∈importerRun.changedKeys,id ∉ importerRun.contractKeys →
  ∀e∈(settled editedImporter).db.findEdgesByFile id,isResolvedImport e=false) ∧
 ∀id∈importerRun.contractKeys,
  ∀e∈(settled editedImporter).db.findIncomingEdges id 200000,isResolvedImport e=false := by
 decide +kernel

/-- The importer gains a symbol: its import is all it owns, and the relink keeps it. -/
theorem editedImporter_holdsLinks : importerRelinked.db.edges≠[] ∧
 importerRelinked.db.HoldsLinks (importerRun.changedKeys++importerRun.contractKeys)
  (importerRun.linkedEdges editedImporter
   (requestPlan editedImporter wholeWorkspace importsIndexed)) := by
 have hse:Settles editedImporter importsIndexed
  (requestPlan editedImporter wholeWorkspace importsIndexed) importerRun
  (settled editedImporter) :=
  .of_workspace (yields_value editedImporter_settles)
 obtain ⟨hne,hb,hvalue,hdi,hl,hco,hch,hi⟩:=
  editedImporter_state
 have hr:Yields (relinking editedImporter importerRun) (settled editedImporter) ()
  importerRelinked := (yields_of_succeeds hvalue).choose_spec
 exact ⟨hne,(relinkContract_holdsLinks_iff importsIndexed_arises hse hb hr).mpr
  ⟨hdi,hl,hco,hch,hi⟩⟩

def editedExporter : Env := importingFiles "a1" "b2" 1 2

theorem editedExporter_settles :
 (value (settling editedExporter) ⟨importsIndexed,none⟩).isSome := by decide +kernel

def exporterRun : RunState :=
 (value (settling editedExporter) ⟨importsIndexed,none⟩).get editedExporter_settles

def exporterRelinked : Store := (relinking editedExporter exporterRun (settled editedExporter)).2

theorem editedExporter_state : (importsIndexed.edges.map EdgeRow.key).Nodup ∧
 relinksContract (requestPlan editedExporter wholeWorkspace importsIndexed) exporterRun=true ∧
 ((settled editedExporter).db.edges.map EdgeRow.key).Nodup ∧
 succeeds (relinking editedExporter exporterRun) (settled editedExporter)=true ∧
 ¬(exporterRelinked.db.edges.map EdgeRow.key).Nodup := by
 decide +kernel

/-- The exporter changes its public symbols: its importer is extracted again, and the
 relink stores the import more than once. -/
theorem relinkContract_duplicates :
 Arises importsIndexed ∧ importsIndexed.EdgeKeysDistinct ∧
 Settles editedExporter importsIndexed
  (requestPlan editedExporter wholeWorkspace importsIndexed) exporterRun
  (settled editedExporter) ∧
 relinksContract (requestPlan editedExporter wholeWorkspace importsIndexed) exporterRun = true ∧
 (settled editedExporter).db.EdgeKeysDistinct ∧
 Yields (relinking editedExporter exporterRun) (settled editedExporter) () exporterRelinked ∧
 ¬ exporterRelinked.db.EdgeKeysDistinct := by
 obtain ⟨hst,hb,hdi,hvalue,haf⟩:=editedExporter_state
 exact ⟨importsIndexed_arises,hst,.of_workspace (yields_value editedExporter_settles),
  hb,hdi,(yields_of_succeeds hvalue).choose_spec,haf⟩

end

end DhKit.Indexer
