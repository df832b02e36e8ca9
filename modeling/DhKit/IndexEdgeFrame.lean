import DhKit.IndexEdgeReuse

/-!
# What a run does to the edges of files it does not index

A write removes every edge that ends in a stored symbol of its file.
-/
namespace DhKit.Indexer
open KeyedTables CommitRules List

def Db.symbolIdsOf (db : Db) (key : FileKey) : List SymbolId :=
 (db.findSymbolsByFile key).map Symbol.id

/-- The edges of the files that a run has not written, after it has written others:
 those that end in no symbol which a written file had. -/
structure EdgeFates (db0 : Db) (written : List FileKey) (db : Db) : Prop where
 owned : db.EdgesOwned
 same : ∀ key ∉ written,db0.SameAt db key
 rows : ∀ r : EdgeRow,r.sourceFileId ∉ written → (r ∈ db.edges ↔
  r ∈ db0.edges ∧ ∀ key ∈ written,Db.touchesSymbol (db0.symbolIdsOf key) r.edge = false)

section
variable {env : Env} {plan : RunPlan} {db0 db db' : Db} {written : List FileKey}
 {file : File} {key : FileKey} {done : List FileKey}
 {written' : List FileKey} {p : PlannedFile} {queue : List PlannedFile}

theorem EdgeFates.start (ho:db0.EdgesOwned) (h:db0.SameTables db) : EdgeFates db0 [] db := by
 refine ⟨fun r hr=>ho r (h.edges ▸ hr),fun key _=>h.sameAt key,fun r _=>?_⟩
 simp [h.edges]

theorem EdgeFates.write {symbols : List Symbol} {chunks : List Chunk}
 {edges : List GraphEdge} {hasExisting : Bool}
 (h:EdgeFates db0 written db) (hke:fileKeyForFile file=key)
 (hw:db.Written db' file symbols chunks edges hasExisting)
 (ho:db'.EdgesOwned)
 (hs:∀s∈symbols,s.fileId=key) (hc:∀c∈chunks,c.fileId=key)
 (hf:key∈written → db.findSymbolsByFile key=[])
 (hn:hasExisting=false → db0.findSymbolsByFile key=[]) :
 EdgeFates db0 (key::written) db' := by
 subst hke
 refine ⟨ho,fun k hk=>?_,fun r hr=>?_⟩
 · rw [mem_cons,not_or] at hk
   exact (h.same k hk.2).trans (hw.sameAt hs hc hk.1)
 rw [mem_cons,not_or] at hr
 have hol:∀e : GraphEdge,((∀k∈fileKeyForFile file::written,
  Db.touchesSymbol (db0.symbolIdsOf k) e=false) ↔
  (hasExisting && Db.touchesSymbol ((db.findSymbolsByFile (fileKeyForFile file)).map
   Symbol.id) e)=false ∧
  ∀k∈written,Db.touchesSymbol (db0.symbolIdsOf k) e=false) := by
  intro e
  rw [forall_mem_cons]
  by_cases hm : fileKeyForFile file∈written
  · rw [hf hm]
    simp only [Db.touchesSymbol,map_nil,any_nil,Bool.and_false,true_and]
    exact ⟨fun hh=>hh.2,fun hh=>⟨hh _ hm,hh⟩⟩
  rw [(h.same _ hm).symbols]
  refine and_congr_left fun _=>?_
  cases hasExisting with
  | true => rw [Bool.true_and]; rfl
  | false => simp [Db.symbolIdsOf,hn rfl,Db.touchesSymbol]
 have hrow:r∈db'.edges ↔ r∈db.edges ∧
  (hasExisting && Db.touchesSymbol ((db.findSymbolsByFile (fileKeyForFile file)).map
   Symbol.id) r.edge)=false := by
  rw [hw.edges,mem_append,mem_filter]
  constructor
  · rintro (⟨hm,hkept⟩|hm)
    · simp only [Db.keptByWrite,Bool.and_eq_true,Bool.not_eq_true'] at hkept
      exact ⟨hm,hkept.1⟩
    · obtain ⟨e,-,rfl⟩:=Db.mem_ownedRows.mp hm
      exact absurd rfl hr.1
  · rintro ⟨hm,hto⟩
    refine .inl ⟨hm,?_⟩
    rw [Db.keptByWrite,hto,startsInFile_owned h.owned hm]
    simpa using hr.1
 rw [hrow,hol,h.rows r hr.2]
 tauto

theorem EdgeFates.congr (h:EdgeFates db0 written db)
 (hw:∀key,key∈written ↔ key∈written') : EdgeFates db0 written' db := by
 refine ⟨h.owned,fun key hk=>h.same key ((hw key).not.mpr hk),fun r hr=>?_⟩
 rw [h.rows r ((hw _).not.mpr hr)]
 simp only [hw]

def BlankUnless (done written : List FileKey) (db : Db) : Prop :=
 ∀ key ∈ written,key ∉ done → db.findSymbolsByFile key = []

theorem noSymbols_of_noRow (hp:plan.For env db0)
 (hn:plan.existing.get key=none) : db0.findSymbolsByFile key=[] := by
 refine eq_nil_iff_forall_not_mem.mpr fun s hs=>?_
 obtain ⟨hs,hk⟩:=mem_filter.mp hs
 obtain ⟨f,hf,hfk⟩:=mem_map.mp (db0.symbolFiles s hs)
 rw [(hp.existing key f).mpr ⟨hf,hfk.trans (of_decide_eq_true hk)⟩] at hn
 cases hn

theorem EdgeFates.planned (hpl:plan.For env db0)
 (h:EdgeFates db0 written db) (hb:BlankUnless done written db) (hp:p.key ∉ done)
 (hw:plan.PlannedWrite env p db db') :
 EdgeFates db0 (p.key::written) db' ∧ BlankUnless (p.key::done) (p.key::written) db' := by
 have ho:=(edgesOwned_stable env).written h.owned trivial (plannedWrite_writable p) hw
 have hl:=factsOf_local env plan.roots p.candidate
 refine ⟨h.write (RunPlan.outcome_key p) hw ho hl.symbol_file hl.chunk_file
  (fun hm=>hb _ hm hp) (fun hn=>noSymbols_of_noRow hpl (by simpa using hn)),
  fun k hk hd=>?_⟩
 rw [mem_cons,not_or] at hd
 rw [(PlannedWrite.sameAt hw hd.1).symbols]
 exact hb k ((mem_cons.mp hk).resolve_left hd.1) hd.2

theorem EdgeFates.wiped (h:EdgeFates db0 written db) (hb:BlankUnless done written db)
 (hk:key ∉ done)
 (hw:db.Written db' file [] [] [] true) (hke:fileKeyForFile file=key) :
 EdgeFates db0 (key::written) db' ∧ BlankUnless done (key::written) db' := by
 have ho:db'.EdgesOwned:=by
  intro r hr
  rw [hw.edges,Db.ownedRows,map_nil,append_nil] at hr
  exact h.owned r (mem_of_mem_filter hr)
 refine ⟨h.write hke hw ho (by simp) (by simp) (fun hm=>hb _ hm hk) (by simp),
  fun k hm hd=>?_⟩
 by_cases he : k=key
 · rw [hw.symbolsOf (by simp),if_pos (he.trans hke.symm)]
   rfl
 · rw [(hw.sameAt (by simp) (by simp) (hke ▸ he)).symbols]
   exact hb k ((mem_cons.mp hm).resolve_left he) hd

section
variable {st st' : RunState} {s t : Store} {Marked : FileKey → Prop}

theorem BlankUnless.mono {done' : List FileKey} (h:BlankUnless done written db)
 (hw:∀key∈written',key∈written) (hd:∀key∈done,key∈done') :
 BlankUnless done' written' db :=
 fun key hk hn=>h key (hw key hk) fun hm=>hn (hd key hm)

theorem indexPlanned_edgeFates (hp:plan.For env db0) (ho:db0.EdgesOwned)
 (hn:(plan.dirty.toIndex.map PlannedFile.key).Nodup) (hs:db0.SameTables s.db)
 (h:Yields (plan.dirty.toIndex.foldlM (indexPlanned env plan) .start) s st t) :
 EdgeFates db0 st.indexed t.db ∧ BlankUnless st.indexed st.indexed t.db := by
 have H:=foldlM_induct _ (fun rest st u=>(EdgeFates db0 st.indexed u.db ∧
  BlankUnless st.indexed st.indexed u.db) ∧ (rest.map PlannedFile.key).Nodup ∧
  ∀p∈rest,p.key ∉ st.indexed) _ ?_
  ⟨⟨.start ho hs,fun _ hk=>absurd hk (by simp [RunState.start])⟩,hn,
   by simp [RunState.start]⟩ h
 · exact H.1
 rintro p rest st1 u st2 v-⟨⟨hI,hb⟩,hn,hr⟩ hst
 obtain ⟨rfl,hw⟩:=indexPlanned_yields hst
 obtain ⟨hI',hb'⟩:=hI.planned hp hb (hr p mem_cons_self) hw
 obtain ⟨hf,hn⟩:=nodup_cons.mp hn
 have hme:∀key,key∈p.key::st1.indexed ↔
  key∈(recordOutcome st1 ⟨p,u.db⟩ (plan.outcome env p)).indexed := by
  intro key
  rw [mem_cons,or_comm]
  exact mem_pushUnique.symm
 refine ⟨⟨hI'.congr hme,hb'.mono (fun k hk=>(hme k).mpr hk)
  (fun k hk=>(hme k).mp hk)⟩,hn,fun q hq hm=>?_⟩
 rcases mem_cons.mp ((hme _).mpr hm) with hk|hk
 · exact hf (mem_map.mpr ⟨q,hq,hk⟩)
 · exact hr q (mem_cons_of_mem _ hq) hk

/-- The written files of a run are those it indexed, or those that its expansion
 marked before they were extracted again. -/
def RunEdgeFates (db0 : Db) (done indexed : List FileKey) (Marked : FileKey → Prop) (db : Db) :
 Prop :=
 ∃ written,EdgeFates db0 written db ∧ BlankUnless done written db ∧
  (∀ key ∈ indexed,key ∈ written) ∧ ∀ key ∈ written,key ∈ indexed ∨ Marked key

theorem RunEdgeFates.hashFailed (hp:plan.For env db0)
 {c : FileCandidate} (h:RunEdgeFates db0 done st.indexed Marked db)
 (hc:fileKeyForCandidate c ∉ done) (hw:HashFailedWrite env plan c db db') :
 RunEdgeFates db0 done (recordFailure st (fileKeyForCandidate c)).indexed Marked db' := by
 obtain ⟨written,hI,hb,hsu,hma⟩:=h
 obtain ⟨message,existing,-,he,hw⟩:=hw
 obtain ⟨hI',hb'⟩:=hI.wiped hb hc hw ((hp.existing _ existing).mp he).2
 refine ⟨_,hI',hb',fun key hk=>?_,fun key hk=>?_⟩
 · rcases mem_pushUnique.mp hk with hk|rfl
   · exact mem_cons_of_mem _ (hsu key hk)
   · exact mem_cons_self
 · rcases mem_cons.mp hk with rfl|hk
   · exact .inl (mem_pushUnique.mpr (.inr rfl))
   · exact (hma key hk).imp_left fun hm=>mem_pushUnique.mpr (.inl hm)

theorem markHashFailed_edgeFates (hp:plan.For env db0)
 (h:Yields (plan.candidates.foldlM (markHashFailed env plan) st) s st' t)
 (hI:RunEdgeFates db0 st.indexed st.indexed Marked s.db) :
 RunEdgeFates db0 st.indexed st'.indexed Marked t.db ∧
  ∀key∈st.indexed,key∈st'.indexed := by
 refine foldlM_invariant _ (fun st' u=>RunEdgeFates db0 st.indexed st'.indexed Marked u.db ∧
  ∀key∈st.indexed,key∈st'.indexed) _ ?_ ⟨hI,fun _ hk=>hk⟩ h
 rintro c st1 u st2 v-⟨hI,hmo⟩ hst
 rcases markHashFailed_yields hst with ⟨-,rfl,rfl⟩|⟨hc,rfl,hw⟩
 · exact ⟨hI,hmo⟩
 · exact ⟨hI.hashFailed hp (fun hm=>hc (hmo _ hm)) hw,
    fun key hk=>mem_pushUnique.mpr (.inl (hmo key hk))⟩

def MarkedIn (plan : RunPlan) (queued : List FileKey) (key : FileKey) : Prop :=
 ∃ file,plan.existing.get key = some file ∧ file.deletedAtUnixMs = none ∧
  (key ∉ plan.scannedKeys ∨ key ∈ queued)

theorem Expands.edgeFates (hp:plan.For env db0) {initial forced indexed : List FileKey}
 (hli:∀key file,Markable (expansionInput plan initial) forced key file →
  file.deletedAtUnixMs=none)
 {x y : RefreshQueue × Db} (h:Expands env (expansionInput plan initial) forced x y)
 (hI:RunEdgeFates db0 initial indexed (MarkedIn plan x.1.queued) x.2) :
 RunEdgeFates db0 initial indexed (MarkedIn plan y.1.queued) y.2 := by
 induction h with
 | refl => exact hI
 | tail _ hst ih =>
  obtain ⟨written,hI,hb,hsu,hma⟩:=ih
  have hgr:∀ {q q' : List FileKey},(∀k∈q,k∈q') → ∀key,MarkedIn plan q key →
   MarkedIn plan q' key := by
   rintro q q' hq key ⟨file,he,hl,hm⟩
   exact ⟨file,he,hl,hm.imp_right (hq key)⟩
  cases hst with
  | queued level key hq =>
   obtain ⟨-,-,candidate,-,rfl⟩:=queueCandidateForRefresh_eq_some hq
   exact ⟨written,hI,hb,hsu,fun k hk=>(hma k hk).imp_right
    (hgr (fun k hm=>mem_pushUnique.mpr (.inl hm)) k)⟩
  | marked key file message reason hm hq hw =>
   obtain ⟨hI',hb'⟩:=hI.wiped hb hm.not_indexed hw
    ((hp.existing key file).mp hm.existing).2
   refine ⟨_,hI',hb',fun k hk=>mem_cons_of_mem _ (hsu k hk),fun k hk=>?_⟩
   rcases mem_cons.mp hk with rfl|hk
   · exact .inr ⟨file,hm.existing,hli _ file hm,hq.imp_left scanned_get_none.mp⟩
   · exact hma k hk

theorem refreshQueued_edgeFates (hpl:plan.For env db0)
 (h:Yields (queue.foldlM (refreshQueued env plan) st) s st' t)
 (hI:RunEdgeFates db0 st.indexed st.indexed Marked s.db) :
 RunEdgeFates db0 st'.indexed st'.indexed Marked t.db := by
 refine foldlM_invariant _ (fun st' u=>RunEdgeFates db0 st'.indexed st'.indexed Marked u.db) _ ?_
  hI h
 rintro p st1 u st2 v-hI hst
 rcases refreshQueued_yields hst with ⟨-,rfl,rfl⟩|⟨hp,rfl,hw⟩|⟨hp,rfl,hw⟩
 · exact hI
 · obtain ⟨written,hI,hb,hr⟩:=hI.hashFailed hpl hp hw
   exact ⟨written,hI,hb.mono (fun _ hk=>hk)
    (fun key hk=>mem_pushUnique.mpr (.inl hk)),hr⟩
 obtain ⟨written,hI,hb,hsu,hma⟩:=hI
 obtain ⟨hI',hb'⟩:=hI.planned hpl hb hp hw
 have hme:∀key,key∈(recordOutcome st1 ⟨p,u.db⟩ (plan.outcome env p)).indexed ↔
  key∈p.key::st1.indexed := by
  intro key
  rw [mem_cons,or_comm]
  exact mem_pushUnique
 refine ⟨_,hI',hb'.mono (fun _ hk=>hk) (fun key hk=>(hme key).mpr hk),
  fun key hk=>?_,fun key hk=>?_⟩
 · exact ((mem_cons.mp ((hme key).mp hk)).imp_right (hsu key)).elim
    (fun he=>he ▸ mem_cons_self) (mem_cons_of_mem _)
 · rcases mem_cons.mp hk with rfl|hk
   · exact .inl ((hme _).mpr mem_cons_self)
   · exact (hma key hk).imp_left fun hm=>(hme key).mpr (mem_cons_of_mem _ hm)

theorem settleRun_no_deletes (hde:plan.dirty.toDelete=[])
 (h:Yields (settleRun env plan st) s st' t) :
 st'.indexed=st.indexed ∧ RetainedSoFar env st.indexed s.db [] t.db := by
 simp only [settleRun,hde,foldlM_nil,yields_bind,yields_pure] at h
 obtain ⟨_,_,⟨rfl,rfl⟩,counters,s2,hr,rfl,rfl⟩:=h
 exact ⟨rfl,refreshUnchangedFiles_retained hr⟩

theorem settledWorkspace_edgeFates (hpl:plan.For env db0) (ho:db0.EdgesOwned)
 (hn:(plan.dirty.toIndex.map PlannedFile.key).Nodup)
 (hde:plan.dirty.toDelete=[]) (hs:db0.SameTables s.db)
 (h:Yields (settledWorkspace env plan) s st t) :
 ∃db,EdgeFates db0 st.indexed db ∧ RetainedSoFar env st.indexed db [] t.db := by
 obtain ⟨st1,st2,st3,s1,s2,s3,s4,q,ph⟩:=settledWorkspace_phases hpl h
 obtain ⟨f1,b1⟩:=indexPlanned_edgeFates hpl ho hn hs ph.planned
 obtain ⟨f2,hmo⟩ : RunEdgeFates db0 st1.indexed st2.indexed (MarkedIn plan []) s2.db ∧ _ :=
  markHashFailed_edgeFates hpl ph.failed ⟨_,f1,b1,fun _ hk=>hk,fun _ hk=>Or.inl hk⟩
 have hli:∀key file,Markable (expansionInput plan st1.indexed)
  (confirmedChanges plan [] st2).allRoots key file → file.deletedAtUnixMs=none := by
  intro key file hm
  simpa [ForcedMarks] using markable_forced hpl ph.tracked hm
 obtain ⟨written,hI,hb,hsu,hma⟩:=ph.expands.edgeFates hpl hli f2
 have f3:RunEdgeFates db0 st2.indexed st2.indexed (MarkedIn plan q.queued) s3.db:=
  ⟨written,hI,hb.mono (fun _ hk=>hk) hmo,hsu,hma⟩
 obtain ⟨written,hI,-,hsu,hma⟩:=refreshQueued_edgeFates hpl ph.drained f3
 -- every file that was marked was queued, and the queue is drained
 have hwritten:∀key,key∈written ↔ key∈st3.indexed:=by
  refine fun key=>⟨fun hk=>(hma key hk).elim id ?_,hsu key⟩
  rintro ⟨file,he,hl,hm⟩
  have hsc:=hpl.scanned_of_live hde he hl
  obtain ⟨p,hp,rfl⟩:=mem_map.mp
   (ph.queued_mem key (hm.resolve_left (not_not.mpr hsc)))
  exact (refreshQueued_indexed ph.drained).2 p hp (by simp [he])
 obtain ⟨hi,hsa⟩:=settleRun_no_deletes hde ph.settled
 rw [←hi] at hwritten hsa
 exact ⟨s4.db,hI.congr hwritten,hsa⟩

end

section
variable {st : RunState} {s t : Store} {r : EdgeRow}

theorem relinkEdge_resolved {snapshot : WorkspaceSnapshot} {scope : SourceScope} {id : FileId}
 {e : GraphEdge} (h:e.resolution = .resolved) : relinkEdge snapshot scope id e=e := by
 unfold relinkEdge
 rw [h]
 cases e.kind <;> rfl

theorem contractRelink_frame (ho:s.db.EdgesOwned) {changed contractChanged : List FileId}
 (h:s.db.relinkContractChangedFiles changed contractChanged = .ok t.db)
 (hr:r.sourceFileId ∉ contractChanged) : r∈t.db.edges ↔ r∈s.db.edges := by
 rw [relinkContractChangedFiles_rows ho h]
 simp only [mem_append,mem_filter,mem_flatMap]
 constructor
 · rintro (⟨hm,-⟩|⟨id,-,hm⟩|⟨id,-,hm⟩)
   · exact hm
   · exact (mem_ownImports.mp hm).1
   · exact (mem_of_mem_incomingImports hm).1
 · intro hm
   exact .inl ⟨hm,by simpa using hr⟩

theorem relinkEdge_view (snapshot : WorkspaceSnapshot) (scope : SourceScope) (id : FileId)
 (e : GraphEdge) : (relinkEdge snapshot scope id e).view=e.view ∨
 (relinkEdge snapshot scope id e).resolution = .resolved := by
 unfold relinkEdge
 split
 · unfold relinkImportEdge
   grind
 · unfold relinkImportEdge
   grind
 · unfold relinkCallEdge relinkSite
   grind [GraphEdge.view]
 · unfold relinkReferenceEdge relinkSite
   grind [GraphEdge.view]
 · exact .inl rfl

/-- A row of the store is kept, or is relinked against the symbols of the store. -/
theorem linkWorkspace_row {disk : Disk} {root : Path} {rootPaths : HashMap RootId Path}
 (h:db.linkWorkspace disk root rootPaths=some db') (hr:r∈db.edges) :
 r∈db'.edges ∨ ∃scope,⟨r.sourceFileId,storedEdge (relinkEdge (WorkspaceSnapshot.new disk root
  rootPaths db.listFilesByWorkspace db.findSymbolsByWorkspace) scope r.sourceFileId r.edge)⟩ ∈
  db'.edges := by
 by_cases hli : ∃f∈db.files.rows,f.deletedAtUnixMs=none ∧ r.sourceFileId=fileKeyForFile f
 · obtain ⟨f,hf,hl,hk⟩:=hli
   have hmem:r.edge∈db.findEdgesByFile (fileKeyForFile f):=hk ▸ mem_findEdgesByFile.mpr hr
   rw [hk]
   exact .inr ⟨_,((linkWorkspace_some h).2 _).mpr (.inr ⟨f,hf,hl,
    Db.mem_ownedRows.mpr ⟨_,mem_map_of_mem hmem,rfl⟩⟩)⟩
 · exact .inl (((linkWorkspace_some h).2 r).mpr
    (.inl ⟨hr,fun f hf hl hk=>hli ⟨f,hf,hl,hk⟩⟩))

end

theorem PlanSteps.contractKeys_indexed {Marks : FileKey → File → Prop} {x y : RunState × Db}
 (h:PlanSteps env plan Marks x y) (hx:∀key∈x.1.contractKeys,key∈x.1.indexed) :
 ∀key∈y.1.contractKeys,key∈y.1.indexed := by
 induction h with
 | refl => exact hx
 | tail _ hst ih =>
  cases hst with
  | planned p hc hw =>
   intro key hk
   rcases mem_contractKeys_recordOutcome.mp hk with ⟨-,rfl⟩|hk
   · exact mem_pushUnique.mpr (.inr rfl)
   · exact mem_pushUnique.mpr (.inl (ih key hk))
  | hashFailed c hc hw => exact fun key hk=>mem_pushUnique.mpr (.inl (ih key hk))
  | notCurrent | counted | deleted | retained => exact ih

/-- A run that finds nothing changed but one file. -/
structure RunPlan.EditsFile (plan : RunPlan) (key : FileKey) : Prop where
 planned : ∀ p ∈ plan.dirty.toIndex,p.key = key
 once : plan.dirty.toIndex.length ≤ 1
 deletes : plan.dirty.toDelete = []
 failures : ∀ k,(plan.hashed.hashFailures.get k).isSome → k = key

/-- The edited file is read and parsed, and changes neither its contract nor what imports
 resolve to: the run indexes no other file. -/
structure RunPlan.Contained (plan : RunPlan) (env : Env) (key : FileKey) : Prop where
 readable : plan.hashed.hashFailures.get key = none
 row : ∀ p ∈ plan.dirty.toIndex,(plan.existing.get p.key).isSome
 parses : ∀ p ∈ plan.dirty.toIndex,∃ facts,extractCandidate env plan.roots p.candidate = .ok facts
 contract : ∀ p ∈ plan.dirty.toIndex,(plan.outcome env p).delta.contractChanged = false
 scope : ∀ p ∈ plan.dirty.toIndex,isResolutionScopePath p.key.relPath = false

structure RunPlan.ChangesContract (plan : RunPlan) (env : Env) (key : FileKey) : Prop where
 readable : plan.hashed.hashFailures.get key = none
 contract : ∃ p ∈ plan.dirty.toIndex,(plan.outcome env p).delta.contractChanged = true

section
variable {key : FileKey} {st st' : RunState} {s t : Store} {inp : ExpansionInput}
 {q q' : RefreshQueue} {w : WriteRecord} {outcome : ProcessOutcome}

theorem markHashFailed_none {candidates : List FileCandidate}
 (hnone:∀k,plan.hashed.hashFailures.get k=none)
 (h:Yields (candidates.foldlM (markHashFailed env plan) st) s st' t) : st'=st ∧ t=s := by
 refine foldlM_invariant _ (fun st' u=>st'=st ∧ u=s) _ ?_ ⟨rfl,rfl⟩ h
 rintro c _ _ st2 v-⟨rfl,rfl⟩ hst
 rcases markHashFailed_yields hst with ⟨-,rfl,rfl⟩|⟨-,-,message,_,hm,-⟩
 · exact ⟨rfl,rfl⟩
 · rw [hnone] at hm
   cases hm

theorem RunPlan.EditsFile.no_failures (hed:plan.EditsFile key)
 (hread:plan.hashed.hashFailures.get key=none) (k : FileKey) :
 plan.hashed.hashFailures.get k=none := by
 cases h : plan.hashed.hashFailures.get k with
 | none => rfl
 | some message =>
  obtain rfl := hed.failures k (by simp [h])
  rw [hread] at h
  cases h

theorem RunPlan.EditsFile.planned_cases (hed:plan.EditsFile key) :
 plan.dirty.toIndex=[] ∨ ∃p,plan.dirty.toIndex=[p] := by
 have := hed.once
 match hl : plan.dirty.toIndex with
 | [] => exact .inl rfl
 | [p] => exact .inr ⟨p,rfl⟩
 | _::_::_ => simp [hl] at this

theorem not_fatal_of_extracts {facts : ExtractedFacts}
 (h:extractCandidate env plan.roots p.candidate = .ok facts) :
 isFatalFailureInvalidationRoot (plan.outcome env p).persistedFile=false := by
 have hst:(plan.outcome env p).persistedFile.freshnessState≠.notCurrent:=by
  simp only [RunPlan.outcome,processOutcome,h,extractedOutcome,extractedRow]
  split_ifs <;> simp
 simp [isFatalFailureInvalidationRoot,hst]

theorem refreshQueued_contract_mono (h:Yields (queue.foldlM (refreshQueued env plan) st) s st' t) :
 ∀k∈st.contractKeys,k∈st'.contractKeys := by
 refine foldlM_invariant _ (fun st' _=>∀k∈st.contractKeys,k∈st'.contractKeys) _ ?_
  (fun _ hk=>hk) h
 rintro p st1 u st2 v-hI hst
 rcases refreshQueued_yields hst with ⟨-,rfl,rfl⟩|⟨-,rfl,-⟩|⟨-,rfl,-⟩
 · exact hI
 · exact hI
 · exact fun k hk=>mem_contractKeys_recordOutcome.mpr (.inr (hI k hk))

theorem settleRun_record (h:Yields (settleRun env plan st) s st' t) :
 ∃counters,st'={ st with counters := counters } := by
 simp only [settleRun,yields_bind,yields_pure] at h
 obtain ⟨st1,s1,hde,counters,s2,hr,rfl,rfl⟩:=h
 obtain ⟨c,rfl⟩ : ∃c,st1={ st with counters := c } := by
  refine foldlM_invariant _ (fun st1 _=>∃c,st1={ st with counters := c }) _ ?_
   ⟨st.counters,rfl⟩ hde
  rintro id st1 u st2 v-⟨c,rfl⟩ hst
  rcases deleteFile_yields hst with ⟨-,rfl,rfl⟩|⟨file,he,rfl,hv⟩
  · exact ⟨c,rfl⟩
  · exact ⟨_,rfl⟩
 exact ⟨counters,rfl⟩

theorem recordOutcome_start (w : WriteRecord) (outcome : ProcessOutcome) :
 (recordOutcome .start w outcome).indexed=[w.planned.key] ∧
 (recordOutcome .start w outcome).changedFiles.rows=[(w.planned.key,outcome.persistedFile)] ∧
 (recordOutcome .start w outcome).deltas.rows=[(w.planned.key,outcome.delta)] :=
 ⟨rfl,Table.rows_upsert_empty _,Table.rows_upsert_empty _⟩

theorem recordOutcome_start_fatal (h:isFatalFailureInvalidationRoot outcome.persistedFile=false) :
 (recordOutcome .start w outcome).fatalRoots=[] := by
 simp [recordOutcome,h,RunState.start]

theorem expansion_none {c : ConfirmedChanges} (hscope:c.changesResolutionScope=false)
 (hroots:c.publicApiRoots=[] ∧ c.deletedKeys=[] ∧ c.forcedRoots=[])
 (hstructural:c.structuralRoots=[])
 (h:Yields (applyConfirmedInvalidationExpansion env inp c q) s q' t) : q'=q := by
 simp only [applyConfirmedInvalidationExpansion,expandResolutionScope,expandDependents,
  expandStructural,hscope,hroots,hstructural,Bool.false_eq_true,and_self,if_true,
  if_false] at h
 split_ifs at h
 · exact (yields_pure.mp h).1.symm
 · simp only [yields_bind,yields_pure] at h
   obtain ⟨_,_,⟨rfl,rfl⟩,_,_,⟨rfl,rfl⟩,rfl,-⟩:=h
   rfl

theorem expansion_contained (hdel:plan.dirty.toDelete=[])
 (hco:outcome.delta.contractChanged=false)
 (hf:isFatalFailureInvalidationRoot outcome.persistedFile=false)
 (hsc:isResolutionScopePath w.planned.key.relPath=false)
 (h:Yields (applyConfirmedInvalidationExpansion env inp
  (confirmedChanges plan [] (recordOutcome .start w outcome)) q) s q' t) : q'=q := by
 obtain ⟨-,hch,hde⟩:=recordOutcome_start w outcome
 simp only [ConfirmedDelta.contractChanged,Bool.or_eq_false_iff] at hco
 refine expansion_none ?_ ⟨?_,hdel,?_⟩ ?_ h
 · simp [ConfirmedChanges.changesResolutionScope,confirmedChanges,hde,hch,hsc]
 · simp [ConfirmedChanges.publicApiRoots,confirmedChanges,hde,hco.1]
 · simp [confirmedChanges,recordOutcome_start_fatal hf,collectKeys]
 · simp [ConfirmedChanges.structuralRoots,confirmedChanges,hde,hco.2]

section
variable (hpla : plan.For env db0) (hed : plan.EditsFile key)
 (h : Yields (settledWorkspace env plan) s st t)
include hpla hed h

theorem settledWorkspace_contract (hc:plan.ChangesContract env key) : st.contractKeys ≠ [] := by
 obtain ⟨st1,st2,st3,s1,s2,s3,s4,q,ph⟩:=settledWorkspace_phases hpla h
 obtain ⟨rfl,rfl⟩:=markHashFailed_none (hed.no_failures hc.readable) ph.failed
 obtain ⟨counters,rfl⟩:=settleRun_record ph.settled
 obtain ⟨p,hp,hd⟩:=hc.contract
 obtain hn|⟨p',hone⟩:=hed.planned_cases
 · simp [hn] at hp
 obtain rfl : p=p':=by simpa [hone] using hp
 have hpl:=ph.planned
 rw [hone,foldlM_cons] at hpl
 simp only [foldlM_nil,yields_bind,yields_pure] at hpl
 obtain ⟨_,_,hst,rfl,rfl⟩:=hpl
 obtain ⟨rfl,-⟩:=indexPlanned_yields hst
 have hk:p.key∈(recordOutcome .start ⟨p,s.db⟩ (plan.outcome env p)).contractKeys:=
  mem_contractKeys_recordOutcome.mpr (.inl ⟨hd,rfl⟩)
 exact ne_nil_of_mem (refreshQueued_contract_mono ph.drained p.key hk)

/-- A contained edit indexes what was planned and needs no relink. -/
theorem settledWorkspace_contained (hinc:plan.forceFull=false) (hc:plan.Contained env key) :
 st.indexed=plan.dirty.toIndex.map PlannedFile.key ∧
 (st.indexed=[] ∨ contentOnlyIncremental plan st=true) := by
 obtain ⟨st1,st2,st3,s1,s2,s3,s4,q,ph⟩:=settledWorkspace_phases hpla h
 obtain ⟨rfl,rfl⟩:=markHashFailed_none (hed.no_failures hc.readable) ph.failed
 obtain ⟨counters,rfl⟩:=settleRun_record ph.settled
 have hpl:=ph.planned
 have hexp:=ph.expansion
 have hdr:=ph.drained
 obtain hn|⟨p,hp⟩:=hed.planned_cases
 · rw [hn,foldlM_nil,yields_pure] at hpl
   obtain ⟨rfl,rfl⟩:=hpl
   unfold applyConfirmedInvalidationExpansion at hexp
   rw [if_pos ⟨rfl,hed.deletes,rfl⟩,yields_pure] at hexp
   rw [←hexp.1] at hdr
   simp only [foldlM_nil,yields_pure] at hdr
   rw [←hdr.1,hn]
   exact ⟨rfl,.inl rfl⟩
 · rw [hp,foldlM_cons] at hpl
   simp only [foldlM_nil,yields_bind,yields_pure] at hpl
   obtain ⟨_,_,hst,rfl,rfl⟩:=hpl
   obtain ⟨rfl,-⟩:=indexPlanned_yields hst
   have hm:p∈plan.dirty.toIndex:=by simp [hp]
   obtain ⟨facts,hx⟩:=hc.parses p hm
   have hfa:=not_fatal_of_extracts hx
   rw [expansion_contained (w := ⟨p,s.db⟩) hed.deletes (hc.contract p hm) hfa (hc.scope p hm)
    hexp] at hdr
   simp only [foldlM_nil,yields_pure] at hdr
   obtain ⟨hin,hch,hde⟩:=recordOutcome_start ⟨p,s.db⟩ (plan.outcome env p)
   have hfa:=recordOutcome_start_fatal (w := ⟨p,s.db⟩) hfa
   rw [←hdr.1]
   refine ⟨by simp [hin,hp],.inr ?_⟩
   simp [contentOnlyIncremental,hinc,hed.deletes,hin,hch,hde,hfa,hc.contract p hm,hc.row p hm]

end

end

end

def Db.HasNode (db : Db) : NodeId → Prop
 | .file id => ∃ f ∈ db.files.rows,fileKeyForFile f = id ∧ f.deletedAtUnixMs = none
 | .symbol id => id ∈ db.symbols.rows.map Symbol.id
 | .chunk _ => True

instance (db : Db) : (node : NodeId) → Decidable (db.HasNode node)
 | .file id => inferInstanceAs
  (Decidable (∃ f ∈ db.files.rows,fileKeyForFile f = id ∧ f.deletedAtUnixMs = none))
 | .symbol id => inferInstanceAs (Decidable (id ∈ db.symbols.rows.map Symbol.id))
 | .chunk _ => isTrue trivial

def framedEdges (db db' : Db) (key : FileKey) (indexed : List FileKey) : List EdgeRow :=
 db.edges.filter fun r => r.sourceFileId≠key ∧ r.sourceFileId ∉ indexed ∧
  db'.HasNode r.edge.fromNode ∧ db'.HasNode r.edge.toNode

def Db.Keeps (db : Db) (r : EdgeRow) : Prop :=
 ∃ r' ∈ db.edges,r'.sourceFileId = r.sourceFileId ∧ r'.edge.view = r.edge.view

/-- An edge that ends in no symbol of another file which the run may write, and is resolved
 if the run may link the workspace again. -/
structure RunPlan.Spares (plan : RunPlan) (env : Env) (db : Db) (key : FileKey) (r : EdgeRow) :
 Prop where
 symbols : ∀ k,k≠r.sourceFileId →
  k = key ∧ plan.dirty.toIndex≠[] ∨ ¬ plan.Contained env key →
  Db.touchesSymbol (db.symbolIdsOf k) r.edge = false
 resolved : plan.Contained env key ∨ plan.ChangesContract env key ∨ r.edge.resolution = .resolved

def RunPlan.workspace (plan : RunPlan) (env : Env) (db : Db) : WorkspaceSnapshot :=
 .new env.disk plan.roots.workspaceRoot plan.roots.rootPaths db.listFilesByWorkspace
  db.findSymbolsByWorkspace

section
variable {env : Env} {req : IndexWorkspaceRequest} {db : Db} {key : FileKey}
 {fault : Option (Nat × Stop)} {report : IndexReport} {t : Store} {r : EdgeRow}

theorem touchesSymbol_view {ids : List SymbolId} {e e' : GraphEdge} (h:e.view=e'.view) :
 Db.touchesSymbol ids e=Db.touchesSymbol ids e' := by
 simp only [GraphEdge.view,EdgeView.mk.injEq] at h
 simp only [Db.touchesSymbol,h.2.1,h.2.2.1]

section
variable (hdb : Arises db) (hinc : req.forceFull = false)
 (hedit : (requestPlan env req db).EditsFile key)
 (h : Yields (indexWorkspace env req) ⟨db,fault⟩ report t)
include hdb hinc hedit h

/-- The rows of the files that were not indexed are those that end in no symbol which an
 indexed file had, unless the run links the workspace again. -/
theorem indexWorkspace_rows :
 ((requestPlan env req db).Contained env key →
  report.indexed=(requestPlan env req db).dirty.toIndex.map PlannedFile.key) ∧
 ((∀r : EdgeRow,r.sourceFileId ∉ report.indexed → (r∈t.db.edges ↔ r∈db.edges ∧
   ∀k∈report.indexed,Db.touchesSymbol (db.symbolIdsOf k) r.edge=false)) ∨
  (¬(requestPlan env req db).Contained env key ∧
   ¬(requestPlan env req db).ChangesContract env key) ∧
  ∀r∈db.edges,r.sourceFileId ∉ report.indexed →
   (∀k∈report.indexed,Db.touchesSymbol (db.symbolIdsOf k) r.edge=false) →
   r∈t.db.edges ∨ ∃scope,⟨r.sourceFileId,storedEdge (relinkEdge
    ((requestPlan env req db).workspace env t.db) scope r.sourceFileId r.edge)⟩ ∈ t.db.edges) := by
 have hp:=requestPlan_for env req db
 obtain ⟨-,s1,st,t1,hs1,hru,ht1,rfl⟩:=indexWorkspace_yields h
 obtain ⟨mid,hse,hrel⟩:=runWorkspacePlan_yields hru
 have hno:((requestPlan env req db).dirty.toIndex.map PlannedFile.key).Nodup:=by
  obtain hn|⟨p,hp⟩:=hedit.planned_cases
  · simp [hn]
  · simp [hp]
 obtain ⟨mid0,hfa,hre⟩:=settledWorkspace_edgeFates hp (edgesOwned_of_arises hdb) hno
  hedit.deletes hs1 hse
 have hmid:∀r : EdgeRow,r.sourceFileId ∉ st.indexed → (r∈mid.db.edges ↔ r∈db.edges ∧
  ∀k∈st.indexed,Db.touchesSymbol (db.symbolIdsOf k) r.edge=false) :=
  fun r hi=>hre.edges ▸ hfa.rows r hi
 have ho:mid.db.EdgesOwned:=fun r hr=>hfa.owned r (hre.edges ▸ hr)
 refine ⟨fun hc=>(settledWorkspace_contained hp hedit hse hinc hc).1,?_⟩
 rw [ht1.edges]
 rcases relinkRun_yields hrel with heq|⟨-,-,hok⟩|⟨hne,hco,hcon,hok⟩
 · exact .inl (heq ▸ hmid)
 · refine .inl fun r hi=>(contractRelink_frame ho hok fun hm=>hi ?_).trans (hmid r hi)
   refine (settledWorkspace_steps hp hse).contractKeys_indexed ?_ _ (mem_order.mp hm)
   simp [RunState.contractKeys,RunState.start]
 refine .inr ⟨⟨fun hc=>?_,fun hc=>?_⟩,fun r hr hi hout=>?_⟩
 · rcases (settledWorkspace_contained hp hedit hse hinc hc).2 with hn|hct
   · exact hne ⟨hn,hedit.deletes⟩
   · rw [hct] at hco
     cases hco
 · have hck:=settledWorkspace_contract hp hedit hse hc
   exact hcon ⟨hedit.deletes,fun hn=>hck (by simp [RunState.contractKeys,hn])⟩
 · have hsa:=(linkWorkspace_some hok).1
   have hrow:=linkWorkspace_row hok ((hmid r hi).mpr ⟨hr,hout⟩)
   unfold RunPlan.workspace Db.listFilesByWorkspace Db.findSymbolsByWorkspace
   rw [ht1.files,ht1.symbols,hsa.files,hsa.symbols]
   exact hrow

end

end

section

/-- `a.ts` imports `g` from `b.ts`, and in its second version calls it. The versions of
 `b.ts` declare the same `g`. -/
def sharingParser : Parser :=
 .ofTable
  [("a1",⟨false,[("f",0,10)],[("./b","g",false)],[],[]⟩),
   ("a2",⟨false,[("f",0,10)],[("./b","g",false)],[(some 0,"g")],[]⟩),
   ("b1",{ SourceSketch.blank with symbols := [("g",0,10)] }),
   ("b2",{ SourceSketch.blank with symbols := [("g",0,10)] })]
  [("./b",["w","b.ts"])]

def sharingFiles (a b : String) (mtimeB : Int) : Env :=
 .plain sharingParser (.ofFiles ⟨[⟨["w","a.ts"],10,1,a,.readable⟩,
  ⟨["w","b.ts"],10,mtimeB,b,.readable⟩],by simp⟩)

def sharingIndexed (a : String) : Db :=
 (Call.indexWorkspace (sharingFiles a "b1" 1) wholeWorkspace).result .empty

theorem sharingIndexed_arises (a : String) : Arises (sharingIndexed a) :=
 .call (.indexWorkspace (sharingFiles a "b1" 1) wholeWorkspace) none .empty

def exporterKey : FileKey := ⟨1,normalizeRelPath ["b.ts"]⟩

def exporterEdit (a : String) : IndexM IndexReport :=
 indexWorkspace (sharingFiles a "b2" 2) wholeWorkspace

def exporterPlan (a : String) : RunPlan :=
 requestPlan (sharingFiles a "b2" 2) wholeWorkspace (sharingIndexed a)

def exporterEdited (a : String) : Db := (exporterEdit a ⟨sharingIndexed a,none⟩).2.db

variable {a : String}

section
variable (h : a = "a1" ∨ a = "a2")
include h

theorem exporterEdit_facts :
 (∀p∈(exporterPlan a).dirty.toIndex,p.key=exporterKey ∧
  (extractCandidate (sharingFiles a "b2" 2) (exporterPlan a).roots p.candidate).isOk ∧
  ((exporterPlan a).outcome (sharingFiles a "b2" 2) p).delta.contractChanged=false) ∧
 (exporterPlan a).dirty.toIndex.length ≤ 1 ∧ (exporterPlan a).dirty.toDelete=[] ∧
 (exporterPlan a).hashed.hashFailures.rows=[] ∧
 ((exporterPlan a).existing.get exporterKey).isSome ∧
 (value (exporterEdit a) ⟨sharingIndexed a,none⟩).map IndexReport.indexed =
  some [exporterKey] := by
 rcases h with rfl|rfl <;> decide +kernel

theorem exporterPlan_edits :
 (exporterPlan a).EditsFile exporterKey := by
 obtain ⟨hpl,ho,hde,hf,-⟩:=exporterEdit_facts h
 refine ⟨fun p hp=>(hpl p hp).1,ho,hde,fun k hk=>?_⟩
 rw [HashMap.isSome_get_iff,hf] at hk
 simp at hk

theorem exporterPlan_contained :
 (exporterPlan a).Contained (sharingFiles a "b2" 2) exporterKey := by
 obtain ⟨hpl,-,-,hf,hrow,-⟩:=exporterEdit_facts h
 have hk:=fun p hp=>(hpl p hp).1
 refine ⟨?_,fun p hp=>hk p hp ▸ hrow,fun p hp=>?_,fun p hp=>(hpl p hp).2.2,
  fun p hp=>hk p hp ▸ by decide⟩
 · rw [←Option.not_isSome_iff_eq_none,HashMap.isSome_get_iff,hf]
   simp
 · have hok:=(hpl p hp).2.1
   cases hx : extractCandidate (sharingFiles a "b2" 2) (exporterPlan a).roots p.candidate with
   | ok facts => exact ⟨facts,rfl⟩
   | error failure => simp [hx,Except.isOk,Except.toBool] at hok

theorem exporterEdit_yields : ∃report,
 report.indexed=[exporterKey] ∧ Yields (exporterEdit a) ⟨sharingIndexed a,none⟩ report
  (exporterEdit a ⟨sharingIndexed a,none⟩).2 := by
 obtain ⟨report,hv,hi⟩:=Option.map_eq_some_iff.mp (exporterEdit_facts h).2.2.2.2.2
 exact ⟨report,hi,yields_of_value hv⟩

end

end
end DhKit.Indexer
