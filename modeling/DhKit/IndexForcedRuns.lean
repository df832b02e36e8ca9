import DhKit.IndexDeletion
import DhKit.IndexEdgeOwnership
import DhKit.IndexRecovery

/-!
# Forced runs over several roots

A run with `force_full` writes every scanned file.
-/
namespace DhKit.Indexer
open KeyedTables CommitRules List

def Store.Unfaulted (s : Store) : Prop := s.fault = none

variable {f : Db → Except String Db}

theorem delivers_commit (h:∀db,∃db',f db = .ok db') :
 Delivers Store.Unfaulted (commit f) := by
 rintro ⟨db,fault⟩ hs
 obtain ⟨db',hf⟩:=h db
 cases hs
 exact ⟨(),⟨db',none⟩,by simp [Yields,commit,hf],rfl⟩

variable {s : Store}

theorem yields_commit_unfaulted {db' : Db}
 (hs:s.Unfaulted) (hf:f s.db = .ok db') : Yields (commit f) s () ⟨db',none⟩ := by
 obtain ⟨db,fault⟩:=s
 cases hs
 simp [Yields,commit,hf]

variable {t : Store}

theorem commit_unfaulted {u : Unit} (hs:s.Unfaulted)
 (h:Yields (commit f) s u t) : t.Unfaulted := by
 have hy:=yields_commit_unfaulted hs (yields_commit h)
 rw [(Yields.deterministic h hy).2]
 rfl

theorem delivers_readDb {α : Type} (f : Db → α) : Delivers Store.Unfaulted (readDb f) :=
 Delivers.query _

section
variable {db : Db} {file : File} {symbols : List Symbol} {chunks : List Chunk}
 {edges : List GraphEdge} {hasExisting : Bool}

theorem Db.insertSymbols_isSome {db : Db} {symbols : List Symbol}
 (hf:∀s∈symbols,s.fileId∈db.files.rows.map fileKeyForFile)
 (h:((db.symbols.rows++symbols).map Symbol.id).Nodup) :
 ∃db',db.insertSymbols symbols=some db' := by
 obtain ⟨table,ht⟩:=Table.insertAll_isSome h
 unfold Db.insertSymbols
 rw [dif_pos hf]
 split
 · next hn => simp [ht] at hn
 · exact ⟨_,rfl⟩

theorem Db.insertChunks_isSome {db : Db} {chunks : List Chunk}
 (hf:∀c∈chunks,c.fileId∈db.files.rows.map fileKeyForFile)
 (h:((db.chunks.rows++chunks).map Chunk.id).Nodup) :
 ∃db',db.insertChunks chunks=some db' := by
 obtain ⟨table,ht⟩:=Table.insertAll_isSome h
 unfold Db.insertChunks
 rw [dif_pos hf]
 split
 · next hn => simp [ht] at hn
 · exact ⟨_,rfl⟩

def keptRows {α : Type} (owner : α → FileId) (rows : List α) (id : FileId) (wipes : Bool) :
 List α :=
 rows.filter fun a => !(wipes && owner a = id)

theorem Db.writeFileAtomically_ok_iff (hs:∀s∈symbols,s.fileId=fileKeyForFile file)
 (hc:∀c∈chunks,c.fileId=fileKeyForFile file) :
 (∃db',db.writeFileAtomically file symbols chunks edges hasExisting = .ok db') ↔
  ((keptRows Symbol.fileId db.symbols.rows (fileKeyForFile file) hasExisting++symbols).map
   Symbol.id).Nodup ∧
  ((keptRows Chunk.fileId db.chunks.rows (fileKeyForFile file) hasExisting++chunks).map
   Chunk.id).Nodup := by
 constructor
 · rintro ⟨db',h⟩
   have hw:=Db.writeFileAtomically_ok h
   have h1:=db'.symbols.nodup
   have h2:=db'.chunks.nodup
   rw [hw.symbols] at h1
   rw [hw.chunks] at h2
   exact ⟨h1,h2⟩
 rintro ⟨h1,h2⟩
 unfold Db.writeFileAtomically
 simp only
 -- the database once the old facts are gone and the row is stored
 generalize hup : Db.upsertFile (Db.deleteGraphEdgesForSourceFile _ _) file=up
 have hfi:fileKeyForFile file∈up.files.rows.map fileKeyForFile:=by
  rw [←hup]
  exact Table.mem_keys_upsert.mpr (.inl rfl)
 obtain ⟨hsy,hch⟩ : up.symbols.rows =
  keptRows Symbol.fileId db.symbols.rows (fileKeyForFile file) hasExisting ∧
  up.chunks.rows=keptRows Chunk.fileId db.chunks.rows (fileKeyForFile file) hasExisting := by
  rw [←hup]
  cases hasExisting <;> simp [keptRows,Db.upsertFile,Db.deleteGraphEdgesForSourceFile,
   Db.filterEdges,Db.deleteFileFacts,Db.deleteEdgesForSymbolEndpoints]
 rw [←hsy] at h1
 rw [←hch] at h2
 obtain ⟨d1,e1⟩:=Db.insertSymbols_isSome (fun s hm=>hs s hm ▸ hfi) h1
 obtain ⟨-,hf1,hc1,-⟩:=Db.insertSymbols_eq_some e1
 obtain ⟨d2,e2⟩ : ∃d2,d1.insertEdges edges (fileKeyForFile file)=some d2 := by
  unfold Db.insertEdges
  rw [dif_pos (.inr (hf1 ▸ hfi))]
  exact ⟨_,rfl⟩
 obtain ⟨-,hf2,-,hc2,-⟩:=Db.insertEdges_eq_some e2
 have hfi2:fileKeyForFile file∈d2.files.rows.map fileKeyForFile:=by
  rw [hf2,hf1]
  exact hfi
 have h2:((d2.chunks.rows++chunks).map Chunk.id).Nodup:=by
  rw [hc2,hc1]
  exact h2
 obtain ⟨d3,e3⟩:=Db.insertChunks_isSome (fun c hm=>hc c hm ▸ hfi2) h2
 exact ⟨d3,by simp only [e1,e2,e3]⟩

theorem Db.wiped_ok (db : Db) (file : File) (edges : List GraphEdge) (hasExisting:Bool) :
 ∃db',db.writeFileAtomically file [] [] edges hasExisting = .ok db' := by
 rw [Db.writeFileAtomically_ok_iff (by simp) (by simp),append_nil,append_nil]
 exact ⟨db.symbols.nodup.sublist (filter_sublist.map _),
  db.chunks.nodup.sublist (filter_sublist.map _)⟩

end

section
variable (env : Env) (plan : RunPlan) (db : Db)

/-- The ids of a planned file are distinct, and not those of a file written before it
 or of a row that is still as the run found it. -/
structure RunPlan.Fits (done : List PlannedFile) (p : PlannedFile) : Prop where
 symbols : ((factsOf env plan.roots p.candidate).symbols.map Symbol.id).Nodup
 chunks : ((factsOf env plan.roots p.candidate).chunks.map Chunk.id).Nodup
 written : ∀ s ∈ (factsOf env plan.roots p.candidate).symbols,∀ q ∈ done,
  ∀ r ∈ (factsOf env plan.roots q.candidate).symbols,r.id≠s.id
 stored : ∀ s ∈ (factsOf env plan.roots p.candidate).symbols,∀ r ∈ db.symbols.rows,
  r.fileId ∉ (p::done).map PlannedFile.key → r.id≠s.id

def RunPlan.Inserts : List PlannedFile → List PlannedFile → Prop
 | _,[] => True
 | done,p::rest => plan.Fits env db done p ∧ Inserts (done++[p]) rest

instance (done : List PlannedFile) (p : PlannedFile) : Decidable (plan.Fits env db done p) :=
 decidable_of_iff (_ ∧ _ ∧ _ ∧ _)
  ⟨fun h => ⟨h.1,h.2.1,h.2.2.1,h.2.2.2⟩,fun h => ⟨h.1,h.2,h.3,h.4⟩⟩

instance decidableInserts : ∀ done rest,Decidable (plan.Inserts env db done rest)
 | _,[] => inferInstanceAs (Decidable True)
 | done,p::rest =>
  have := decidableInserts (done++[p]) rest
  inferInstanceAs (Decidable (plan.Fits env db done p ∧ plan.Inserts env db (done++[p]) rest))

structure WrittenSoFar (done : List PlannedFile) (u : Db) : Prop where
 symbols : ∀ r,r ∈ u.symbols.rows ↔
  r ∈ db.symbols.rows ∧ r.fileId ∉ done.map PlannedFile.key ∨
   ∃ q ∈ done,r ∈ (factsOf env plan.roots q.candidate).symbols
 chunks : ∀ c ∈ u.chunks.rows,c ∈ db.chunks.rows ∨ c.fileId ∈ done.map PlannedFile.key

variable {env plan db} {done : List PlannedFile} {p : PlannedFile} {u u' : Db}

theorem mem_keptRows {α : Type} {owner : α → FileId} {rows : List α} {id : FileId} {wipes : Bool}
 (h:wipes=false → ∀a∈rows,owner a≠id) {a : α} :
 a∈keptRows owner rows id wipes ↔ a∈rows ∧ owner a≠id := by
 cases wipes with
 | false => simpa [keptRows] using fun ha=>h rfl a ha
 | true => simp [keptRows]

theorem WrittenSoFar.start (h:db.SameTables u) : WrittenSoFar env plan db [] u := by
 refine ⟨fun r=>?_,fun c hc=>Or.inl (h.chunks ▸ hc)⟩
 rw [h.symbols]
 simp

section
variable (hplan : plan.For env db) (h : WrittenSoFar env plan db done u)
 (hfresh : p.key ∉ done.map PlannedFile.key)
include hplan h hfresh

theorem WrittenSoFar.none_own (he:(plan.existing.get p.key).isSome=false) :
 (∀r∈u.symbols.rows,r.fileId≠p.key) ∧ ∀c∈u.chunks.rows,c.fileId≠p.key := by
 have hrow:p.key ∉ db.files.rows.map fileKeyForFile:=by
  intro hk
  obtain ⟨f,hf,hk⟩:=mem_map.mp hk
  rw [(hplan.existing _ f).mpr ⟨hf,hk⟩] at he
  cases he
 refine ⟨fun r hr hk=>?_,fun c hc hk=>?_⟩
 · rcases (h.symbols r).mp hr with ⟨hr,-⟩|⟨q,hq,hr⟩
   · exact hrow (hk ▸ db.symbolFiles r hr)
   · rw [(factsOf_local env plan.roots q.candidate).symbol_file r hr] at hk
     exact hfresh (mem_map.mpr ⟨q,hq,hk⟩)
 · rcases h.chunks c hc with hc|hc
   · exact hrow (hk ▸ db.chunkFiles c hc)
   · exact hfresh (hk ▸ hc)

theorem WrittenSoFar.mem_kept {r : Symbol} :
 r∈keptRows Symbol.fileId u.symbols.rows p.key (plan.existing.get p.key).isSome ↔
  r∈db.symbols.rows ∧ r.fileId ∉ (p::done).map PlannedFile.key ∨
   ∃q∈done,r∈(factsOf env plan.roots q.candidate).symbols := by
 rw [mem_keptRows fun he=>(h.none_own hplan hfresh he).1,h.symbols r,map_cons,mem_cons,not_or]
 constructor
 · rintro ⟨⟨hr,hd⟩|hq,hk⟩
   · exact .inl ⟨hr,hk,hd⟩
   · exact .inr hq
 · rintro (⟨hr,hk,hd⟩|⟨q,hq,hr⟩)
   · exact ⟨.inl ⟨hr,hd⟩,hk⟩
   · refine ⟨.inr ⟨q,hq,hr⟩,?_⟩
     rw [(factsOf_local env plan.roots q.candidate).symbol_file r hr]
     exact fun hk=>hfresh (mem_map.mpr ⟨q,hq,hk⟩)

theorem WrittenSoFar.step (hw:plan.PlannedWrite env p u u') :
 WrittenSoFar env plan db (done++[p]) u' := by
 have hs:=hw.symbols
 have hc:=hw.chunks
 rw [RunPlan.outcome_key] at hs hc
 refine ⟨fun r=>?_,fun c hm=>?_⟩
 · rw [hs,mem_append]
   refine (or_congr_left (h.mem_kept hplan hfresh)).trans ?_
   simp only [map_cons,map_append,map_nil,mem_cons,mem_append,not_mem_nil,or_false,not_or,
    or_and_right,exists_or,exists_eq_left]
   rw [or_assoc,and_comm (a := r.fileId≠p.key)]
 · rw [hc,mem_append] at hm
   rw [map_append,mem_append]
   rcases hm with hm|hm
   · exact (h.chunks c (mem_of_mem_filter hm)).imp_right .inl
   · exact .inr (.inr (mem_singleton.mpr
      ((factsOf_local env plan.roots p.candidate).chunk_file c hm)))

theorem WrittenSoFar.fits_iff {edges : List GraphEdge} :
 (∃db',u.writeFileAtomically (plan.outcome env p).persistedFile
  (factsOf env plan.roots p.candidate).symbols (factsOf env plan.roots p.candidate).chunks edges
  (plan.existing.get p.key).isSome = .ok db') ↔ plan.Fits env db done p := by
 have hl:=factsOf_local env plan.roots p.candidate
 have hke:fileKeyForFile (plan.outcome env p).persistedFile=p.key:=RunPlan.outcome_key p
 rw [Db.writeFileAtomically_ok_iff (by rw [hke]; exact hl.symbol_file)
  (by rw [hke]; exact hl.chunk_file),hke,map_append,map_append,
  nodup_append,nodup_append]
 have hk1:((keptRows Symbol.fileId u.symbols.rows p.key
  (plan.existing.get p.key).isSome).map Symbol.id).Nodup :=
  u.symbols.nodup.sublist (filter_sublist.map _)
 have hk2:((keptRows Chunk.fileId u.chunks.rows p.key
  (plan.existing.get p.key).isSome).map Chunk.id).Nodup :=
  u.chunks.nodup.sublist (filter_sublist.map _)
 constructor
 · rintro ⟨⟨-,hs,hd⟩,-,hc,-⟩
   have hfr:∀s∈(factsOf env plan.roots p.candidate).symbols,∀r,
    r∈keptRows Symbol.fileId u.symbols.rows p.key (plan.existing.get p.key).isSome →
     r.id≠s.id := fun s hm r hr=>
    hd _ (mem_map_of_mem hr) _ (mem_map_of_mem hm)
   exact ⟨hs,hc,
    fun s hm q hq r hr=>hfr s hm r ((h.mem_kept hplan hfresh).mpr (.inr ⟨q,hq,hr⟩)),
    fun s hm r hr hk=>hfr s hm r ((h.mem_kept hplan hfresh).mpr (.inl ⟨hr,hk⟩))⟩
 · intro hf
   refine ⟨⟨hk1,hf.symbols,?_⟩,hk2,hf.chunks,?_⟩
   · intro a ha b hb
     obtain ⟨r,hr,rfl⟩:=mem_map.mp ha
     obtain ⟨s,hm,rfl⟩:=mem_map.mp hb
     rcases (h.mem_kept hplan hfresh).mp hr with ⟨hr,hk⟩|⟨q,hq,hr⟩
     · exact hf.stored s hm r hr hk
     · exact hf.written s hm q hq r hr
   · -- a chunk id names its file, and no chunk of this file is left
     intro a ha b hb heq
     obtain ⟨x,hx,rfl⟩:=mem_map.mp ha
     obtain ⟨y,hy,rfl⟩:=mem_map.mp hb
     have hx:=(mem_keptRows fun he=>(h.none_own hplan hfresh he).2).mp hx
     exact hx.2 ((congrArg ChunkId.fileId heq).trans (hl.chunk_file y hy))

end

theorem nodup_turn {rest : List PlannedFile}
 (hn:((done++p::rest).map PlannedFile.key).Nodup) :
 p.key ∉ done.map PlannedFile.key ∧ ((done++[p]++rest).map PlannedFile.key).Nodup := by
 refine ⟨fun hk=>?_,by simpa using hn⟩
 rw [map_append,nodup_append] at hn
 exact hn.2.2 _ hk _ mem_cons_self rfl

theorem indexPlanned_committed {st st' : RunState}
 (h:Yields (indexPlanned env plan st p) s st' t) :
 ∃db',s.db.writeFileAtomically (plan.outcome env p).persistedFile
  (factsOf env plan.roots p.candidate).symbols (factsOf env plan.roots p.candidate).chunks
  (plan.edgesFor env p s.db) (plan.existing.get p.key).isSome = .ok db' := by
 simp only [indexPlanned,yields_bind,yields_readDb,yields_pure,processAndWriteFile] at h
 obtain ⟨_,_,⟨rfl,rfl⟩,outcome,u,h,rfl,rfl⟩:=h
 simp only [RunPlan.outcome,RunPlan.edgesFor,RunPlan.reuses,reusesEdges,processOutcome,factsOf]
 cases hx : extractCandidate env plan.roots p.candidate with
 | error failure => exact Db.wiped_ok _ _ _ _
 | ok facts =>
  simp only [hx,yields_bind,yields_pure] at h
  obtain ⟨_,_,hw,rfl,rfl⟩:=h
  exact ⟨_,yields_commit hw⟩

theorem indexPlanned_delivers {db' : Db} (hs:s.Unfaulted)
 (hw:s.db.writeFileAtomically (plan.outcome env p).persistedFile
  (factsOf env plan.roots p.candidate).symbols (factsOf env plan.roots p.candidate).chunks
  (plan.edgesFor env p s.db) (plan.existing.get p.key).isSome = .ok db') (st : RunState) :
 ∃st' t,Yields (indexPlanned env plan st p) s st' t ∧ t.Unfaulted := by
 simp only [indexPlanned,yields_bind,yields_readDb,yields_pure,processAndWriteFile]
 simp only [RunPlan.outcome,RunPlan.edgesFor,RunPlan.reuses,reusesEdges,processOutcome,
  factsOf] at hw
 cases hx : extractCandidate env plan.roots p.candidate with
 | error failure =>
  obtain ⟨db',hw⟩:=Db.wiped_ok s.db (failedRow env p.candidate
   (contentHashForPlannedFile p.candidate plan.hashed.hashes plan.existing) failure.1 failure.2)
   [] (plan.existing.get p.key).isSome
  simp only [yields_bind,yields_pure]
  exact ⟨_,⟨db',none⟩,⟨_,_,⟨rfl,rfl⟩,_,_,
   ⟨(),_,yields_commit_unfaulted hs hw,rfl,rfl⟩,rfl,rfl⟩,rfl⟩
 | ok facts =>
  simp only [hx] at hw
  simp only [yields_bind,yields_pure]
  exact ⟨_,⟨db',none⟩,⟨_,_,⟨rfl,rfl⟩,_,_,
   ⟨(),_,yields_commit_unfaulted hs hw,rfl,rfl⟩,rfl,rfl⟩,rfl⟩

section
variable (hplan : plan.For env db) {rest : List PlannedFile}
include hplan

theorem inserts_of_indexPlanned {st st' : RunState} (h:WrittenSoFar env plan db done s.db)
 (hn:((done++rest).map PlannedFile.key).Nodup)
 (hr:Yields (rest.foldlM (indexPlanned env plan) st) s st' t) :
 plan.Inserts env db done rest := by
 induction rest generalizing done st s with
 | nil => trivial
 | cons p rest ih =>
  obtain ⟨hfresh,hn⟩:=nodup_turn hn
  rw [foldlM_cons,yields_bind] at hr
  obtain ⟨st1,s1,h1,h2⟩:=hr
  exact ⟨(h.fits_iff hplan hfresh).mp (indexPlanned_committed h1),
   ih (h.step hplan hfresh (indexPlanned_yields h1).2) hn h2⟩

theorem indexPlanned_loop_delivers (hs:s.Unfaulted) (h:WrittenSoFar env plan db done s.db)
 (hn:((done++rest).map PlannedFile.key).Nodup) (hi:plan.Inserts env db done rest)
 (st : RunState) :
 ∃st' t,Yields (rest.foldlM (indexPlanned env plan) st) s st' t ∧ t.Unfaulted := by
 induction rest generalizing done st s with
 | nil => exact ⟨st,s,rfl,hs⟩
 | cons p rest ih =>
  obtain ⟨hfresh,hn⟩:=nodup_turn hn
  obtain ⟨db',hw⟩:=(h.fits_iff hplan hfresh).mpr hi.1
  obtain ⟨st1,s1,h1,hs1⟩:=indexPlanned_delivers hs hw st
  obtain ⟨st',t,h2,ht⟩:=
   ih hs1 (h.step hplan hfresh (indexPlanned_yields h1).2) hn hi.2 st1
  exact ⟨st',t,yields_bind.mpr ⟨st1,s1,h1,h2⟩,ht⟩

end
end

section
variable {env : Env} {plan : RunPlan}

theorem delivers_compositional :
 Compositional (fun _=>True) fun x=>Delivers Store.Unfaulted x where
 live _ := trivial
 pure := Delivers.pure
 read hf s hs := by
  obtain ⟨a,t,h,ht⟩:=hf s.db s hs
  exact ⟨a,t,yields_bind.mpr ⟨_,s,yields_readDb.mpr ⟨rfl,rfl⟩,h⟩,ht⟩
 bind := Delivers.bind
 wiped file _ := delivers_commit fun db=>db.wiped_ok file [] true

theorem refreshQueued_delivers {p : PlannedFile}
 (hs:(factsOf env plan.roots p.candidate).symbols=[])
 (hc:(factsOf env plan.roots p.candidate).chunks=[]) (st : RunState) :
 Delivers Store.Unfaulted (refreshQueued env plan st p) := by
 unfold refreshQueued
 split_ifs
 · exact .pure _
 split
 · exact delivers_compositional.markHashFailed plan st p.candidate
 intro s hu
 obtain ⟨db',hw⟩:=s.db.wiped_ok (plan.outcome env p).persistedFile
  (plan.edgesFor env p s.db) (plan.existing.get p.key).isSome
 exact indexPlanned_delivers hu (by rwa [hs,hc]) st

theorem settleRun_delivers (st : RunState) : Delivers Store.Unfaulted (settleRun env plan st) := by
 refine .bind (.foldlM (fun st id _=>?_) _) fun st=>.bind ?_ fun _=>.pure _
 · unfold deleteFile
   split
   · exact .pure _
   · exact .bind (delivers_commit fun db=>⟨_,rfl⟩) fun _=>.pure _
 · refine .bind (delivers_readDb _) fun files=>.foldlM (fun counters file _=>?_) _
   unfold retainUnchanged
   split_ifs
   · exact .pure _
   · exact .bind (delivers_commit fun db=>⟨_,rfl⟩) fun _=>.pure _

theorem foldlM_insertUnderSource_ok {edges : List GraphEdge} {db : Db}
 (h:∀e∈edges,∀id,e.fromNode = .file id → id∈db.files.rows.map fileKeyForFile) :
 ∃db',edges.foldlM Db.insertUnderSource db = .ok db' := by
 induction edges generalizing db with
 | nil => exact ⟨db,rfl⟩
 | cons e edges ih =>
  obtain ⟨db1,h1⟩ : ∃db1,db.insertUnderSource e = .ok db1 := by
   unfold Db.insertUnderSource
   split
   · next id he =>
     simp [Db.insertEdges,h e mem_cons_self id he]
   · exact ⟨db,rfl⟩
  obtain ⟨db',h2⟩:=ih fun e he id hid=>by
   rw [(insertUnderSource_ok h1).1.files]
   exact h e (mem_cons_of_mem _ he) id hid
  exact ⟨db',by rw [foldlM_cons,h1]; exact h2⟩

theorem relinkContractChangedFiles_isOk {db : Db} (h:db.EdgesOwned)
 (changed contractChanged : List FileId) :
 ∃db',db.relinkContractChangedFiles changed contractChanged = .ok db' := by
 refine foldlM_insertUnderSource_ok fun e he id hid=>?_
 obtain ⟨-,r,hr,rfl⟩:=mem_contractImportEdges he
 rw [(foldl_deleteGraphEdgesForSourceFile contractChanged db).1.files]
 exact (h r hr).source id hid ▸ db.edgeFiles r hr

theorem linkWorkspace_isSome (db : Db) (disk : Disk) (root : Path)
 (rootPaths : HashMap RootId Path) : ∃db',db.linkWorkspace disk root rootPaths=some db' := by
 unfold Db.linkWorkspace
 simp only
 -- the loop keeps the file rows, so each entry's file is still there at its turn
 suffices H : ∀ (entries : List (FileId × List GraphEdge)) (u : Db),u.files=db.files →
  (∀e∈entries,e.1∈db.files.rows.map fileKeyForFile) →
  ∃db',entries.foldlM (fun db entry=>(db.filterEdges fun r=>
   !decide (r.sourceFileId=entry.1)).insertEdges entry.2 entry.1) u=some db' by
  refine H _ db rfl fun e he=>?_
  obtain ⟨f,hf,rfl⟩:=mem_map.mp he
  exact mem_map_of_mem (Db.mem_listFilesByWorkspace.mp (mem_of_mem_filter hf))
 intro entries
 induction entries with
 | nil => exact fun u _ _=>⟨u,rfl⟩
 | cons entry entries ih =>
  intro u hu hal
  have hrow:entry.1∈(u.filterEdges fun r=>
   !decide (r.sourceFileId=entry.1)).files.rows.map fileKeyForFile := by
   change entry.1∈u.files.rows.map fileKeyForFile
   rw [hu]
   exact hal entry mem_cons_self
  obtain ⟨u1,h1⟩ : ∃u1,(u.filterEdges fun r=>
   !decide (r.sourceFileId=entry.1)).insertEdges entry.2 entry.1=some u1 := by
   unfold Db.insertEdges
   rw [dif_pos (.inr hrow)]
   exact ⟨_,rfl⟩
  have hu1:u1.files=db.files:=(Db.insertEdges_eq_some h1).2.1.trans hu
  obtain ⟨db',h2⟩:=ih u1 hu1 fun e he=>hal e (mem_cons_of_mem _ he)
  exact ⟨db',by rw [foldlM_cons,h1]; exact h2⟩

theorem relinkRun_delivers (st : RunState) (hs:s.Unfaulted) (h:s.db.EdgesOwned) :
 ∃t,Yields (relinkRun env plan st) s () t ∧ t.Unfaulted := by
 unfold relinkRun
 split_ifs
 · exact ⟨s,rfl,hs⟩
 · exact ⟨s,rfl,hs⟩
 · obtain ⟨db',hok⟩:=relinkContractChangedFiles_isOk h
    (env.order .relinkChanged (st.changedFiles.rows.map Prod.fst))
    (env.order .relinkContract (st.contractChanged.rows.map Prod.fst))
   exact ⟨_,yields_commit_unfaulted hs hok,rfl⟩
 · obtain ⟨db',hok⟩:=linkWorkspace_isSome s.db env.disk plan.roots.workspaceRoot
    plan.roots.rootPaths
   exact ⟨⟨db',none⟩,yields_commit_unfaulted hs (by rw [hok]),rfl⟩

end

variable {c : FileCandidate}

theorem factsOf_unreadable {env : Env} {roots : RunRoots} {err : String}
 (h:env.disk.readFile c.absPath = .error err) : factsOf env roots c = .skipped := by
 simp [factsOf,extractCandidate,h]

theorem keysDistinct_of_nodup {plan : RunPlan} (h:plan.scannedKeys.Nodup) : plan.KeysDistinct :=
 fun _ hc _ hc' hk=>inj_on_of_nodup_map h hc hc' hk

theorem markHashFailed_indexed {env : Env} {plan : RunPlan} {candidates : List FileCandidate}
 {st st' : RunState}
 (h:Yields (candidates.foldlM (markHashFailed env plan) st) s st' t)
 (hc:c∈candidates) (hf:(plan.hashed.hashFailures.get (fileKeyForCandidate c)).isSome)
 (he:(plan.existing.get (fileKeyForCandidate c)).isSome) :
 fileKeyForCandidate c∈st'.indexed := by
 refine foldlM_reaches _ (fun st _=>fileKeyForCandidate c∈st.indexed) hc
  (fun st1 u st2 v hst=>?_) (fun d _ st1 u st2 v hk hst=>?_) h
 · rcases markHashFailed_yields hst with ⟨hsk,rfl,-⟩|⟨-,rfl,-⟩
   · refine hsk.resolve_right fun hn=>?_
     rcases hn with hn|hn
     · simp [hn] at hf
     · simp [hn] at he
   · exact mem_pushUnique.mpr (.inr rfl)
 · rcases markHashFailed_yields hst with ⟨-,rfl,-⟩|⟨-,rfl,-⟩
   · exact hk
   · exact mem_pushUnique.mpr (.inl hk)

section
variable {env : Env} {req : IndexWorkspaceRequest} {db : Db} (hforce : req.forceFull = true)
include hforce

theorem forced_dirty : (requestPlan env req db).dirty=buildDirtySet (env.order .toDelete)
 (requestPlan env req db).candidates (requestPlan env req db).hashed.hashes
 db.listFilesByWorkspace req.forceFull [] := by
 exact if_neg fun h=>by simp [hforce] at h

theorem forced_hashed (c : FileCandidate) :
 shouldHash (existingByKey db.listFilesByWorkspace) req.forceFull [] c := by
 simp [shouldHash,hforce]

theorem forced_planned (hc:c∈(requestPlan env req db).candidates)
 {content : String} (hr:env.disk.readFile c.absPath = .ok content) :
 ∃p∈(requestPlan env req db).dirty.toIndex,p.key=fileKeyForCandidate c := by
 have hso:((requestPlan env req db).hashed.hashes.get (fileKeyForCandidate c)).isSome:=
  hashIncrementalCandidates_isSome hc (forced_hashed hforce c) hr
 obtain ⟨hash,hh⟩:=Option.isSome_iff_exists.mp hso
 refine ⟨⟨c,.resolutionScope⟩,?_,rfl⟩
 rw [forced_dirty hforce]
 exact mem_buildDirtySet_toIndex.mpr ⟨hc,hash,hh,by simp [planCandidate,hforce]⟩

theorem forced_nodup (hkeys:(requestPlan env req db).scannedKeys.Nodup) :
 ((requestPlan env req db).dirty.toIndex.map PlannedFile.key).Nodup := by
 rw [forced_dirty hforce]
 refine (((perm_insertionSort _ _).map _).nodup_iff).mpr (hkeys.sublist ?_)
 -- a planned file has the key of the candidate it was made from
 unfold RunPlan.scannedKeys
 generalize (requestPlan env req db).candidates=candidates
 induction candidates with
 | nil => exact .slnil
 | cons c candidates ih =>
  rw [filterMap_cons,map_cons]
  split
  · exact ih.cons _
  · next p hp =>
    simp only [Option.bind_eq_some_iff,Option.map_eq_some_iff] at hp
    obtain ⟨hash,-,level,-,rfl⟩:=hp
    exact ih.cons_cons _

section
variable (hkeys : (requestPlan env req db).scannedKeys.Nodup) {s : Store}
 (hsame : db.SameTables s.db)
include hkeys hsame

theorem forced_queue_facts {st1 st2 : RunState} {s1 s2 s3 : Store} {q : RefreshQueue}
 (h1:Yields ((requestPlan env req db).dirty.toIndex.foldlM
  (indexPlanned env (requestPlan env req db)) .start) s st1 s1)
 (h:Yields (applyConfirmedInvalidationExpansion env
  (expansionInput (requestPlan env req db) st1.indexed)
  (confirmedChanges (requestPlan env req db) [] st2) ⟨[],[],st2.counters⟩) s2 q s3) :
 ∀p∈q.queue,factsOf env (requestPlan env req db).roots p.candidate = .skipped := by
 have hdi:=keysDistinct_of_nodup hkeys
 have hpl:=(indexPlanned_fates (requestPlan_for env req db)
  (fun c hc c' hc' hk _=>hdi c hc c' hc' hk) hsame h1).2
 have hexp:Expands env (expansionInput (requestPlan env req db) st1.indexed)
  (confirmedChanges (requestPlan env req db) [] st2).allRoots
  (⟨[],[],st2.counters⟩,s2.db) (q,s3.db) :=
  applyConfirmedInvalidationExpansion_expands (fun _ _ hf=>(existingByKey_key hf).2) h
 intro p hp
 obtain ⟨hn,-⟩:=hexp.queue_scanned (by simp) (fun _ _ hs=>(scanned_get_some hs).2) p hp
 cases hr : env.disk.readFile p.candidate.absPath with
 | error err => exact factsOf_unreadable hr
 | ok content =>
  obtain ⟨p',hp',hk⟩:=forced_planned hforce (hexp.queue_candidates p hp) hr
  have hi:=hpl p' hp'
  rw [hk] at hi
  exact absurd hi hn

theorem forced_settled_inserts {st : RunState}
 (h:Yields (settledWorkspace env (requestPlan env req db)) s st t) :
 (requestPlan env req db).Inserts env db [] (requestPlan env req db).dirty.toIndex := by
 simp only [settledWorkspace,yields_bind] at h
 obtain ⟨st1,s1,h1,-⟩:=h
 exact inserts_of_indexPlanned (requestPlan_for env req db) (.start hsame)
  (forced_nodup hforce hkeys) h1

theorem forced_settled_delivers (hs:s.Unfaulted)
 (hi:(requestPlan env req db).Inserts env db [] (requestPlan env req db).dirty.toIndex) :
 ∃st t,Yields (settledWorkspace env (requestPlan env req db)) s st t ∧ t.Unfaulted := by
 simp only [settledWorkspace,expandAndRefresh,yields_bind]
 obtain ⟨st1,s1,h1,hs1⟩:=indexPlanned_loop_delivers (requestPlan_for env req db) hs
  (.start hsame) (forced_nodup hforce hkeys) hi .start
 obtain ⟨st2,s2,h2,hs2⟩:=delivers_compositional.foldlM
  (fun st c _=>delivers_compositional.markHashFailed (requestPlan env req db) st c) st1
  s1 hs1
 have hexp:Expanding env (expansionInput (requestPlan env req db) st1.indexed)
  (confirmedChanges (requestPlan env req db) [] st2).allRoots
   fun _ x=>Delivers Store.Unfaulted x :=
  delivers_compositional.expanding fun _ _ _ _ _=>trivial
 obtain ⟨q,s3,h3,hs3⟩:=hexp.applyConfirmedInvalidationExpansion
  (fun _ _ hf=>(existingByKey_key hf).2) ⟨[],[],st2.counters⟩ s2 hs2
 have hfa:=forced_queue_facts hforce hkeys hsame h1 h3
 obtain ⟨st3,s4,h4,hs4⟩:=Delivers.foldlM
  (fun st p hp=>refreshQueued_delivers (by rw [hfa p hp]; rfl) (by rw [hfa p hp]; rfl) st)
  { st2 with counters := q.counters } s3 hs3
 obtain ⟨st4,s5,h5,hs5⟩:=settleRun_delivers st3 s4 hs4
 exact ⟨st4,s5,⟨st1,s1,h1,st2,s2,h2,st3,s4,⟨q,s3,h3,h4⟩,h5⟩,hs5⟩

end

end

def RootsRegister (env : Env) (req : IndexWorkspaceRequest) (db : Db) : Prop :=
 requestRoots env.disk req≠[] ∧ succeeds ((requestAssignments env req db).foldlM
  (fun _ root => commit fun db => db.ensureWorkspaceAndRoot root) ()) ⟨db,none⟩ = true

instance (env : Env) (req : IndexWorkspaceRequest) (db : Db) :
 Decidable (RootsRegister env req db) :=
 inferInstanceAs (Decidable (_ ∧ _))

theorem saveState_unfaulted (state : IndexState) (hs:s.Unfaulted) :
 Yields (saveState state) s () ⟨s.db.updateState state,none⟩ := yields_commit_unfaulted hs rfl

theorem indexWorkspace_delivers {env : Env} {req : IndexWorkspaceRequest} {db : Db}
 (hre:RootsRegister env req db)
 (hru:∀s : Store,s.Unfaulted → db.SameTables s.db → ∃st t,
  Yields (runWorkspacePlan env (requestPlan env req db)) s st t ∧ t.Unfaulted) :
 ∃report t,Yields (indexWorkspace env req) ⟨db,none⟩ report t := by
 obtain ⟨hne,hre⟩:=hre
 obtain ⟨s1,hen⟩ : ∃s1,Yields ((requestAssignments env req db).foldlM
  (fun _ root=>commit fun db=>db.ensureWorkspaceAndRoot root) ()) ⟨db,none⟩ () s1 :=
  ⟨_,(yields_of_succeeds hre).choose_spec⟩
 obtain ⟨hs1,hsame⟩ : s1.Unfaulted ∧ db.SameTables s1.db :=
  foldlM_invariant _ (fun _ u=>u.Unfaulted ∧ db.SameTables u.db) _
   (fun _ _ _ _ _ _ hI hst=>⟨commit_unfaulted hI.1 hst,
    hI.2.trans (ensureWorkspaceAndRoot_ok (yields_commit hst))⟩) ⟨rfl,.refl _⟩ hen
 have hro:=hne
 unfold requestRoots at hro
 unfold indexWorkspace
 split
 · next hr => simp [hr] at hro
 · next hr => simp [hr] at hro
 next workspaceRoot others hr =>
 have hrr:requestRoots env.disk req=workspaceRoot::others:=by simp [requestRoots,hr]
 have hass:assignWorkspaceRootIds db.rootPathsById (workspaceRoot::others) =
  requestAssignments env req db := by rw [requestAssignments,hrr]
 have hplan:∀u : Db,db.SameTables u → workspacePlan env req (workspaceRunRoots
  (requestAssignments env req db) workspaceRoot (workspaceRoot::others))
  (requestAssignments env req db) u=requestPlan env req db := by
  intro u hu
  rw [hu.workspacePlan]
  simp [requestPlan,hrr]
 have hsa:∀ {u : Store} (state : IndexState),db.SameTables u.db → u.Unfaulted →
  ∃v,Yields (saveState state) u () v ∧ v.Unfaulted ∧ db.SameTables v.db :=
  fun state hu hf=>⟨_,saveState_unfaulted state hf,rfl,
   hu.trans (saveState_yields (saveState_unfaulted state hf))⟩
 simp only [yields_bind,yields_readDb,yields_onError,beginWorkspace,runWorkspaceBody,
  completeWorkspace,yields_pure,hass]
 obtain ⟨s2,h2,hs2,hsame2⟩:=hsa _ hsame hs1
 obtain ⟨s3,h3,hs3,hsame3⟩:=hsa _ hsame2 hs2
 obtain ⟨s4,h4,hs4,hsame4⟩:=hsa _ hsame3 hs3
 obtain ⟨st,t1,h5,ht1⟩:=hru s4 hs4 hsame4
 rw [←hplan s2.db hsame2] at h5
 exact ⟨_,_,_,_,⟨_,_,⟨rfl,rfl⟩,(),s1,hen,_,_,⟨rfl,rfl⟩,(),s2,h2,rfl,rfl⟩,_,_,
  ⟨_,_,⟨rfl,rfl⟩,(),s3,h3,(),s4,h4,st,t1,h5,(),_,saveState_unfaulted _ ht1,rfl,rfl⟩,
  (),_,yields_commit_unfaulted rfl rfl,rfl,rfl⟩

section
variable {env : Env} {plan : RunPlan} {db : Db}

def Db.UnscannedDoomed (plan : RunPlan) (db : Db) : Prop :=
 ∀ f ∈ db.files.rows,f.deletedAtUnixMs = none → fileKeyForFile f ∉ plan.scannedKeys →
  fileKeyForFile f ∈ plan.dirty.toDelete

theorem Db.UnscannedDoomed.upsert {files : Table FileId File fileKeyForFile} {file : File}
 (h:∀f∈files.rows,f.deletedAtUnixMs=none → fileKeyForFile f ∉ plan.scannedKeys →
  fileKeyForFile f∈plan.dirty.toDelete)
 (hfi:file.deletedAtUnixMs=none → fileKeyForFile file ∉ plan.scannedKeys →
  fileKeyForFile file∈plan.dirty.toDelete) :
 ∀f∈(files.upsert file).rows,f.deletedAtUnixMs=none →
  fileKeyForFile f ∉ plan.scannedKeys → fileKeyForFile f∈plan.dirty.toDelete := by
 intro f hf
 rcases Table.mem_upsert.mp hf with rfl|⟨hf,-⟩
 · exact hfi
 · exact h f hf

theorem Db.UnscannedDoomed.step (hplan:plan.For env db) {x y : RunState × Db}
 (h:x.2.UnscannedDoomed plan) (hst:PlanStep env plan (ForcedMarks plan []) x y) :
 y.2.UnscannedDoomed plan := by
 unfold Db.UnscannedDoomed at h ⊢
 cases hst with
 | planned p hc hw =>
  rw [hw.files]
  refine Db.UnscannedDoomed.upsert h fun _ hk=>?_
  rw [RunPlan.outcome_key] at hk
  exact absurd (mem_map.mpr ⟨p.candidate,hc,rfl⟩) hk
 | hashFailed c hc hw =>
  obtain ⟨message,existing,-,he,hw⟩:=hw
  rw [hw.files]
  refine Db.UnscannedDoomed.upsert h fun _ hk=>absurd (mem_map.mpr ⟨c,hc,?_⟩) hk
  exact ((hplan.existing _ existing).mp he).2.symm
 | notCurrent key file message reason he hm hw =>
  rw [hw.files]
  refine Db.UnscannedDoomed.upsert h fun hd hk=>?_
  exact (hplan.toDelete _).mpr ⟨file,((hplan.existing _ file).mp he).1,rfl,hd,hk⟩
 | counted => exact h
 | deleted key file he hd =>
  exact Db.UnscannedDoomed.upsert h fun hd=>by simp [Db.deletedRow] at hd
 | retained hr =>
  intro f hf hd hk
  obtain ⟨g,hg,rfl⟩:=(hr.files f).mp hf
  split_ifs at hd hk ⊢
  · exact h g hg hd hk
  · exact h g hg hd hk

theorem Db.UnscannedDoomed.steps (hplan:plan.For env db) {x y : RunState × Db}
 (h:x.2.UnscannedDoomed plan) (hst:PlanSteps env plan (ForcedMarks plan []) x y) :
 y.2.UnscannedDoomed plan := by
 induction hst with
 | refl => exact h
 | tail _ hste ih => exact ih.step hplan hste

theorem settledWorkspace_live {st : RunState} (hplan:plan.For env db)
 (hs:db.SameTables s.db) (h:Yields (settledWorkspace env plan) s st t) {f : File}
 (hf:f∈t.db.files.rows) (hd:f.deletedAtUnixMs=none) :
 fileKeyForFile f∈plan.scannedKeys := by
 by_contra hk
 have hst:s.db.UnscannedDoomed plan:=fun f hf hd hk=>
  (hplan.toDelete _).mpr ⟨f,hs.files ▸ hf,rfl,hd,hk⟩
 have hdo:=hst.steps hplan (settledWorkspace_steps hplan h) f hf hd hk
 simp only [settledWorkspace,yields_bind] at h
 obtain ⟨_,_,-,_,_,-,_,_,-,hse⟩:=h
 obtain ⟨g,hg,hgk,hgd⟩:=settleRun_deleted hplan hse hdo
 rw [t.db.files.row_unique hg hf hgk] at hgd
 exact hgd hd

end

/-- Each live file has exactly the symbols and chunks its scanned file yields. -/
def Db.HoldsFacts (db : Db) (env : Env) (plan : RunPlan) : Prop :=
 ∀ f ∈ db.files.rows,f.deletedAtUnixMs = none → ∃ c ∈ plan.candidates,
  fileKeyForCandidate c = fileKeyForFile f ∧
  db.findSymbolsByFile (fileKeyForFile f) = (factsOf env plan.roots c).symbols ∧
  db.findChunksByFile (fileKeyForFile f) = (factsOf env plan.roots c).chunks

section
variable {env : Env} {req : IndexWorkspaceRequest} {db : Db} (hforce : req.forceFull = true)
include hforce

theorem forced_holdsFacts (hkeys:(requestPlan env req db).scannedKeys.Nodup)
 {fault : Option (Nat × Stop)} {report : IndexReport}
 (h:Yields (indexWorkspace env req) ⟨db,fault⟩ report t) :
 t.db.HoldsFacts env (requestPlan env req db) := by
 have hplan:=requestPlan_for env req db
 have hdi:=keysDistinct_of_nodup hkeys
 obtain ⟨-,s1,st,t1,hs1,hru,ht1,-⟩:=indexWorkspace_yields h
 obtain ⟨mid,hse,hre⟩:=runWorkspacePlan_yields hru
 have hfa:=settledWorkspace_fates hplan
  (fun c hc c' hc' hk _=>hdi c hc c' hc' hk) hs1 hse
 have hsame:∀key,mid.db.SameAt t.db key:=fun key=>
  ((relinkRun_sameFacts hre).sameAt key).trans (ht1.sameAt key)
 intro f hf hl
 have hmi:f∈mid.db.files.rows:=by
  rwa [ht1.files,(relinkRun_sameFacts hre).files] at hf
 have hsc:=settledWorkspace_live hplan hs1 hse hmi hl
 obtain ⟨c,hc,hk⟩:=mem_map.mp hsc
 refine ⟨c,hc,hk,?_⟩
 rw [(hsame _).symbols,(hsame _).chunks,←hk]
 rw [←hk] at hsc
 by_cases hi : fileKeyForCandidate c∈st.indexed
 · rcases hfa.indexed _ hsc hi with ⟨p,hpk,hp⟩|⟨hfai,hn⟩
   · obtain rfl := hdi p.candidate hp.scanned c hc hpk
     exact ⟨hp.symbols,hp.chunks⟩
   · -- a forced run hashes every file, so a failure is one of reading
     obtain ⟨message,hm⟩:=Option.isSome_iff_exists.mp hfai
     obtain ⟨c',hc',hk',err,-,her⟩:=
      hashIncrementalCandidates_entries.failure_of _ message hm
     obtain rfl := hdi c' hc' c hc hk'
     rw [if_pos (forced_hashed hforce c')] at her
     rw [factsOf_unreadable her]
     exact ⟨hn.symbols,hn.chunks⟩
 · -- neither planned nor marked: the file could not be read and had no row
   exfalso
   have hrow:db.files.find (fileKeyForCandidate c)≠none:=by
    intro hnone
    have := hfa.row _ hsc hi
    rw [hnone,Option.map_none,Table.find_eq_none] at this
    exact this f hmi hk.symm
   have hex:((requestPlan env req db).existing.get (fileKeyForCandidate c)).isSome:=by
    obtain ⟨g,hg⟩:=Option.ne_none_iff_exists'.mp hrow
    exact Option.isSome_iff_exists.mpr
     ⟨g,(hplan.existing _ g).mpr ((Table.find_eq_some _).mp hg)⟩
   cases hr : env.disk.readFile c.absPath with
   | ok content =>
    obtain ⟨p,hp,hpk⟩:=forced_planned hforce hc hr
    exact hi (hpk ▸ hfa.planned p hp)
   | error err =>
    obtain ⟨st1,st2,st3,_,_,_,_,q,ph⟩:=settledWorkspace_phases hplan hse
    have hma:=markHashFailed_indexed ph.failed hc
     (hashIncrementalCandidates_failure hc (forced_hashed hforce c) hr) hex
    have hdr:=(refreshQueued_indexed ph.drained).1 _ hma
    rw [←(settleRun_frame hplan ph.settled).1] at hdr
    exact hi hdr

/-- A forced run returns, with every live file's own facts in the tables, exactly when
 the ids of each planned file are free at its turn. -/
theorem forcedRun_holdsFacts_iff (hdb : Arises db) (hreg : RootsRegister env req db)
 (hkeys : (requestPlan env req db).scannedKeys.Nodup) :
 (∃ report t,Yields (indexWorkspace env req) ⟨db,none⟩ report t ∧
  t.db.HoldsFacts env (requestPlan env req db)) ↔
 (requestPlan env req db).Inserts env db [] (requestPlan env req db).dirty.toIndex := by
 have ho:=edgesOwned_of_arises hdb
 constructor
 · rintro ⟨report,t,h,-⟩
   obtain ⟨-,s1,st,t1,hs1,hr,-⟩:=indexWorkspace_yields h
   obtain ⟨mid,hse,-⟩:=runWorkspacePlan_yields hr
   exact forced_settled_inserts hforce hkeys hs1 hse
 · intro hi
   obtain ⟨report,t,h⟩:=indexWorkspace_delivers hreg fun s hs hsame=>by
    obtain ⟨st,mid,hse,hmi⟩:=forced_settled_delivers hforce hkeys hsame hs hi
    have how:mid.db.EdgesOwned:=((edgesOwned_stable env).settledWorkspace
     (requestPlan_for env req db)).yields ((edgesOwned_stable env).same ho hsame) hse
    obtain ⟨t,hre,ht⟩:=relinkRun_delivers st hmi how
    exact ⟨st,t,yields_bind.mpr ⟨st,mid,hse,yields_bind.mpr ⟨(),t,hre,rfl⟩⟩,ht⟩
   exact ⟨report,t,h,forced_holdsFacts hforce hkeys h⟩

end

section

def forcedRoots : IndexWorkspaceRequest := ⟨[["w"],["v"]],true,none⟩

def twinFile : DiskEntry := ⟨["v","a.ts"],10,1,"f",.readable⟩

def twinFiles : Env :=
 .plain oneFileParser (.ofFiles ⟨[oneFile,twinFile],by simp [oneFile,twinFile]⟩)

/-- Files of the same text but different names both keep their facts. -/
theorem forcedRun_holdsFacts_named_apart :
 ∃ report t,Yields (indexWorkspace bothFiles forcedRoots) ⟨.empty,none⟩ report t ∧
  t.db.HoldsFacts bothFiles (requestPlan bothFiles forcedRoots .empty) :=
 (forcedRun_holdsFacts_iff rfl .empty (by decide +kernel) (by decide +kernel)).mpr
  (by decide +kernel)

/-- The twins' symbols have one id, and the run over both roots fails. -/
theorem forcedRun_fails_on_twins :
 forcedRoots.forceFull = true ∧ RootsRegister twinFiles forcedRoots .empty ∧
 (requestPlan twinFiles forcedRoots .empty).scannedKeys.Nodup ∧
 ¬ ∃ report t,Yields (indexWorkspace twinFiles forcedRoots) ⟨.empty,none⟩ report t := by
 have hr:succeeds (indexWorkspace twinFiles forcedRoots) ⟨.empty,none⟩=false:=by
  decide +kernel
 refine ⟨rfl,by decide +kernel,by decide +kernel,?_⟩
 rintro ⟨report,t,h⟩
 unfold CommitRules.succeeds at hr
 rw [h] at hr
 cases hr

end

end DhKit.Indexer
