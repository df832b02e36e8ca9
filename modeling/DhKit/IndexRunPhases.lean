import DhKit.IndexRunTraces

/-!
# What a run does to each file

A scanned file is extracted, or marked because its bytes could not be read, or retained.
-/
namespace DhKit.Indexer
open KeyedTables CommitRules List

def RunPlan.NewKeysDistinct (plan : RunPlan) : Prop :=
 ∀ c ∈ plan.candidates,∀ c' ∈ plan.candidates,
  fileKeyForCandidate c = fileKeyForCandidate c' →
   plan.existing.get (fileKeyForCandidate c) = none → c = c'

instance (plan : RunPlan) : Decidable plan.NewKeysDistinct :=
 inferInstanceAs (Decidable (∀ c ∈ plan.candidates,∀ c' ∈ plan.candidates,
  fileKeyForCandidate c = fileKeyForCandidate c' →
   plan.existing.get (fileKeyForCandidate c) = none → c = c'))

/-- The facts of a file that had no row when the run began come from the candidate
 of its key. -/
structure NewFactsFrom (env : Env) (plan : RunPlan) (db : Db) : Prop where
 symbols : ∀ key,plan.existing.get key = none → ∀ s ∈ db.findSymbolsByFile key,
  ∃ c ∈ plan.candidates,fileKeyForCandidate c = key ∧ s ∈ (factsOf env plan.roots c).symbols
 chunks : ∀ key,plan.existing.get key = none → ∀ x ∈ db.findChunksByFile key,
  ∃ c ∈ plan.candidates,fileKeyForCandidate c = key ∧ x ∈ (factsOf env plan.roots c).chunks

structure Db.SameAt (db db' : Db) (key : FileKey) : Prop where
 row : db'.files.find key = db.files.find key
 symbols : db'.findSymbolsByFile key = db.findSymbolsByFile key
 chunks : db'.findChunksByFile key = db.findChunksByFile key

theorem Db.SameAt.refl (db : Db) (key : FileKey) : db.SameAt db key := ⟨rfl,rfl,rfl⟩

variable {key : FileKey}
 {db : Db} {p : PlannedFile} {x y : RefreshQueue × Db} {message : String}
  {reason : FreshnessReason} {plan : RunPlan} {queue : List PlannedFile} {st : RunState}
   {env : Env} {file : File}

theorem Db.SameAt.trans {a b c : Db} (h:a.SameAt b key) (h':b.SameAt c key) :
 a.SameAt c key :=
 ⟨h'.row.trans h.row,h'.symbols.trans h.symbols,h'.chunks.trans h.chunks⟩

theorem Db.SameFacts.sameAt {db' : Db} (h:db.SameFacts db') (key : FileKey) :
 db.SameAt db' key := by
 refine ⟨by rw [h.files],?_,?_⟩
 · rw [Db.findSymbolsByFile,h.symbols,Db.findSymbolsByFile]
 · rw [Db.findChunksByFile,h.chunks,Db.findChunksByFile]

theorem Db.SameTables.sameAt {db' : Db} (h:db.SameTables db') (key : FileKey) :
 db.SameAt db' key :=
 Db.SameFacts.sameAt ⟨h.files,h.symbols,h.chunks⟩ key

/-- The planned file was extracted and nothing was written over it. -/
structure Extracted (env : Env) (plan : RunPlan) (db : Db) (p : PlannedFile) : Prop where
 scanned : p.candidate ∈ plan.candidates
 row : db.files.find p.key = some (plan.outcome env p).persistedFile
 symbols : db.findSymbolsByFile p.key = (factsOf env plan.roots p.candidate).symbols
 chunks : db.findChunksByFile p.key = (factsOf env plan.roots p.candidate).chunks

structure Db.NotCurrentAt (db : Db) (key : FileKey) : Prop where
 row : ∃ f,db.files.find key = some f ∧ f.freshnessState = .notCurrent
 symbols : db.findSymbolsByFile key = []
 chunks : db.findChunksByFile key = []

section
variable {env : Env} {plan : RunPlan} {db db' : Db} {key : FileKey} {file : File}
 {edges : List GraphEdge}

theorem Extracted.congr (h:Extracted env plan db p)
 (hs:db.SameAt db' p.key) : Extracted env plan db' p :=
 ⟨h.scanned,hs.row.trans h.row,hs.symbols.trans h.symbols,hs.chunks.trans h.chunks⟩

theorem Db.NotCurrentAt.congr (h:db.NotCurrentAt key) (hs:db.SameAt db' key) :
 db'.NotCurrentAt key := by
 obtain ⟨f,hf,hst⟩:=h.row
 exact ⟨⟨f,hs.row.trans hf,hst⟩,hs.symbols.trans h.symbols,hs.chunks.trans h.chunks⟩

theorem Db.Written.sameAt {symbols : List Symbol} {chunks : List Chunk} {hasExisting : Bool}
 (hw:db.Written db' file symbols chunks edges hasExisting)
 (hs:∀s∈symbols,s.fileId=fileKeyForFile file)
 (hc:∀c∈chunks,c.fileId=fileKeyForFile file) (hk:key≠fileKeyForFile file) :
 db.SameAt db' key := by
 refine ⟨?_,?_,?_⟩
 · rw [hw.files,Table.find_upsert,if_neg hk]
 · rw [hw.symbolsOf hs,if_neg hk]
 · rw [hw.chunksOf hc,if_neg hk]

theorem Db.Written.notCurrentAt (hw:db.Written db' file [] [] edges true)
 (hst:file.freshnessState = .notCurrent) :
 db'.NotCurrentAt (fileKeyForFile file) := by
 refine ⟨⟨file,?_,hst⟩,?_,?_⟩
 · rw [hw.files,Table.find_upsert,if_pos rfl]
 · rw [hw.symbolsOf (by simp),if_pos rfl]
   rfl
 · rw [hw.chunksOf (by simp),if_pos rfl]
   rfl

theorem Db.markDeletedFile_sameAt (file : File) (deletedAt : Int) (marker : String)
 (hk:key≠fileKeyForFile file) : db.SameAt (db.markDeletedFile file deletedAt marker) key := by
 refine ⟨?_,?_,?_⟩
 · rw [Db.markDeletedFile_files,Table.find_upsert]
   exact if_neg hk
 · rw [Db.markDeletedFile_symbolsOf,if_neg hk]
 · rw [Db.markDeletedFile_chunksOf,if_neg hk]

theorem RunPlan.outcome_key (p : PlannedFile) :
 fileKeyForFile (plan.outcome env p).persistedFile=p.key := processOutcome_key ..

section
variable {p : PlannedFile} (hw : plan.PlannedWrite env p db db')
include hw

theorem PlannedWrite.sameAt (hk:key≠p.key) : db.SameAt db' key := by
 refine Db.Written.sameAt hw ?_ ?_ (RunPlan.outcome_key p ▸ hk)
 · rw [RunPlan.outcome_key]
   exact (factsOf_local env plan.roots p.candidate).symbol_file
 · rw [RunPlan.outcome_key]
   exact (factsOf_local env plan.roots p.candidate).chunk_file

section
variable (hdistinct : plan.NewKeysDistinct) (h : NewFactsFrom env plan db)
 (hp : p.candidate ∈ plan.candidates)
include hdistinct h hp

theorem NewFactsFrom.none_left (hn:plan.existing.get p.key=none) :
 db.findSymbolsByFile p.key=[] ∧ db.findChunksByFile p.key=[] := by
 have hn':(plan.existing.get p.key).isSome=false:=by simp [hn]
 constructor
 · refine eq_nil_iff_forall_not_mem.mpr fun s hs=>?_
   obtain ⟨c,hc,hk,hm⟩:=h.symbols p.key hn s hs
   obtain rfl := hdistinct c hc p.candidate hp hk (hk ▸ hn)
   have hno:=db'.symbols.nodup
   rw [hw.symbols,hn'] at hno
   exact disjoint_of_nodup_append hno (by simpa using mem_of_mem_filter hs) hm
 · refine eq_nil_iff_forall_not_mem.mpr fun x hx=>?_
   obtain ⟨c,hc,hk,hm⟩:=h.chunks p.key hn x hx
   obtain rfl := hdistinct c hc p.candidate hp hk (hk ▸ hn)
   have hno:=db'.chunks.nodup
   rw [hw.chunks,hn'] at hno
   exact disjoint_of_nodup_append hno (by simpa using mem_of_mem_filter hx) hm

theorem NewFactsFrom.extracted : Extracted env plan db' p := by
 have hl:=factsOf_local env plan.roots p.candidate
 have hle:=h.none_left hw hdistinct hp
 refine ⟨hp,?_,?_,?_⟩
 · rw [hw.files,Table.find_upsert,if_pos (RunPlan.outcome_key p).symm]
 · rw [hw.symbolsOf (by rw [RunPlan.outcome_key]; exact hl.symbol_file),
    if_pos (RunPlan.outcome_key p).symm]
   split_ifs with he
   · rfl
   · rw [(hle (by simpa using he)).1,nil_append]
 · rw [hw.chunksOf (by rw [RunPlan.outcome_key]; exact hl.chunk_file),
    if_pos (RunPlan.outcome_key p).symm]
   split_ifs with he
   · rfl
   · rw [(hle (by simpa using he)).2,nil_append]

theorem NewFactsFrom.planned : NewFactsFrom env plan db' := by
 have hex:=h.extracted hw hdistinct hp
 refine ⟨fun key hn s hs=>?_,fun key hn x hx=>?_⟩
 · by_cases hk : key=p.key
   · exact ⟨p.candidate,hp,hk.symm,by rwa [hk,hex.symbols] at hs⟩
   · exact h.symbols key hn s ((PlannedWrite.sameAt hw hk).symbols ▸ hs)
 · by_cases hk : key=p.key
   · exact ⟨p.candidate,hp,hk.symm,by rwa [hk,hex.chunks] at hx⟩
   · exact h.chunks key hn x ((PlannedWrite.sameAt hw hk).chunks ▸ hx)

end

end

theorem NewFactsFrom.shrink (h:NewFactsFrom env plan db)
 (hs:∀key,∀s∈db'.findSymbolsByFile key,s∈db.findSymbolsByFile key)
 (hc:∀key,∀x∈db'.findChunksByFile key,x∈db.findChunksByFile key) :
 NewFactsFrom env plan db' :=
 ⟨fun key hn s hm=>h.symbols key hn s (hs key s hm),
  fun key hn x hm=>h.chunks key hn x (hc key x hm)⟩

theorem NewFactsFrom.wiped (h:NewFactsFrom env plan db)
 (hw:db.Written db' file [] [] [] true) : NewFactsFrom env plan db' := by
 refine h.shrink (fun key s hm=>?_) (fun key x hm=>?_)
 · rw [hw.symbolsOf (by simp)] at hm
   split at hm
   · simp at hm
   · exact hm
 · rw [hw.chunksOf (by simp)] at hm
   split at hm
   · simp at hm
   · exact hm

theorem NewFactsFrom.start (hplan:plan.For env db) (h:db.SameTables db') :
 NewFactsFrom env plan db' := by
 have hnone:∀key,plan.existing.get key=none → key ∉ db.files.rows.map fileKeyForFile:=by
  intro key hn hk
  obtain ⟨f,hf,rfl⟩:=mem_map.mp hk
  rw [(hplan.existing _ f).mpr ⟨hf,rfl⟩] at hn
  cases hn
 rw [←h.files] at hnone
 refine ⟨fun key hn s hs=>?_,fun key hn x hx=>?_⟩
 · obtain ⟨hs,hk⟩:=mem_filter.mp hs
   exact absurd ((of_decide_eq_true hk) ▸ db'.symbolFiles s hs) (hnone key hn)
 · obtain ⟨hx,hk⟩:=mem_filter.mp hx
   exact absurd ((of_decide_eq_true hk) ▸ db'.chunkFiles x hx) (hnone key hn)

theorem NewFactsFrom.step (hdistinct:plan.NewKeysDistinct) {Marks : FileKey → File → Prop}
 {x y : RunState × Db} (h:NewFactsFrom env plan x.2) (hst:PlanStep env plan Marks x y) :
 NewFactsFrom env plan y.2 := by
 cases hst with
 | planned p hc hw => exact h.planned hw hdistinct hc
 | hashFailed c hc hw =>
  obtain ⟨message,existing,-,-,hw⟩:=hw
  exact h.wiped hw
 | notCurrent key file message reason he hm hw => exact h.wiped hw
 | counted => exact h
 | deleted key file he hd =>
  refine h.shrink (fun key s hm=>?_) (fun key x hm=>?_)
  · rw [Db.markDeletedFile_symbolsOf] at hm
    split_ifs at hm
    · simp at hm
    · exact hm
  · rw [Db.markDeletedFile_chunksOf] at hm
    split_ifs at hm
    · simp at hm
    · exact hm
 | retained hr =>
  refine h.shrink (fun key s hm=>?_) (fun key x hm=>?_)
  · simpa [Db.findSymbolsByFile,hr.symbols] using hm
  · simpa [Db.findChunksByFile,hr.chunks] using hm

end

section
variable {env : Env} {inp : ExpansionInput} {roots : List FileKey} {q q' : RefreshQueue}
 {s t : Store}

theorem refreshQueued_indexed {st' : RunState}
 (h:Yields (queue.foldlM (refreshQueued env plan) st) s st' t) :
 (∀key∈st.indexed,key∈st'.indexed) ∧
  ∀p∈queue,(plan.existing.get p.key).isSome → p.key∈st'.indexed := by
 have hke:∀key,∀p∈queue,∀st1 u st2 v,key∈st1.indexed →
  Yields (refreshQueued env plan st1 p) u st2 v → key∈st2.indexed := by
  intro key p _ st1 u st2 v hk hst
  rcases refreshQueued_yields hst with ⟨-,rfl,-⟩|⟨-,rfl,-⟩|⟨-,rfl,-⟩
  · exact hk
  · exact mem_pushUnique.mpr (.inl hk)
  · exact mem_pushUnique.mpr (.inl hk)
 refine ⟨fun key hk=>foldlM_invariant _ (fun st' _=>key∈st'.indexed) _
  (fun p st1 u st2 v hp=>hke key p hp st1 u st2 v) hk h,fun p hp he=>
  foldlM_reaches _ (fun st' _=>p.key∈st'.indexed) hp (fun st1 u st2 v hst=>?_)
   (hke p.key) h⟩
 rcases refreshQueued_yields hst with ⟨hsk,rfl,-⟩|⟨-,rfl,-⟩|⟨-,rfl,-⟩
 · refine hsk.resolve_right fun hn=>?_
   simp [hn] at he
 · exact mem_pushUnique.mpr (.inr rfl)
 · exact mem_pushUnique.mpr (.inr rfl)

end

/-- The phases of an `index_workspace` run up to its relink: the planned files, the
 files that could not be hashed, the expansion, the queue it built, and the
 deletions with the retained rows. -/
structure WorkspacePhases (env : Env) (plan : RunPlan) (st1 st2 st3 st : RunState)
 (s s1 s2 s3 s4 t : Store) (q : RefreshQueue) : Prop where
 planned : Yields (plan.dirty.toIndex.foldlM (indexPlanned env plan) .start) s st1 s1
 failed : Yields (plan.candidates.foldlM (markHashFailed env plan) st1) s1 st2 s2
 tracked : Tracked plan st1.indexed st2
 expansion : Yields (applyConfirmedInvalidationExpansion env (expansionInput plan st1.indexed)
  (confirmedChanges plan [] st2) ⟨[],[],st2.counters⟩) s2 q s3
 expands : Expands env (expansionInput plan st1.indexed) (confirmedChanges plan [] st2).allRoots
  (⟨[],[],st2.counters⟩,s2.db) (q,s3.db)
 queue_scanned : ∀ p ∈ q.queue,p.candidate ∈ plan.candidates
 queued_mem : ∀ key ∈ q.queued,key ∈ q.queue.map PlannedFile.key
 drained : Yields (q.queue.foldlM (refreshQueued env plan) { st2 with counters := q.counters })
  s3 st3 s4
 settled : Yields (settleRun env plan st3) s4 st t

theorem settledWorkspace_phases {db0 : Db} {s t : Store}
 (hplan:plan.For env db0) (h:Yields (settledWorkspace env plan) s st t) :
 ∃st1 st2 st3 s1 s2 s3 s4 q,WorkspacePhases env plan st1 st2 st3 st s s1 s2 s3 s4 t q := by
 simp only [settledWorkspace,expandAndRefresh,yields_bind] at h
 obtain ⟨st1,s1,h1,st2,s2,h2,st3,s4,⟨q,s3,hexp,hdr⟩,h4⟩:=h
 obtain ⟨hr,-⟩ : Recorded st1 ∧ PlanSteps env plan (ForcedMarks plan []) _ _ :=
  indexPlanned_steps hplan.toIndex h1 .start
 obtain ⟨htr,-⟩ : Tracked plan st1.indexed st2 ∧ PlanSteps env plan (ForcedMarks plan []) _ _ :=
  markHashFailed_steps (fun _ hc=>hc) h2 ⟨hr.deltas,fun k hk=>Or.inl (hr.fatal k hk)⟩
 have hsc:∀key c,(expansionInput plan st1.indexed).scannedByPath.get key=some c →
  c∈plan.candidates ∧ fileKeyForCandidate c=key := fun _ _ hc=>scanned_get_some hc
 have hexpa:Expands env (expansionInput plan st1.indexed)
  (confirmedChanges plan [] st2).allRoots (⟨[],[],st2.counters⟩,s2.db) (q,s3.db) :=
  applyConfirmedInvalidationExpansion_expands (fun _ _ hf=>(existingByKey_key hf).2) hexp
 have hqu:=hexpa.queue_scanned (by simp) (fun key c hc=>(hsc key c hc).2)
 exact ⟨st1,st2,st3,s1,s2,s3,s4,q,h1,h2,htr,hexp,hexpa,
  fun p hp=>(hsc _ _ (hqu p hp).2.choose_spec).1,
  hexpa.queued_mem (fun key c hc=>(hsc key c hc).2) (by simp),hdr,h4⟩

def RunPlan.scannedKeys (plan : RunPlan) : List FileKey := plan.candidates.map fileKeyForCandidate

variable {initial : List FileKey}

theorem RunPlan.For.scanned_of_live (hplan:plan.For env db) (hde:plan.dirty.toDelete=[])
 (he:plan.existing.get key=some file) (hl:file.deletedAtUnixMs=none) :
 key∈plan.scannedKeys := by
 by_contra hn
 obtain ⟨hf,hfk⟩:=(hplan.existing key file).mp he
 have := (hplan.toDelete key).mpr ⟨file,hf,hfk,hl,hn⟩
 simp [hde] at this

/-- What a run has done to its scanned files. The files it has marked and not yet
 extracted again are pending. -/
structure ScannedFates (env : Env) (plan : RunPlan) (db0 : Db) (pending : List FileKey)
 (st : RunState) (db : Db) : Prop where
 newFacts : NewFactsFrom env plan db
 indexed : ∀ key ∈ plan.scannedKeys,key ∈ st.indexed →
  (∃ p,p.key = key ∧ Extracted env plan db p) ∨
   (plan.hashed.hashFailures.get key).isSome ∧ db.NotCurrentAt key
 other : ∀ key ∈ plan.scannedKeys,key ∉ st.indexed →
  db0.SameAt db key ∨
   key ∈ pending ∧ (plan.existing.get key).isSome ∧ db.NotCurrentAt key

section
variable {env : Env} {plan : RunPlan} {db0 db db' : Db} {pending : List FileKey}
 {st st' : RunState} {s t : Store} {rest : List FileKey}

theorem ScannedFates.start (hplan:plan.For env db0) (h:db0.SameTables db) :
 ScannedFates env plan db0 pending .start db :=
 ⟨.start hplan h,by simp [RunState.start],fun key _ _=>Or.inl (h.sameAt key)⟩

section
variable (h : ScannedFates env plan db0 pending st db)
include h

theorem ScannedFates.write (hr:∀k∈pending,k=key ∨ k∈rest)
 (hin:∀k,k∈st'.indexed ↔ k∈st.indexed ∨ k=key)
 (hfr:∀k,k≠key → db.SameAt db' k) (hnew:NewFactsFrom env plan db')
 (hke:(∃p,p.key=key ∧ Extracted env plan db' p) ∨
  (plan.hashed.hashFailures.get key).isSome ∧ db'.NotCurrentAt key) :
 ScannedFates env plan db0 rest st' db' := by
 refine ⟨hnew,fun k hs hi=>?_,fun k hs hi=>?_⟩
 · by_cases hk : k=key
   · exact hk ▸ hke
   have hsa:=hfr k hk
   rcases h.indexed k hs (((hin k).mp hi).resolve_right hk) with ⟨p,rfl,hp⟩|⟨hf,hn⟩
   · exact .inl ⟨p,rfl,hp.congr hsa⟩
   · exact .inr ⟨hf,hn.congr hsa⟩
 · have hk:k≠key:=fun he=>hi ((hin k).mpr (.inr he))
   have hsa:=hfr k hk
   rcases h.other k hs (fun hm=>hi ((hin k).mpr (.inl hm))) with ho|⟨hp,he,hn⟩
   · exact .inl (ho.trans hsa)
   · exact .inr ⟨(hr k hp).resolve_left hk,he,hn.congr hsa⟩

theorem ScannedFates.planned (hdistinct:plan.NewKeysDistinct)
 (hr:∀k∈pending,k=p.key ∨ k∈rest) (hp:p.candidate∈plan.candidates)
 (hw:plan.PlannedWrite env p db db') :
 ScannedFates env plan db0 rest (recordOutcome st ⟨p,db⟩ (plan.outcome env p)) db' :=
 h.write hr (fun _=>mem_pushUnique) (fun _ hk=>PlannedWrite.sameAt hw hk)
  (h.newFacts.planned hw hdistinct hp)
  (.inl ⟨p,rfl,h.newFacts.extracted hw hdistinct hp⟩)

theorem ScannedFates.hashFailed {c : FileCandidate} (hplan:plan.For env db0)
 (hr:∀k∈pending,k=fileKeyForCandidate c ∨ k∈rest)
 (hw:HashFailedWrite env plan c db db') :
 ScannedFates env plan db0 rest (recordFailure st (fileKeyForCandidate c)) db' := by
 obtain ⟨message,existing,hm,he,hw⟩:=hw
 have hke:fileKeyForFile (hashFailedRow env existing c message)=fileKeyForCandidate c:=
  ((hplan.existing _ existing).mp he).2
 refine h.write hr (fun _=>mem_pushUnique) (fun k hk=>?_) (h.newFacts.wiped hw)
  (.inr ⟨Option.isSome_iff_exists.mpr ⟨message,hm⟩,hke ▸ hw.notCurrentAt rfl⟩)
 exact hw.sameAt (by simp) (by simp) (hke ▸ hk)

theorem ScannedFates.marked (hplan:plan.For env db0) (he:plan.existing.get key=some file)
 (hpe:key∈plan.scannedKeys → key∈pending)
 (hfa:key∈st.indexed → (plan.hashed.hashFailures.get key).isSome)
 (hw:db.Written db' (notCurrentRow env file message reason) [] [] [] true) :
 ScannedFates env plan db0 pending st db' := by
 have hke:fileKeyForFile (notCurrentRow env file message reason)=key:=
  ((hplan.existing _ file).mp he).2
 have hnc:db'.NotCurrentAt key:=hke ▸ hw.notCurrentAt rfl
 have hfr:∀k,k≠key → db.SameAt db' k:=fun k hk=>
  hw.sameAt (by simp) (by simp) (hke ▸ hk)
 refine ⟨h.newFacts.wiped hw,fun k hs hi=>?_,fun k hs hi=>?_⟩
 · by_cases hk : k=key
   · subst hk
     exact .inr ⟨hfa hi,hnc⟩
   · rcases h.indexed k hs hi with ⟨p,rfl,hp⟩|⟨hf,hn⟩
     · exact .inl ⟨p,rfl,hp.congr (hfr _ hk)⟩
     · exact .inr ⟨hf,hn.congr (hfr k hk)⟩
 · by_cases hk : k=key
   · subst hk
     exact .inr ⟨hpe hs,Option.isSome_iff_exists.mpr ⟨file,he⟩,hnc⟩
   · rcases h.other k hs hi with ho|⟨hp,hex,hn⟩
     · exact .inl (ho.trans (hfr k hk))
     · exact .inr ⟨hp,hex,hn.congr (hfr k hk)⟩

theorem ScannedFates.mono {pending' : List FileKey}
 (hp:∀k∈pending,k∈pending') : ScannedFates env plan db0 pending' st db :=
 ⟨h.newFacts,h.indexed,fun k hs hi=>(h.other k hs hi).imp_right fun hn=>⟨hp k hn.1,hn.2⟩⟩

end

section
variable (hplan : plan.For env db0)
include hplan

theorem indexPlanned_fates (hdistinct:plan.NewKeysDistinct) (hs:db0.SameTables s.db)
 (h:Yields (plan.dirty.toIndex.foldlM (indexPlanned env plan) .start) s st t) :
 ScannedFates env plan db0 [] st t.db ∧ ∀p∈plan.dirty.toIndex,p.key∈st.indexed := by
 refine ⟨?_,fun p hp=>foldlM_reaches _ (fun st _=>p.key∈st.indexed) hp ?_ ?_ h⟩
 · refine foldlM_invariant _ (fun st u=>ScannedFates env plan db0 [] st u.db) _ ?_
    (.start hplan hs) h
   intro p st1 u st2 v hp hI hst
   obtain ⟨rfl,hw⟩:=indexPlanned_yields hst
   exact hI.planned hdistinct (by simp) (hplan.toIndex p hp) hw
 · intro st1 u st2 v hst
   rw [(indexPlanned_yields hst).1]
   exact mem_pushUnique.mpr (.inr rfl)
 · intro a _ st1 u st2 v hk hst
   rw [(indexPlanned_yields hst).1]
   exact mem_pushUnique.mpr (.inl hk)

theorem markHashFailed_fates
 (h:Yields (plan.candidates.foldlM (markHashFailed env plan) st) s st' t)
 (hI:ScannedFates env plan db0 [] st s.db) (hi:st.indexed=initial) :
 ScannedFates env plan db0 [] st' t.db ∧ (∀key∈initial,key∈st'.indexed) ∧
  ∀key∈st'.indexed,key∈initial ∨ (plan.hashed.hashFailures.get key).isSome := by
 refine foldlM_invariant _ (fun st' u=>ScannedFates env plan db0 [] st' u.db ∧
  (∀key∈initial,key∈st'.indexed) ∧
  ∀key∈st'.indexed,key∈initial ∨ (plan.hashed.hashFailures.get key).isSome) _ ?_
  ⟨hI,hi ▸ fun _ hk=>hk,hi ▸ fun _ hk=>Or.inl hk⟩ h
 rintro c st1 u st2 v hc ⟨hI,hmo,hf⟩ hst
 rcases markHashFailed_yields hst with ⟨-,rfl,rfl⟩|⟨-,rfl,hw⟩
 · exact ⟨hI,hmo,hf⟩
 refine ⟨hI.hashFailed hplan (by simp) hw,
  fun key hk=>mem_pushUnique.mpr (.inl (hmo key hk)),fun key hk=>?_⟩
 rcases mem_pushUnique.mp hk with hk|rfl
 · exact hf key hk
 · obtain ⟨message,_,hm,-⟩:=hw
   exact .inr (Option.isSome_iff_exists.mpr ⟨message,hm⟩)

theorem Expands.fates {roots : List FileKey}
 (hf:∀key∈st.indexed,key∈initial ∨ (plan.hashed.hashFailures.get key).isSome)
 (h:Expands env (expansionInput plan initial) roots x y)
 (hI:ScannedFates env plan db0 x.1.queued st x.2) :
 ScannedFates env plan db0 y.1.queued st y.2 := by
 induction h with
 | refl => exact hI
 | tail _ hst ih =>
  cases hst with
  | queued level key hq =>
   obtain ⟨-,-,candidate,-,rfl⟩:=queueCandidateForRefresh_eq_some hq
   exact ih.mono fun k hk=>mem_pushUnique.mpr (.inl hk)
  | marked key file message reason hm hq hw =>
   refine ih.marked hplan hm.existing (fun hs=>?_) (fun hi=>?_) hw
   · exact hq.resolve_left fun hn=>scanned_get_none.mp hn hs
   · exact (hf key hi).resolve_left hm.not_indexed

theorem refreshQueued_fates (hdistinct:plan.NewKeysDistinct)
 (hqu:∀p∈queue,p.candidate∈plan.candidates)
 (h:Yields (queue.foldlM (refreshQueued env plan) st) s st' t)
 (hI:ScannedFates env plan db0 (queue.map PlannedFile.key) st s.db) :
 ScannedFates env plan db0 [] st' t.db := by
 refine foldlM_induct _ (fun rest st' u=>
  ScannedFates env plan db0 (rest.map PlannedFile.key) st' u.db) _ ?_ hI h
 intro p rest st1 u st2 v hp hI hst
 have hr:∀k∈(p::rest).map PlannedFile.key,k=p.key ∨ k∈rest.map PlannedFile.key:=
  fun k hk=>mem_cons.mp hk
 rcases refreshQueued_yields hst with ⟨hsk,rfl,rfl⟩|⟨-,rfl,hw⟩|⟨-,rfl,hw⟩
 · refine ⟨hI.newFacts,hI.indexed,fun key hs hi=>?_⟩
   rcases hI.other key hs hi with ho|⟨hpe,he,hn⟩
   · exact .inl ho
   refine .inr ⟨(hr key hpe).resolve_left ?_,he,hn⟩
   rintro rfl
   rcases hsk with hsk|hsk
   · exact hi hsk
   · simp [hsk] at he
 · exact hI.hashFailed hplan hr hw
 · exact hI.planned hdistinct hr (hqu p hp) hw

end

def rowAfterRetention (env : Env) (indexed : List FileKey) (file : File) : File :=
 if skipsRetention indexed file then file else retainedRow env file

theorem RetainedSoFar.find {indexed : List FileKey} (h:RetainedSoFar env indexed db [] db')
 (key : FileKey) :
 db'.files.find key=(db.files.find key).map (rowAfterRetention env indexed) := by
 have hk:∀g,fileKeyForFile (rowAfterRetention env indexed g)=fileKeyForFile g:=by
  intro g
  unfold rowAfterRetention
  split_ifs <;> rfl
 have hme:∀f,f∈db'.files.rows ↔
   ∃g∈db.files.rows,f=rowAfterRetention env indexed g := by
  simpa [rowAfterRetention] using h.files
 cases hf : db.files.find key with
 | none =>
  rw [Option.map_none,Table.find_eq_none]
  intro f hm
  obtain ⟨g,hg,rfl⟩:=(hme f).mp hm
  rw [hk]
  exact (Table.find_eq_none _).mp hf g hg
 | some g =>
  obtain ⟨hg,rfl⟩:=(Table.find_eq_some _).mp hf
  rw [Option.map_some,Table.find_eq_some]
  exact ⟨(hme _).mpr ⟨g,hg,rfl⟩,hk g⟩

structure SettledFates (env : Env) (plan : RunPlan) (db0 : Db) (st : RunState)
 (db : Db) : Prop where
 planned : ∀ p ∈ plan.dirty.toIndex,p.key ∈ st.indexed
 indexed : ∀ key ∈ plan.scannedKeys,key ∈ st.indexed →
  (∃ p,p.key = key ∧ Extracted env plan db p) ∨
   (plan.hashed.hashFailures.get key).isSome ∧ db.NotCurrentAt key
 row : ∀ key ∈ plan.scannedKeys,key ∉ st.indexed →
  db.files.find key = (db0.files.find key).map (rowAfterRetention env st.indexed)
 symbols : ∀ key ∈ plan.scannedKeys,key ∉ st.indexed →
  db.findSymbolsByFile key = db0.findSymbolsByFile key
 chunks : ∀ key ∈ plan.scannedKeys,key ∉ st.indexed →
  db.findChunksByFile key = db0.findChunksByFile key

theorem settleRun_frame (hplan:plan.For env db0) (h:Yields (settleRun env plan st) s st' t) :
 st'.indexed=st.indexed ∧ ∃mid : Db,(∀key∈plan.scannedKeys,s.db.SameAt mid key) ∧
  RetainedSoFar env st.indexed mid [] t.db := by
 simp only [settleRun,yields_bind] at h
 obtain ⟨st1,s1,hde,counters,s2,hr,rfl,rfl⟩:=h
 have H:st1.indexed=st.indexed ∧ ∀key∈plan.scannedKeys,s.db.SameAt s1.db key:=by
  refine foldlM_invariant _ (fun st1 u=>st1.indexed=st.indexed ∧
   ∀key∈plan.scannedKeys,s.db.SameAt u.db key) _ ?_ ⟨rfl,fun _ _=>.refl _ _⟩ hde
  rintro id st1 u st2 v hid ⟨hi,hI⟩ hst
  rcases deleteFile_yields hst with ⟨-,rfl,rfl⟩|⟨file,he,rfl,hv⟩
  · exact ⟨hi,hI⟩
  refine ⟨hi,fun key hs=>(hI key hs).trans (hv ▸ Db.markDeletedFile_sameAt _ _ _ ?_)⟩
  obtain ⟨f,-,-,-,hu⟩:=(hplan.toDelete id).mp hid
  rw [((hplan.existing id file).mp he).2]
  rintro rfl
  exact hu hs
 have hr:=refreshUnchangedFiles_retained hr
 rw [H.1] at hr
 exact ⟨H.1,s1.db,H.2,hr⟩

theorem ScannedFates.settled (hplan:plan.For env db0) (hI:ScannedFates env plan db0 [] st s.db)
 (hpl:∀p∈plan.dirty.toIndex,p.key∈st.indexed)
 (h:Yields (settleRun env plan st) s st' t) : SettledFates env plan db0 st' t.db := by
 obtain ⟨hi,mid,hmi,hr⟩:=settleRun_frame hplan h
 have hsy:∀key,t.db.findSymbolsByFile key=mid.findSymbolsByFile key:=by
  intro key
  rw [Db.findSymbolsByFile,hr.symbols,Db.findSymbolsByFile]
 have hch:∀key,t.db.findChunksByFile key=mid.findChunksByFile key:=by
  intro key
  rw [Db.findChunksByFile,hr.chunks,Db.findChunksByFile]
 have hsk:∀key f,key∈st.indexed → mid.files.find key=some f →
  t.db.files.find key=some f := by
  intro key f hk hf
  obtain ⟨-,rfl⟩:=(Table.find_eq_some _).mp hf
  rw [hr.find,hf,Option.map_some,rowAfterRetention,if_pos]
  simp [skipsRetention,hk]
 rw [←hi] at hpl
 refine ⟨hpl,fun key hs hk=>?_,fun key hs hk=>?_,fun key hs hk=>?_,
  fun key hs hk=>?_⟩
 · rw [hi] at hk
   have hsa:=hmi key hs
   rcases hI.indexed key hs hk with ⟨p,rfl,hp⟩|⟨hf,hn⟩
   · have hp:=hp.congr hsa
     exact .inl ⟨p,rfl,hp.scanned,hsk _ _ hk hp.row,(hsy _).trans hp.symbols,
      (hch _).trans hp.chunks⟩
   have hn:=hn.congr hsa
   obtain ⟨f,hrow,hst⟩:=hn.row
   exact .inr ⟨hf,⟨f,hsk _ _ hk hrow,hst⟩,(hsy _).trans hn.symbols,
    (hch _).trans hn.chunks⟩
 all_goals
  rw [hi] at hk
  have hsa:=((hI.other key hs hk).resolve_right (by simp)).trans (hmi key hs)
 · rw [hr.find,hsa.row,hi]
 · rw [hsy,hsa.symbols]
 · rw [hch,hsa.chunks]

theorem settledWorkspace_fates (hplan:plan.For env db0) (hdistinct:plan.NewKeysDistinct)
 (hs:db0.SameTables s.db) (h:Yields (settledWorkspace env plan) s st t) :
 SettledFates env plan db0 st t.db := by
 obtain ⟨st1,st2,st3,s1,s2,s3,s4,q,ph⟩:=settledWorkspace_phases hplan h
 obtain ⟨f1,hpl⟩:=indexPlanned_fates hplan hdistinct hs ph.planned
 obtain ⟨f2,hmo,hf⟩:=markHashFailed_fates hplan ph.failed f1 rfl
 have f3:=(ph.expands.fates hplan hf f2).mono ph.queued_mem
 have f3':ScannedFates env plan db0 (q.queue.map PlannedFile.key)
  { st2 with counters := q.counters } s3.db := ⟨f3.newFacts,f3.indexed,f3.other⟩
 have f4:=refreshQueued_fates hplan hdistinct ph.queue_scanned ph.drained f3'
 have hmo':=(refreshQueued_indexed ph.drained).1
 exact f4.settled hplan (fun p hp=>hmo' _ (hmo _ (hpl p hp))) ph.settled

end

end DhKit.Indexer
