import DhKit.VectorTables

/-!
# What the vector operations do

Every operation of the vector index leaves files, chunks and embeddings as they are.
-/
namespace DhKit.Vectors
open KeyedTables CommitRules RankedSelection List

variable {F : Type}
 {u : Tables F} {chunkId : Int} {e : EmbeddingRow F} {v : VectorRow F} {r : Vec0Row F}

def Vec0Row.indexed (r : Vec0Row F) : VectorRow F :=
 ⟨r.chunkId,r.scope,r.contentHash,r.embedding⟩

def EmbeddingRow.indexed (e : EmbeddingRow F) (workspaceId : Int) : VectorRow F :=
 ⟨e.chunkId,⟨workspaceId,e.model,e.dimensions⟩,e.contentHash,e.vector⟩

namespace Tables
variable {s t : Tables F} {contentHash : String} {workspaceId : Int}

def Derived (s : Tables F) : Prop := ∀ r ∈ s.vec0.rows,r.indexed ∈ s.vectorIndex.rows

def Live (s : Tables F) : Prop :=
 ∀ v ∈ s.vectorIndex.rows,s.liveWorkspace v.chunkId v.contentHash = some v.scope.workspaceId

def SameFacts (s t : Tables F) : Prop :=
 t.files = s.files ∧ t.chunks = s.chunks ∧ t.embeddings = s.embeddings

theorem SameFacts.refl (s : Tables F) : SameFacts s s := ⟨rfl,rfl,rfl⟩

theorem SameFacts.trans (h:SameFacts s t) (h':SameFacts t u) : SameFacts s u :=
 ⟨h'.1.trans h.1,h'.2.1.trans h.2.1,h'.2.2.trans h.2.2⟩

theorem SameFacts.liveWorkspace (h:SameFacts s t) : t.liveWorkspace=s.liveWorkspace := by
 funext c hash
 simp [Tables.liveWorkspace,h.1,h.2.1]

theorem SameFacts.embeddingRecordsForScope (h:SameFacts s t) (σ : Scope) :
 t.embeddingRecordsForScope σ=s.embeddingRecordsForScope σ := by
 simp [Tables.embeddingRecordsForScope,h.2.2,h.liveWorkspace]

theorem liveWorkspace_eq_some :
 s.liveWorkspace chunkId contentHash=some workspaceId ↔
  ∃c∈s.chunks.rows,∃f∈s.files.rows,c.id=chunkId ∧ f.id=c.fileId ∧
   c.contentHash=contentHash ∧ f.deletedAtUnixMs=none ∧ f.workspaceId=workspaceId := by
 simp only [liveWorkspace,Option.bind_eq_bind,Option.bind_eq_some_iff,Table.find_eq_some]
 constructor
 · rintro ⟨c,⟨hc,hid⟩,f,⟨hf,hfi⟩,h⟩
   split_ifs at h with hl
   exact ⟨c,hc,f,hf,hid,hfi,hl.1,hl.2,by simpa using h⟩
 · rintro ⟨c,hc,f,hf,hid,hfi,hh,hd,hw⟩
   exact ⟨c,⟨hc,hid⟩,f,⟨hf,hfi⟩,by rw [if_pos ⟨hh,hd⟩,hw]⟩

theorem stale_of_live (h:s.liveWorkspace chunkId contentHash=some workspaceId) :
 s.stale chunkId contentHash=false := by
 obtain ⟨c,hc,f,hf,hid,hfi,hh,hd,-⟩:=liveWorkspace_eq_some.mp h
 have hcf:s.chunks.find chunkId=some c:=s.chunks.find_eq_some.mpr ⟨hc,hid⟩
 have hff:s.files.find c.fileId=some f:=s.files.find_eq_some.mpr ⟨hf,hfi⟩
 simp [stale,hcf,hff,hh,hd]

theorem live_of_not_stale (h:s.stale chunkId contentHash=false) :
 ∃workspaceId,s.liveWorkspace chunkId contentHash=some workspaceId := by
 unfold stale at h
 cases hc : s.chunks.find chunkId with
 | none => simp [hc] at h
 | some c =>
  obtain ⟨hcm,hid⟩:=s.chunks.find_eq_some.mp hc
  obtain ⟨f,hf,hfi⟩:=mem_map.mp (s.chunkFiles c hcm)
  have hff:s.files.find c.fileId=some f:=s.files.find_eq_some.mpr ⟨hf,hfi⟩
  simp only [hc,hff,Option.any_some,Bool.or_eq_false_iff,bne_eq_false_iff_eq,
   Option.isSome_eq_false_iff,Option.isNone_iff_eq_none] at h
  exact ⟨f.workspaceId,liveWorkspace_eq_some.mpr
   ⟨c,hcm,f,hf,hid,hfi,h.1.symm,h.2,rfl⟩⟩

theorem mem_embeddingRecordsForScope {σ : Scope} :
 e∈s.embeddingRecordsForScope σ ↔ e∈s.embeddings.rows ∧ e.model=σ.model ∧
  e.dimensions=σ.dimensions ∧
  s.liveWorkspace e.chunkId e.contentHash=some σ.workspaceId := by
 simp [embeddingRecordsForScope]

section
variable {p : VectorRow F → Bool} {q : Vec0Row F → Bool}

theorem sameFacts_deleteVectors : SameFacts s (s.deleteVectors p q) := ⟨rfl,rfl,rfl⟩

@[simp] theorem mem_vectorIndex_deleteVectors :
 v∈(s.deleteVectors p q).vectorIndex.rows ↔ v∈s.vectorIndex.rows ∧ p v=false := by
 simp [deleteVectors]

@[simp] theorem mem_vec0_deleteVectors :
 r∈(s.deleteVectors p q).vec0.rows ↔ r∈s.vec0.rows ∧ q r=false := by
 simp [deleteVectors]

theorem Derived.deleteVectors (hs:s.Derived)
 (h:∀r∈s.vec0.rows,q r=false → p r.indexed=false) :
 (s.deleteVectors p q).Derived := by
 intro r hr
 obtain ⟨hr,hq⟩:=mem_vec0_deleteVectors.mp hr
 exact mem_vectorIndex_deleteVectors.mpr ⟨hs r hr,h r hr hq⟩

end

theorem Live.of_subset (hs:s.Live) (hf:SameFacts s t)
 (h:∀v∈t.vectorIndex.rows,v∈s.vectorIndex.rows) : t.Live := by
 intro v hv
 rw [hf.liveWorkspace]
 exact hs v (h v hv)

end Tables

open Tables

section
variable {s t : Tables F} {n : Nat}

theorem yields_removeVectors {p : VectorRow F → Bool} {q : Vec0Row F → Bool} :
 Yields (removeVectors p q) s n t ↔
  (s.vectorIndex.rows.filter p).length=n ∧ s.deleteVectors p q=t := by
 simp only [removeVectors,yields_bind,yields_query,yields_change,yields_pure]
 constructor
 · rintro ⟨_,_,⟨rfl,rfl⟩,_,_,rfl,rfl,rfl⟩
   exact ⟨rfl,rfl⟩
 · rintro ⟨rfl,rfl⟩
   exact ⟨_,_,⟨rfl,rfl⟩,(),_,rfl,rfl,rfl⟩

theorem deleteVectorIndexRecordByScope_spec (hs:s.Derived) {model : String} {dimensions : Nat}
 (h:Yields (deleteVectorIndexRecordByScope chunkId model dimensions) s n t) :
 SameFacts s t ∧
 (∀v,v∈t.vectorIndex.rows ↔
  v∈s.vectorIndex.rows ∧ v.key≠(chunkId,model,dimensions)) ∧
 ∀r,r∈t.vec0.rows ↔
  r∈s.vec0.rows ∧ r.indexed.key≠(chunkId,model,dimensions) := by
 simp only [deleteVectorIndexRecordByScope,yields_bind] at h
 obtain ⟨_,_,⟨rfl,rfl⟩,h⟩:=h
 obtain ⟨-,rfl⟩:=yields_removeVectors.mp h
 refine ⟨sameFacts_deleteVectors,fun v=>by simp,fun r=>?_⟩
 rw [mem_vec0_deleteVectors]
 refine and_congr_right fun hr=>?_
 rw [decide_eq_false_iff_not,not_iff_not]
 constructor
 · rintro ⟨hc,ha⟩
   obtain ⟨ws,-,hws⟩:=any_eq_true.mp ha
   have hws:r.scope=⟨ws,model,dimensions⟩:=by simpa using hws
   simp [VectorRow.key,Vec0Row.indexed,hc,hws]
 · intro hk
   -- the index row that `r` repeats names the workspace of `r`
   obtain ⟨hc,hm,hd⟩ : r.chunkId=chunkId ∧ r.scope.model=model ∧
    r.scope.dimensions=dimensions := by simpa [VectorRow.key,Vec0Row.indexed] using hk
   refine ⟨hc,any_eq_true.mpr ⟨r.scope.workspaceId,?_,?_⟩⟩
   · simp only [vectorWorkspacesForChunkScope,mem_dedup,mem_map,mem_filter]
     exact ⟨r.indexed,⟨hs r hr,by simpa using hk⟩,rfl⟩
   · subst hm hd
     simp

theorem deleteVectorIndexRecordByScope_delivers (s : Tables F) (chunkId : Int) (model : String)
 (dimensions : Nat) :
 ∃n t,Yields (deleteVectorIndexRecordByScope chunkId model dimensions) s n t :=
 ⟨_,_,rfl⟩

theorem deleteVectorIndexRecordByChunk_spec
 (h:Yields (deleteVectorIndexRecordByChunk chunkId) s n t) :
 SameFacts s t ∧
 (∀v,v∈t.vectorIndex.rows ↔ v∈s.vectorIndex.rows ∧ v.chunkId≠chunkId) ∧
 ∀r,r∈t.vec0.rows ↔ r∈s.vec0.rows ∧ r.chunkId≠chunkId := by
 obtain ⟨-,rfl⟩:=yields_removeVectors.mp h
 exact ⟨sameFacts_deleteVectors,fun v=>by simp,fun r=>by simp⟩

theorem pruneStaleVectorRecords_spec (h:Yields pruneStaleVectorRecords s n t) :
 SameFacts s t ∧
 (∀v,v∈t.vectorIndex.rows ↔
  v∈s.vectorIndex.rows ∧ s.stale v.chunkId v.contentHash=false) ∧
 ∀r,r∈t.vec0.rows ↔ r∈s.vec0.rows ∧ s.stale r.chunkId r.contentHash=false := by
 simp only [pruneStaleVectorRecords,yields_bind] at h
 obtain ⟨_,_,⟨rfl,rfl⟩,h⟩:=h
 obtain ⟨-,rfl⟩:=yields_removeVectors.mp h
 exact ⟨sameFacts_deleteVectors,fun v=>by simp,fun r=>by simp⟩

end

section
variable {s t : Tables F}

/-- A vec0 row was written, or its place was cleared. -/
structure Vec0Written (r : Vec0Row F) (s t : Tables F) : Prop where
 facts : SameFacts s t
 index : t.vectorIndex = s.vectorIndex
 only : ∀ x ∈ t.vec0.rows,x ∈ s.vec0.rows ∨ x = r
 others : ∀ x ∈ s.vec0.rows,x.key≠r.key → x ∈ t.vec0.rows

theorem Vec0Written.derived (h:Vec0Written r s t) (hs:s.Derived)
 (hr:r.indexed∈s.vectorIndex.rows) : t.Derived := by
 intro x hx
 rw [h.index]
 rcases h.only x hx with hx|rfl
 · exact hs x hx
 · exact hr

theorem insertVec0_free (hf:r.key ∉ s.vec0.rows.map Vec0Row.key)
 (hl:r.embedding.length=r.scope.dimensions) :
 ∃t,s.insertVec0 r = .ok t ∧ SameFacts s t ∧ t.vectorIndex=s.vectorIndex ∧
  t.vec0.rows=s.vec0.rows++[r] := by
 unfold insertVec0
 rw [if_pos hl]
 cases h : s.vec0.insert r with
 | none =>
  unfold Table.insert at h
  rw [dif_neg hf] at h
  cases h
 | some u => exact ⟨_,rfl,⟨rfl,rfl,rfl⟩,rfl,(Table.insert_eq_some.mp h).2⟩

theorem upsertVec0Record_spec (s : Tables F) (r : Vec0Row F) (hd:r.scope.dimensions≠0) :
 ∃o t,upsertVec0Record r.scope r.chunkId r.contentHash r.embedding s=(o,t) ∧
  Vec0Written r s t ∧
  (o = .ok () ∨ r.embedding.length=r.scope.dimensions → r∈t.vec0.rows) := by
 have hru:upsertVec0Record r.scope r.chunkId r.contentHash r.embedding s =
  statement (insertVec0 r)
   (s.deleteVectors (fun _=>false) fun x=>x.key=(r.scope,r.chunkId)) := by
  simp only [upsertVec0Record,ensureVec0Table,if_neg hd]
  rfl
 have hin:s.vectorIndex.deleteWhere (fun _=>false)=s.vectorIndex:=
  Table.ext_rows (by simp)
 by_cases hl : r.embedding.length=r.scope.dimensions
 · have hfr:r.key ∉ (s.deleteVectors (fun _=>false)
    fun x=>x.key=(r.scope,r.chunkId)).vec0.rows.map Vec0Row.key := by
    intro hm
    obtain ⟨x,hx,hk⟩:=mem_map.mp hm
    exact of_decide_eq_false (mem_vec0_deleteVectors.mp hx).2 hk
   obtain ⟨t,ht,hf,hi,hr⟩:=insertVec0_free hfr hl
   refine ⟨.ok (),t,by rw [hru,statement,ht],⟨sameFacts_deleteVectors.trans hf,?_,?_,?_⟩,
    fun _=>by simp [hr]⟩
   · rw [hi]
     exact hin
   · intro x hx
     rw [hr] at hx
     rcases mem_append.mp hx with hx|hx
     · exact .inl (mem_vec0_deleteVectors.mp hx).1
     · exact .inr (mem_singleton.mp hx)
   · intro x hx hk
     rw [hr]
     exact mem_append_left _ (mem_vec0_deleteVectors.mpr ⟨hx,decide_eq_false hk⟩)
 · refine ⟨.error (.dimensionMismatch r.scope.dimensions r.embedding.length),_,
    by rw [hru,statement,insertVec0,if_neg hl],⟨sameFacts_deleteVectors,hin,?_,?_⟩,
    by simp [hl]⟩
   · exact fun x hx=>Or.inl (mem_vec0_deleteVectors.mp hx).1
   · exact fun x hx hk=>mem_vec0_deleteVectors.mpr ⟨hx,decide_eq_false hk⟩

theorem upsertVec0Record_written (s : Tables F) (r : Vec0Row F) :
 Vec0Written r s (upsertVec0Record r.scope r.chunkId r.contentHash r.embedding s).2 := by
 by_cases hd : r.scope.dimensions=0
 · rw [upsertVec0Record,if_pos hd]
   exact ⟨.refl s,rfl,fun _ h=>Or.inl h,fun _ h _=>h⟩
 · obtain ⟨o,t,hr,h,-⟩:=upsertVec0Record_spec s r hd
   rwa [hr]

def EmbeddingRow.vec0 (e : EmbeddingRow F) (workspaceId : Int) : Vec0Row F :=
 ⟨⟨workspaceId,e.model,e.dimensions⟩,e.chunkId,e.contentHash,e.vector⟩

/-- The index record of `e` was written if its chunk is live, and cleared otherwise. -/
structure VectorWritten (e : EmbeddingRow F) (s t : Tables F) : Prop where
 facts : SameFacts s t
 index : ∀ v,v ∈ t.vectorIndex.rows ↔
  (∃ ws,s.liveWorkspace e.chunkId e.contentHash = some ws ∧ v = e.indexed ws) ∨
   v ∈ s.vectorIndex.rows ∧ v.key≠e.key
 derived : t.Derived
 others : ∀ r ∈ s.vec0.rows,r.chunkId≠e.chunkId → r ∈ t.vec0.rows
 stored : ∀ ws,s.liveWorkspace e.chunkId e.contentHash = some ws → e.dimensions≠0 →
  e.vector.length = e.dimensions → e.vec0 ws ∈ t.vec0.rows

theorem storeVector_spec (hc:v.chunkId∈s.chunks.rows.map ChunkRow.id) :
 ∃t,s.storeVector v = .ok t ∧ SameFacts s t ∧ t.vectorIndex=s.vectorIndex.upsert v ∧
  t.vec0=s.vec0 := by
 unfold storeVector
 rw [dif_pos hc]
 exact ⟨_,rfl,⟨rfl,rfl,rfl⟩,rfl,rfl⟩

theorem upsertVectorIndexRecord_spec (hs:s.Derived) (e : EmbeddingRow F) :
 ∃t,Yields (upsertVectorIndexRecord e.chunkId e.model e.dimensions e.contentHash e.vector)
  s () t ∧ VectorWritten e s t := by
 obtain ⟨n,u,hu⟩:=deleteVectorIndexRecordByScope_delivers s e.chunkId e.model e.dimensions
 obtain ⟨hf,hi,h0⟩:=deleteVectorIndexRecordByScope_spec hs hu
 have ho:∀r∈s.vec0.rows,r.chunkId≠e.chunkId → r∈u.vec0.rows:=by
  intro r hr hne
  exact (h0 r).mpr ⟨hr,fun hk=>hne (congrArg Prod.fst hk)⟩
 have hde:u.Derived:=by
  intro r hr
  obtain ⟨hr,hk⟩:=(h0 r).mp hr
  exact (hi _).mpr ⟨hs r hr,hk⟩
 simp only [upsertVectorIndexRecord,yields_bind,yields_query]
 cases hl : s.liveWorkspace e.chunkId e.contentHash with
 | none =>
  refine ⟨u,⟨none,s,⟨rfl,rfl⟩,?_⟩,hf,?_,hde,ho,by simp [hl]⟩
  · simp only [yields_bind,yields_pure]
    exact ⟨n,u,hu,trivial,rfl⟩
  · intro v
    rw [hi]
    simp [hl,EmbeddingRow.key]
 | some ws =>
  obtain ⟨c,hc,-,-,hid,-⟩:=liveWorkspace_eq_some.mp hl
  have hch:(e.indexed ws).chunkId∈u.chunks.rows.map ChunkRow.id:=by
   rw [hf.2.1]
   exact mem_map.mpr ⟨c,hc,hid⟩
  obtain ⟨w,hw,hfw,hiw,h0w⟩:=storeVector_spec hch
  have hn:(e.indexed ws)∈w.vectorIndex.rows:=by
   rw [hiw]
   exact Table.mem_upsert_self _ _
  -- no other index row has the key that was cleared
  have hro:∀v,v∈w.vectorIndex.rows ↔ v=e.indexed ws ∨ v∈u.vectorIndex.rows:=by
   intro v
   rw [hiw,Table.mem_upsert]
   refine or_congr_right ⟨fun h=>h.1,fun h=>⟨h,((hi v).mp h).2⟩⟩
  have hwritten:=upsertVec0Record_written w (e.vec0 ws)
  have hwd:w.Derived:=by
   intro r hr
   rw [h0w] at hr
   exact (hro _).mpr (.inr (hde r hr))
  refine ⟨_,⟨some ws,s,⟨rfl,rfl⟩,?_⟩,?_,?_,hwritten.derived hwd hn,?_,?_⟩
  · simp only [yields_bind,yields_statement,yields_pure]
    exact ⟨n,u,hu,(),w,hw,_,_,rfl,trivial,rfl⟩
  · exact hf.trans (hfw.trans hwritten.facts)
  · intro v
    rw [hwritten.index,hro,hi]
    simp [hl,EmbeddingRow.key]
  · intro r hr hne
    refine hwritten.others r ?_ fun hk=>hne (congrArg Prod.snd hk)
    rw [h0w]
    exact ho r hr hne
  intro ws' hws hd hle
  have hws:ws=ws':=Option.some.inj (hl.symm.trans hws)
  subst hws
  obtain ⟨o,t,hru,-,hme⟩:=upsertVec0Record_spec w (e.vec0 ws) hd
  have ht:(upsertVec0Record (e.vec0 ws).scope (e.vec0 ws).chunkId (e.vec0 ws).contentHash
   (e.vec0 ws).embedding w).2=t := by rw [hru]
  rw [ht]
  exact hme (.inr hle)

end

section
variable {s t : Tables F} {σ : Scope} {n : Nat} {rest : List (EmbeddingRow F)} {w : Tables F}

theorem embedding_key_inj {e' : EmbeddingRow F} (he:e∈s.embeddingRecordsForScope σ)
 (he':e'∈s.embeddingRecordsForScope σ) (h:e.chunkId=e'.chunkId) : e=e' := by
 obtain ⟨he,hm,hd,-⟩:=mem_embeddingRecordsForScope.mp he
 obtain ⟨he',hm',hd',-⟩:=mem_embeddingRecordsForScope.mp he'
 exact s.embeddings.row_unique he he' (by simp [EmbeddingRow.key,h,hm,hm',hd,hd'])

/-- What hydration leaves: the index of the scope holds the canonical embeddings, and
 vec0 those of the right length. -/
structure Hydrated (σ : Scope) (s t : Tables F) : Prop where
 facts : SameFacts s t
 derived : t.Derived
 index : ∀ v,v ∈ t.vectorIndex.rows ↔
  v ∈ s.vectorIndex.rows ∧ v.scope≠σ ∨
   ∃ e ∈ s.embeddingRecordsForScope σ,v = e.indexed σ.workspaceId
 stored : ∀ e ∈ s.embeddingRecordsForScope σ,e.vector.length = σ.dimensions →
  e.vec0 σ.workspaceId ∈ t.vec0.rows

/-- The state of the hydration loop: `rest` is still to be written. -/
structure Hydrating (σ : Scope) (s : Tables F) (rest : List (EmbeddingRow F)) (u : Tables F) :
 Prop where
 facts : SameFacts s u
 derived : u.Derived
 index : ∀ v,v ∈ u.vectorIndex.rows ↔
  v ∈ s.vectorIndex.rows ∧ v.scope≠σ ∨
   ∃ e ∈ s.embeddingRecordsForScope σ,e ∉ rest ∧ v = e.indexed σ.workspaceId
 stored : ∀ e ∈ s.embeddingRecordsForScope σ,e ∉ rest → e.vector.length = σ.dimensions →
  e.vec0 σ.workspaceId ∈ u.vec0.rows

theorem Hydrating.step (hli:s.Live) (hd:σ.dimensions≠0)
 (he:e∈s.embeddingRecordsForScope σ)
 (hn:e ∉ rest) (hu:Hydrating σ s (e::rest) u) (hw:VectorWritten e u w) :
 Hydrating σ s rest w := by
 obtain ⟨-,hm,hdi,hws⟩:=mem_embeddingRecordsForScope.mp he
 have hlw:u.liveWorkspace e.chunkId e.contentHash=some σ.workspaceId:=by
  rw [hu.facts.liveWorkspace,hws]
 refine ⟨hu.facts.trans hw.facts,hw.derived,fun v=>?_,fun e' he' hr hl=>?_⟩
 · rw [hw.index,hu.index]
   constructor
   · rintro (⟨ws,hlw',rfl⟩|⟨h|⟨e',he',hr,rfl⟩,-⟩)
     · have : σ.workspaceId=ws := Option.some.inj (hlw.symm.trans hlw')
       exact .inr ⟨e,he,hn,by rw [this]⟩
     · exact .inl h
     · exact .inr ⟨e',he',fun h=>hr (mem_cons_of_mem _ h),rfl⟩
   rintro (⟨hv,hσ⟩|⟨e',he',hr,rfl⟩)
   · refine .inr ⟨.inl ⟨hv,hσ⟩,fun hk=>hσ ?_⟩
     obtain ⟨hc,hvm,hvd⟩ : v.chunkId=e.chunkId ∧ v.scope.model=e.model ∧
      v.scope.dimensions=e.dimensions := by
      simpa [VectorRow.key,EmbeddingRow.key] using hk
     obtain ⟨c,hcm,f,hf,hid,hfi,-,-,hvw⟩:=liveWorkspace_eq_some.mp (hli v hv)
     obtain ⟨c',hcm',f',hf',hid',hfi',-,-,hew⟩:=liveWorkspace_eq_some.mp hws
     have hcc:c=c':=s.chunks.row_unique hcm hcm' (by rw [hid,hid',hc])
     subst hcc
     have hff:f=f':=s.files.row_unique hf hf' (by rw [hfi,hfi'])
     rcases hsc : v.scope with ⟨a,b,c⟩
     rcases σ with ⟨a',b',c'⟩
     simp_all
   · by_cases hee : e'=e
     · subst hee
       exact .inl ⟨_,hlw,rfl⟩
     · refine .inr ⟨.inr ⟨e',he',by simp [hee,hr],rfl⟩,fun hk=>hee ?_⟩
       exact embedding_key_inj he' he (congrArg Prod.fst hk)
 · by_cases hee : e'=e
   · subst hee
     exact hw.stored _ hlw (by rw [hdi]; exact hd) (by rw [hl,hdi])
   · refine hw.others _ (hu.stored e' he' (by simp [hee,hr]) hl) fun hc=>hee ?_
     exact embedding_key_inj he' he hc

theorem embeddingRecordsForScope_nodup (s : Tables F) (σ : Scope) :
 (s.embeddingRecordsForScope σ).Nodup :=
 (Nodup.of_map _ s.embeddings.nodup).filter _

theorem Hydrating.run (hl:s.Live) (hd:σ.dimensions≠0)
 (hsu:∀e∈rest,e∈s.embeddingRecordsForScope σ) (hn:rest.Nodup)
 (hu:Hydrating σ s rest u) (n : Nat) :
 ∃t,Yields (rest.foldlM (fun hydrated e=>do
  upsertVectorIndexRecord e.chunkId e.model e.dimensions e.contentHash e.vector
  pure (hydrated+1)) n) u (n+rest.length) t ∧ Hydrating σ s [] t := by
 induction rest generalizing u n with
 | nil => exact ⟨u,by simp,hu⟩
 | cons e rest ih =>
  obtain ⟨hne,hn⟩:=nodup_cons.mp hn
  obtain ⟨w,hr,hw⟩:=upsertVectorIndexRecord_spec hu.derived e
  obtain ⟨t,ht,hdo⟩:=ih (fun a ha=>hsu a (mem_cons_of_mem _ ha)) hn
   (hu.step hl hd (hsu e mem_cons_self) hne hw) (n+1)
  refine ⟨t,?_,hdo⟩
  simp only [foldlM_cons,yields_bind,yields_pure]
  refine ⟨n+1,w,⟨(),w,hr,rfl,rfl⟩,?_⟩
  rwa [length_cons,Nat.add_comm rest.length,←Nat.add_assoc]

theorem yields_clearVectorIndexScope (hd:σ.dimensions≠0) :
 Yields (clearVectorIndexScope σ) s ()
  ((s.deleteVectors (fun v=>v.scope=σ) fun _=>false).deleteVectors (fun _=>false)
   fun r=>r.scope=σ) := by
 simp only [clearVectorIndexScope,ensureVec0Table,if_neg hd,yields_bind,yields_pure]
 exact ⟨(),_,rfl,(),_,⟨trivial,rfl⟩,rfl⟩

theorem hydrateVectorIndex_spec (hs:s.Derived) (hl:s.Live) (hd:σ.dimensions≠0) :
 ∃t,Yields (hydrateVectorIndex σ) s (s.embeddingRecordsForScope σ).length t ∧
  Hydrated σ s t := by
 let u:=(s.deleteVectors (fun v=>v.scope=σ) fun _=>false).deleteVectors (fun _=>false)
  fun r=>r.scope=σ
 have hf:SameFacts s u:=sameFacts_deleteVectors.trans sameFacts_deleteVectors
 have hst:Hydrating σ s (s.embeddingRecordsForScope σ) u:=by
  refine ⟨hf,fun r hr=>?_,fun v=>?_,fun e he hn=>absurd he hn⟩
  · simp only [u,mem_vec0_deleteVectors,decide_eq_false_iff_not] at hr
    simpa [u] using ⟨hs r hr.1.1,hr.2⟩
  · have hnone:¬∃e∈s.embeddingRecordsForScope σ,
     e ∉ s.embeddingRecordsForScope σ ∧ v=e.indexed σ.workspaceId := by
     rintro ⟨e,he,hn,-⟩
     exact hn he
    simp [u,hnone]
 obtain ⟨t,hru,ht⟩:=hst.run hl hd (fun _ h=>h) (embeddingRecordsForScope_nodup s σ) 0
 refine ⟨t,?_,ht.facts,ht.derived,fun v=>?_,fun e he=>ht.stored e he (by simp)⟩
 · simp only [hydrateVectorIndex,if_neg hd,ensureVec0Table,yields_bind,yields_pure,yields_query]
   refine ⟨(),s,⟨trivial,rfl⟩,(),u,yields_clearVectorIndexScope hd,_,u,⟨rfl,rfl⟩,?_⟩
   rw [hf.embeddingRecordsForScope]
   simpa using hru
 · rw [ht.index]
   simp

theorem Hydrated.live (h:Hydrated σ s t) (hs:s.Live) : t.Live := by
 intro v hv
 rw [h.facts.liveWorkspace]
 rcases (h.index v).mp hv with ⟨hv,-⟩|⟨e,he,rfl⟩
 · exact hs v hv
 · exact (mem_embeddingRecordsForScope.mp he).2.2.2

structure Synced (s t : Tables F) : Prop where
 facts : SameFacts s t
 index : t.vectorIndex = s.vectorIndex
 derived : t.Derived

theorem Synced.live (h:Synced s t) (hs:s.Live) : t.Live :=
 hs.of_subset h.facts fun v hv=>by rwa [h.index] at hv

theorem Synced.step (hv:v∈s.vectorIndex.rows)
 (hu:Synced s u) (hw:Vec0Written ⟨v.scope,v.chunkId,v.contentHash,v.vector⟩ u w) :
 Synced s w :=
 ⟨hu.facts.trans hw.facts,hw.index.trans hu.index,
  hw.derived hu.derived (by rw [hu.index]; exact hv)⟩

theorem mem_freshVectorRecords : v∈s.freshVectorRecords σ ↔
 v∈s.vectorIndex.rows ∧ v.scope=σ ∧ (s.liveWorkspace v.chunkId v.contentHash).isSome := by
 simp only [freshVectorRecords,vectorRecordsForScope,mem_filter,decide_eq_true_eq,and_assoc]

theorem synced_cleared (hs:s.Derived) :
 Synced s (s.deleteVectors (fun _=>false) fun r=>r.scope=σ) :=
 ⟨sameFacts_deleteVectors,Table.ext_rows (by simp [deleteVectors]),
  hs.deleteVectors fun _ _ _=>rfl⟩

theorem syncVec0FromVectorIndex_synced (hs:s.Derived) (hd:σ.dimensions≠0) :
 Synced s (syncVec0FromVectorIndex σ s).2 := by
 have hl:Keeps (Synced s) ((s.freshVectorRecords σ).foldlM (fun synced v=>do
  upsertVec0Record σ v.chunkId v.contentHash v.vector
  pure (synced+1)) 0 : VecM F Nat) := by
  refine Keeps.foldlM_of_mem (fun _ v hv=>Keeps.bind (fun u hu=>?_) fun _=>Keeps.pure _) _
  obtain ⟨hme,rfl,-⟩:=mem_freshVectorRecords.mp hv
  exact hu.step hme (upsertVec0Record_written u ⟨v.scope,v.chunkId,v.contentHash,v.vector⟩)
 have hr:=hl _ (synced_cleared hs (σ := σ))
 simp only [syncVec0FromVectorIndex,ensureVec0Table,if_neg hd]
 exact hr

theorem syncVec0FromVectorIndex_complete (hd:σ.dimensions≠0)
 (h:Yields (syncVec0FromVectorIndex σ) s n t)
 (hv:v∈s.freshVectorRecords σ) :
 (⟨σ,v.chunkId,v.contentHash,v.vector⟩ : Vec0Row F)∈t.vec0.rows := by
 simp only [syncVec0FromVectorIndex,ensureVec0Table,if_neg hd,yields_bind,yields_change] at h
 obtain ⟨_,_,⟨-,rfl⟩,_,_,⟨rfl,rfl⟩,_,_,rfl,hr⟩:=h
 have ho:∀a∈s.freshVectorRecords σ,∀ (b : Nat) u b' w,Yields (do
  upsertVec0Record σ a.chunkId a.contentHash a.vector
  pure (b+1)) u b' w → a=v ∨ ⟨σ,v.chunkId,v.contentHash,v.vector⟩∈u.vec0.rows →
  ⟨σ,v.chunkId,v.contentHash,v.vector⟩∈w.vec0.rows := by
  intro a ha b u b' w hst hI
  simp only [yields_bind] at hst
  obtain ⟨_,_,hp,-,rfl⟩:=hst
  obtain ⟨o,w',hr',hw,hn⟩:=
   upsertVec0Record_spec u ⟨σ,a.chunkId,a.contentHash,a.vector⟩ hd
  obtain ⟨rfl,rfl⟩ : .ok ()=o ∧ _=w' := by
   have := hp.symm.trans hr'
   simpa using this
  by_cases hva : a=v
  · exact hva ▸ hn (.inl rfl)
  refine hw.others _ (hI.resolve_left hva) fun hk=>hva ?_
  obtain ⟨hvm,hvs,-⟩:=mem_freshVectorRecords.mp hv
  obtain ⟨ham,has,-⟩:=mem_freshVectorRecords.mp ha
  have hc:v.chunkId=a.chunkId:=congrArg Prod.snd hk
  exact s.vectorIndex.row_unique ham hvm (by simp [VectorRow.key,hc,hvs,has])
 exact foldlM_reaches _ (fun _ u=>⟨σ,v.chunkId,v.contentHash,v.vector⟩∈u.vec0.rows) hv
  (fun b u b' w hst=>ho v hv b u b' w hst (.inl rfl))
  (fun a ha b u b' w hI hst=>ho a ha b u b' w hst (.inr hI)) hr

end
end DhKit.Vectors
