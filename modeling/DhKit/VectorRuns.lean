import Mathlib.Algebra.Ring.Int.Defs
import DhKit.VectorSearch

/-!
# Searches after sequences of operations

What each repository operation keeps of the two invariants.
-/
namespace DhKit.Vectors
open KeyedTables CommitRules RankedSelection Tables List

variable {F S : Type} [LinearOrder S]
 {fileId : Int} {u : Unit} {engine : VecEngine F S} {s : Tables F}
 {chunks : List ChunkRow} {n : Nat}

section
variable {s t : Tables F} {chunkId : Int} {f : FileRow}
 {keep : Int × String × Nat → Prop} {c : ChunkRow}

/-- `t` holds the rows of `s` whose key is kept, and the chunks of these live as they did. -/
structure Restricted (keep : Int × String × Nat → Prop) (s t : Tables F) : Prop where
 embeddings : ∀ e,e ∈ t.embeddings.rows ↔ e ∈ s.embeddings.rows ∧ keep e.key
 index : ∀ v,v ∈ t.vectorIndex.rows ↔ v ∈ s.vectorIndex.rows ∧ keep v.key
 derived : s.Derived → t.Derived
 live : ∀ key,keep key → key.1 ∈ s.chunks.rows.map ChunkRow.id → ∀ contentHash,
  t.liveWorkspace key.1 contentHash = s.liveWorkspace key.1 contentHash

theorem Restricted.settled (h:Restricted keep s t) (hs:s.Settled) : t.Settled := by
 refine ⟨h.derived hs.derived,fun v hv=>?_⟩
 obtain ⟨hv,hk⟩:=(h.index v).mp hv
 exact (h.live v.key hk (s.vectorChunks v hv) _).trans (hs.live v hv)

theorem Restricted.indexed (h:Restricted keep s t) (hs:s.Indexed) : t.Indexed := by
 refine ⟨fun v hv=>?_,fun σ hne e he=>?_⟩
 · obtain ⟨hv,hk⟩:=(h.index v).mp hv
   obtain ⟨e,he,heq⟩:=hs.embedded v hv
   have hke:e.key=v.key:=by
    rw [heq]
    rfl
   exact ⟨e,(h.embeddings e).mpr ⟨he,hke ▸ hk⟩,heq⟩
 · obtain ⟨v,hv,hσ⟩:=hne
   obtain ⟨he,hm,hd,hl⟩:=mem_embeddingRecordsForScope.mp he
   obtain ⟨he,hk⟩:=(h.embeddings e).mp he
   have hl':=(h.live e.key hk (s.embeddingChunks e he) _).symm.trans hl
   exact (h.index _).mpr ⟨hs.whole σ ⟨v,((h.index v).mp hv).1,hσ⟩ e
    (mem_embeddingRecordsForScope.mpr ⟨he,hm,hd,hl'⟩),hk⟩

def InFile (s : Tables F) (chunkId fileId : Int) : Prop :=
 ∃ c ∈ s.chunks.rows,c.id = chunkId ∧ c.fileId = fileId

theorem find_any_fileId :
 ((s.chunks.find chunkId).any fun c=>c.fileId=fileId)=true ↔
  InFile s chunkId fileId := by
 constructor
 · intro h
   obtain ⟨c,hc,hf⟩:=Option.any_eq_true _ _ |>.mp h
   obtain ⟨hm,hid⟩:=s.chunks.find_eq_some.mp hc
   exact ⟨c,hm,hid,by simpa using hf⟩
 · rintro ⟨c,hc,hid,hf⟩
   rw [s.chunks.find_eq_some.mpr ⟨hc,hid⟩]
   simpa using hf

theorem deleteVectors_loop (h:Yields (chunks.foldlM (fun _ c=>do
  let _ ← deleteVectorIndexRecordByChunk c.id
  pure ()) ()) s u t) :
 SameFacts s t ∧
 (∀v,v∈t.vectorIndex.rows ↔
  v∈s.vectorIndex.rows ∧ v.chunkId ∉ chunks.map ChunkRow.id) ∧
 ∀r,r∈t.vec0.rows ↔ r∈s.vec0.rows ∧ r.chunkId ∉ chunks.map ChunkRow.id := by
 induction chunks generalizing s with
 | nil =>
  obtain ⟨-,rfl⟩:=yields_pure.mp h
  exact ⟨.refl s,fun v=>by simp,fun r=>by simp⟩
 | cons c chunks ih =>
  simp only [foldlM_cons,yields_bind] at h
  obtain ⟨_,w,⟨n,w',hde,-,rfl⟩,hr⟩:=h
  obtain ⟨hf,hi,h0⟩:=deleteVectorIndexRecordByChunk_spec hde
  obtain ⟨hf',hi',h0'⟩:=ih hr
  refine ⟨hf.trans hf',fun v=>?_,fun r=>?_⟩
  · rw [hi',hi]
    simp [and_assoc]
  · rw [h0',h0]
    simp [and_assoc]

theorem deleteFileFacts_restricted (h:Yields (deleteFileFacts fileId) s u t) :
 Restricted (fun key=>¬InFile s key.1 fileId) s t ∧
  (∀c,c∈t.chunks.rows ↔ c∈s.chunks.rows ∧ c.fileId≠fileId) ∧ t.files=s.files := by
 simp only [deleteFileFacts,yields_bind,yields_change] at h
 obtain ⟨_,_,⟨rfl,rfl⟩,_,w,hl,rfl⟩:=h
 obtain ⟨⟨hfi,hch,hem⟩,hi,h0⟩:=deleteVectors_loop hl
 have hin:∀chunkId,chunkId∈(s.chunks.rows.filter fun c=>c.fileId=fileId).map
  ChunkRow.id ↔ InFile s chunkId fileId := by
  intro chunkId
  simp only [mem_map,mem_filter,decide_eq_true_eq]
  constructor
  · rintro ⟨c,⟨hc,hf⟩,hid⟩
    exact ⟨c,hc,hid,hf⟩
  · rintro ⟨c,hc,hid,hf⟩
    exact ⟨c,⟨hc,hf⟩,hid⟩
 have han:∀chunkId,((w.chunks.find chunkId).any fun c=>c.fileId=fileId)=true ↔
  InFile s chunkId fileId := by
  intro chunkId
  rw [hch]
  exact find_any_fileId
 have hrow:∀c,c∈(w.deleteChunks fileId).chunks.rows ↔
  c∈s.chunks.rows ∧ c.fileId≠fileId := by
  simp [deleteChunks,hch]
 refine ⟨⟨fun e=>?_,fun v=>?_,fun hs r hr=>?_,fun key hk _ contentHash=>?_⟩,hrow,
  hfi⟩
 · simp only [deleteChunks,Table.rows_deleteWhere,mem_filter,hem,Bool.not_eq_true',
    ← Bool.not_eq_true,han]
   rfl
 · simp only [deleteChunks,Table.rows_deleteWhere,mem_filter,hi,Bool.not_eq_true',
    ← Bool.not_eq_true,han,hin]
   exact ⟨fun h=>⟨h.1.1,h.2⟩,fun h=>⟨⟨h.1,h.2⟩,h.2⟩⟩
 · obtain ⟨hr,hn⟩:=(h0 r).mp hr
   simp only [deleteChunks,Table.rows_deleteWhere,mem_filter,hi,Bool.not_eq_true',
    ← Bool.not_eq_true,han,hin]
   rw [hin] at hn
   exact ⟨⟨hs r hr,hn⟩,hn⟩
 · -- the chunk of a kept key is not of the file
   have hfin:(w.deleteChunks fileId).chunks.find key.1=s.chunks.find key.1:=by
    cases hf : s.chunks.find key.1 with
    | none =>
     rw [Table.find_eq_none] at hf ⊢
     exact fun c hc=>hf c ((hrow c).mp hc).1
    | some c =>
     rw [Table.find_eq_some] at hf ⊢
     exact ⟨(hrow c).mpr ⟨hf.1,fun he=>hk ⟨c,hf.1,hf.2,he⟩⟩,hf.2⟩
   have hff:(w.deleteChunks fileId).files=s.files:=hfi
   simp [liveWorkspace,hfin,hff]

theorem insertChunk_restricted (h:s.insertChunk c = .ok t) :
 Restricted (fun _=>True) s t := by
 unfold insertChunk at h
 split_ifs at h with hf
 split at h
 · cases h
 rename_i chunks hch
 cases h
 obtain ⟨hfr,hr⟩:=Table.insert_eq_some.mp hch
 refine ⟨fun e=>by simp,fun v=>by simp,fun hs=>hs,fun key _ ho contentHash=>?_⟩
 -- a chunk that was there is found where it was
 have hfi:chunks.find key.1=s.chunks.find key.1:=by
  obtain ⟨b,hb,hid⟩:=mem_map.mp ho
  rw [s.chunks.find_eq_some.mpr ⟨hb,hid⟩,Table.find_eq_some,hr]
  exact ⟨mem_append_left _ hb,hid⟩
 simp [liveWorkspace,hfi]

theorem deleteEmbedding_restricted (h:Yields (deleteEmbedding chunkId) s u t) :
 Restricted (fun key=>key.1≠chunkId) s t := by
 simp only [deleteEmbedding,yields_bind,yields_change] at h
 obtain ⟨_,_,rfl,n,w,hde,-,rfl⟩:=h
 obtain ⟨hf,hi,h0⟩:=deleteVectorIndexRecordByChunk_spec hde
 refine ⟨fun e=>?_,hi,fun hs r hr=>?_,fun key _ _ _=>by rw [hf.liveWorkspace]; rfl⟩
 · rw [hf.2.2]
   simp [deleteEmbeddings,EmbeddingRow.key]
 · obtain ⟨hr,hn⟩:=(h0 r).mp hr
   exact (hi _).mpr ⟨hs r hr,hn⟩

theorem deleteEmbeddingForModel_restricted (hs:s.Derived) {model : String} {dimensions : Nat}
 (h:Yields (deleteEmbeddingForModel chunkId model dimensions) s u t) :
 Restricted (fun key=>key≠(chunkId,model,dimensions)) s t := by
 simp only [deleteEmbeddingForModel,yields_bind,yields_change] at h
 obtain ⟨_,_,rfl,n,w,hde,-,rfl⟩:=h
 have hs':(s.deleteEmbeddings fun e=>e.key=(chunkId,model,dimensions)).Derived:=hs
 obtain ⟨hf,hi,h0⟩:=deleteVectorIndexRecordByScope_spec hs' hde
 refine ⟨fun e=>?_,hi,fun hs r hr=>?_,fun key _ _ _=>by rw [hf.liveWorkspace]; rfl⟩
 · rw [hf.2.2]
   simp [deleteEmbeddings]
 · obtain ⟨hr,hn⟩:=(h0 r).mp hr
   exact (hi _).mpr ⟨hs r hr,hn⟩

structure FileStored (f : FileRow) (s t : Tables F) : Prop where
 files : t.files = s.files.upsert f
 chunks : t.chunks = s.chunks
 embeddings : t.embeddings = s.embeddings
 index : t.vectorIndex = s.vectorIndex
 vec0 : t.vec0 = s.vec0

theorem storeFile_stored (h:s.storeFile f = .ok t) : FileStored f s t := by
 unfold storeFile at h
 split_ifs at h
 cases h
 exact ⟨rfl,rfl,rfl,rfl,rfl⟩

section
variable {f : FileRow} (h : FileStored f s t)
include h

theorem FileStored.derived (hs:s.Derived) : t.Derived := by
 unfold Derived at hs ⊢
 rwa [h.index,h.vec0]

theorem FileStored.live_other (hn:¬InFile s chunkId f.id) (contentHash : String) :
 t.liveWorkspace chunkId contentHash=s.liveWorkspace chunkId contentHash := by
 simp only [liveWorkspace,h.files,h.chunks]
 cases hc : s.chunks.find chunkId with
 | none => rfl
 | some c =>
  obtain ⟨hm,hid⟩:=s.chunks.find_eq_some.mp hc
  have hne:c.fileId≠f.id:=fun he=>hn ⟨c,hm,hid,he⟩
  simp [Table.find_upsert,hne]

theorem FileStored.live_own (hc:c∈s.chunks.rows) (hf:c.fileId=f.id)
 (contentHash : String) :
 t.liveWorkspace c.id contentHash =
  if c.contentHash=contentHash ∧ f.deletedAtUnixMs=none then some f.workspaceId
  else none := by
 have hfi:s.chunks.find c.id=some c:=s.chunks.find_eq_some.mpr ⟨hc,rfl⟩
 simp [liveWorkspace,h.files,h.chunks,hfi,hf,Table.find_upsert]

end

def Placed (s : Tables F) : Prop :=
 ∀ v ∈ s.vectorIndex.rows,∀ ws,s.liveWorkspace v.chunkId v.contentHash = some ws →
  ws = v.scope.workspaceId

theorem placed_of_live (hs:s.Live) : Placed s := fun v hv _ hws=>
 Option.some.inj (hws.symm.trans (hs v hv))

theorem FileStored.placed (h:FileStored f s t) (hs:Placed s)
 (hf:∀v∈s.vectorIndex.rows,InFile s v.chunkId f.id → f.deletedAtUnixMs=none →
  f.workspaceId=v.scope.workspaceId) : Placed t := by
 intro v hv ws hws
 rw [h.index] at hv
 by_cases hin : InFile s v.chunkId f.id
 · have hin':=hin
   obtain ⟨c,hc,hid,hcf⟩:=hin'
   rw [←hid,h.live_own hc hcf] at hws
   split_ifs at hws with hl
   exact (Option.some.inj hws).symm.trans (hf v hv hin hl.2)
 · rw [h.live_other hin] at hws
   exact hs v hv ws hws

theorem prune_placed (hd:s.Derived) (hs:Placed s)
 (h:Yields pruneStaleVectorRecords s n t) : t.Settled := by
 obtain ⟨hf,hi,h0⟩:=pruneStaleVectorRecords_spec h
 refine ⟨fun r hr=>?_,fun v hv=>?_⟩
 · obtain ⟨hr,hst⟩:=(h0 r).mp hr
   exact (hi _).mpr ⟨hd r hr,hst⟩
 · obtain ⟨hv,hst⟩:=(hi v).mp hv
   obtain ⟨ws,hws⟩:=live_of_not_stale hst
   rw [hf.liveWorkspace,hws,hs v hv ws hws]

theorem prune_indexed (hs:s.Indexed) (h:Yields pruneStaleVectorRecords s n t) :
 t.Indexed := by
 obtain ⟨hf,hi,-⟩:=pruneStaleVectorRecords_spec h
 refine ⟨fun v hv=>?_,fun σ hne e he=>?_⟩
 · rw [hf.2.2]
   exact hs.embedded v ((hi v).mp hv).1
 · obtain ⟨v,hv,hσ⟩:=hne
   rw [hf.embeddingRecordsForScope] at he
   exact (hi _).mpr ⟨hs.whole σ ⟨v,((hi v).mp hv).1,hσ⟩ e he,
    stale_of_live (mem_embeddingRecordsForScope.mp he).2.2.2⟩

/-- A file row that makes an embedding canonical does so in scopes without an index. -/
def OpensUnindexed (s : Tables F) (f : FileRow) : Prop :=
 ∀ e ∈ s.embeddings.rows,(∃ c ∈ s.chunks.rows,c.id = e.chunkId ∧ c.fileId = f.id ∧
  c.contentHash = e.contentHash) → f.deletedAtUnixMs = none →
  s.liveWorkspace e.chunkId e.contentHash≠some f.workspaceId →
  ∀ v ∈ s.vectorIndex.rows,v.scope≠⟨f.workspaceId,e.model,e.dimensions⟩

theorem FileStored.indexed (h:FileStored f s t) (hs:s.Indexed)
 (hf:OpensUnindexed s f) : t.Indexed := by
 refine ⟨fun v hv=>?_,fun σ hne e he=>?_⟩
 · rw [h.index] at hv
   rw [h.embeddings]
   exact hs.embedded v hv
 obtain ⟨he,hm,hd,hli⟩:=mem_embeddingRecordsForScope.mp he
 rw [h.embeddings] at he
 rw [h.index] at hne ⊢
 have ho:s.liveWorkspace e.chunkId e.contentHash=some σ.workspaceId:=by
  by_cases hin : InFile s e.chunkId f.id
  · obtain ⟨c,hc,hid,hcf⟩:=hin
    rw [←hid,h.live_own hc hcf] at hli
    split_ifs at hli with hl
    have hws:f.workspaceId=σ.workspaceId:=Option.some.inj hli
    by_contra hn
    rw [←hws] at hn
    obtain ⟨v,hv,hσ⟩:=hne
    refine hf e he ⟨c,hc,hid,hcf,hl.1⟩ hl.2 hn v hv ?_
    rw [hσ,hws,hm,hd]
  · rwa [h.live_other hin] at hli
 exact hs.whole σ hne e (mem_embeddingRecordsForScope.mpr ⟨he,hm,hd,ho⟩)

end

section
variable {s t u : Tables F} {e : EmbeddingRow F}

theorem VectorWritten.settled (h:VectorWritten e s t) (hs:s.Live) : t.Settled := by
 refine ⟨h.derived,fun v hv=>?_⟩
 rw [h.facts.liveWorkspace]
 rcases (h.index v).mp hv with ⟨ws,hws,rfl⟩|⟨hv,-⟩
 · exact hws
 · exact hs v hv

/-- The index of the scope that `e` is written to is not opened for `e` alone. -/
def Opening (s : Tables F) (e : EmbeddingRow F) (ws : Int) : Prop :=
 (∃ v ∈ s.vectorIndex.rows,v.scope = ⟨ws,e.model,e.dimensions⟩) ∨
  ∀ b ∈ s.embeddingRecordsForScope ⟨ws,e.model,e.dimensions⟩,b.chunkId = e.chunkId

theorem VectorWritten.indexed (hs:s.Indexed) (hlw:u.liveWorkspace=s.liveWorkspace)
 (hid:u.vectorIndex=s.vectorIndex)
 (hem:∀b,b∈u.embeddings.rows ↔ b=e ∨ b∈s.embeddings.rows ∧ b.key≠e.key)
 (h:VectorWritten e u t)
 (ho:∀ws,s.liveWorkspace e.chunkId e.contentHash=some ws → Opening s e ws) :
 t.Indexed := by
 have hi:∀v,v∈t.vectorIndex.rows ↔
  (∃ws,s.liveWorkspace e.chunkId e.contentHash=some ws ∧ v=e.indexed ws) ∨
   v∈s.vectorIndex.rows ∧ v.key≠e.key := by
  intro v
  rw [h.index,hlw,hid]
 refine ⟨fun v hv=>?_,fun σ hne b hb=>?_⟩
 · rw [h.facts.2.2]
   rcases (hi v).mp hv with ⟨ws,-,rfl⟩|⟨hv,hk⟩
   · exact ⟨e,(hem e).mpr (.inl rfl),rfl⟩
   obtain ⟨b,hb,heq⟩:=hs.embedded v hv
   refine ⟨b,(hem b).mpr (.inr ⟨hb,fun hbk=>hk ?_⟩),heq⟩
   rw [heq,←hbk]
   rfl
 · obtain ⟨hb,hm,hd,hl⟩:=mem_embeddingRecordsForScope.mp hb
   rw [h.facts.2.2] at hb
   rw [h.facts.liveWorkspace,hlw] at hl
   rcases (hem b).mp hb with rfl|⟨hb,hk⟩
   · exact (hi _).mpr (.inl ⟨_,hl,rfl⟩)
   have hca:b∈s.embeddingRecordsForScope σ:=
    mem_embeddingRecordsForScope.mpr ⟨hb,hm,hd,hl⟩
   -- the scope had an index row before, or only embeddings of the chunk written
   have hol:∃v∈s.vectorIndex.rows,v.scope=σ:=by
    obtain ⟨v,hv,rfl⟩:=hne
    rcases (hi v).mp hv with ⟨ws,hws,rfl⟩|⟨hv,-⟩
    · rcases ho ws hws with hrow|hal
      · exact hrow
      · exact absurd (by simp [EmbeddingRow.key,hal b hca,hm,hd,EmbeddingRow.indexed]) hk
    · exact ⟨v,hv,rfl⟩
   exact (hi _).mpr (.inr ⟨hs.whole σ hol b hca,hk⟩)

def Alone (s : Tables F) (dropped : VectorRow F → Prop) : Prop :=
 ∀ v ∈ s.vectorIndex.rows,dropped v → ∀ w ∈ s.vectorIndex.rows,w.scope = v.scope → w = v

theorem indexed_of_dropped (hs:s.Indexed) {dropped : VectorRow F → Prop} (hf:SameFacts s t)
 (hi:∀v,v∈t.vectorIndex.rows ↔ v∈s.vectorIndex.rows ∧ ¬dropped v)
 (hal:Alone s dropped) : t.Indexed := by
 refine ⟨fun v hv=>?_,fun σ hne b hb=>?_⟩
 · rw [hf.2.2]
   exact hs.embedded v ((hi v).mp hv).1
 obtain ⟨v,hv,rfl⟩:=hne
 obtain ⟨hv,hkept⟩:=(hi v).mp hv
 rw [hf.embeddingRecordsForScope] at hb
 have hrow:=hs.whole v.scope ⟨v,hv,rfl⟩ b hb
 refine (hi _).mpr ⟨hrow,fun hdr=>hkept ?_⟩
 obtain ⟨-,hm,hd,-⟩:=mem_embeddingRecordsForScope.mp hb
 have hv':=hal _ hrow hdr v hv (by simp [EmbeddingRow.indexed,hm,hd])
 rw [hv']
 exact hdr

theorem Hydrated.indexed {σ : Scope} (h:Hydrated σ s t) (hs:s.Indexed) : t.Indexed := by
 refine ⟨fun v hv=>?_,fun τ hne b hb=>?_⟩
 · rw [h.facts.2.2]
   rcases (h.index v).mp hv with ⟨hv,-⟩|⟨e,he,rfl⟩
   · exact hs.embedded v hv
   · exact ⟨e,(mem_embeddingRecordsForScope.mp he).1,rfl⟩
 · rw [h.facts.embeddingRecordsForScope] at hb
   obtain ⟨-,hm,hd,-⟩:=mem_embeddingRecordsForScope.mp hb
   have hsc:(b.indexed τ.workspaceId).scope=τ:=by simp [EmbeddingRow.indexed,hm,hd]
   by_cases hτ : τ=σ
   · subst hτ
     exact (h.index _).mpr (.inr ⟨b,hb,rfl⟩)
   obtain ⟨v,hv,hvτ⟩:=hne
   rcases (h.index v).mp hv with ⟨hv,-⟩|⟨e,he,rfl⟩
   · exact (h.index _).mpr (.inl ⟨hs.whole τ ⟨v,hv,hvτ⟩ b hb,by rwa [hsc]⟩)
   · obtain ⟨-,hm',hd',-⟩:=mem_embeddingRecordsForScope.mp he
     exact absurd (hvτ.symm.trans (by simp [EmbeddingRow.indexed,hm',hd'])) hτ

theorem indexed_stable : VectorStable fun s : Tables F=>s.Settled ∧ s.Indexed := by
 refine ⟨fun s h=>h.1,fun s t h hf hi ht=>⟨ht,?_⟩,fun σ s t h hh ht=>⟨ht,hh.indexed h.2⟩⟩
 have hnone:Alone s fun _=>False:=fun _ _ hv=>hv.elim
 exact indexed_of_dropped h.2 hf (fun v=>by rw [hi]; simp) hnone

end

/-- Liveness of the index: no file row is marked deleted, or moved to another workspace,
 while the index has rows of its chunks. Re-indexing prunes the deleted ones itself. -/
def SoundOp (s : Tables F) : Op F S → Prop
 | .upsertFile f => ∀ v ∈ s.vectorIndex.rows,InFile s v.chunkId f.id →
  f.deletedAtUnixMs = none ∧ f.workspaceId = v.scope.workspaceId
 | .writeFileAtomically f _ false => ∀ v ∈ s.vectorIndex.rows,InFile s v.chunkId f.id →
  f.deletedAtUnixMs = none → f.workspaceId = v.scope.workspaceId
 | _ => True

/-- Completeness of the index: no operation leaves a scope partly indexed. -/
def AgreeOp (s : Tables F) : Op F S → Prop
 | .upsertFile f => OpensUnindexed s f
 | .writeFileAtomically f _ false => OpensUnindexed s f
 | .upsertEmbedding e => ∀ ws,s.liveWorkspace e.chunkId e.contentHash = some ws → Opening s e ws
 | .upsertVectorIndexRecord e => match s.liveWorkspace e.chunkId e.contentHash with
  | some ws => e ∈ s.embeddings.rows ∧ Opening s e ws
  | none => Alone s fun v => v.key = e.key
 | .deleteVectorIndexRecord chunkId => Alone s fun v => v.chunkId = chunkId
 | _ => True

section
variable {s t : Tables F} {f : FileRow}

theorem insertChunks_restricted (h:Yields (insertChunks chunks) s u t) {I : Tables F → Prop}
 (hI:∀a b,Restricted (fun _=>True) a b → I a → I b) (hs:I s) : I t := by
 refine foldlM_invariant _ (fun _=>I) chunks ?_ hs h
 intro c _ a _ b _ ha hst
 exact hI a b (insertChunk_restricted (yields_statement.mp hst)) ha

theorem writeFileAtomically_cases (s : Tables F) (f : FileRow) (chunks : List ChunkRow)
 (hasExisting:Bool) :
 (writeFileAtomically f chunks hasExisting s).2=s ∨
  ∃d w p n u,(if hasExisting then ∃u,Yields (deleteFileFacts f.id) s u d else d=s) ∧
   FileStored f d w ∧ Yields pruneStaleVectorRecords w n p ∧
   Yields (insertChunks chunks) p u (writeFileAtomically f chunks hasExisting s).2 := by
 refine (transaction_cases _ s).imp id ?_
 rintro ⟨a,h⟩
 simp only [upsertFile,yields_bind,yields_statement] at h
 obtain ⟨_,d,hd,_,w,hw,n,p,hp,hi⟩:=h
 refine ⟨d,w,p,n,a,?_,storeFile_stored hw,hp,hi⟩
 cases hasExisting with
 | true => exact ⟨_,hd⟩
 | false => exact (yields_pure.mp hd).2.symm

theorem markDeletedFile_cases (s : Tables F) (f : FileRow) (deletedAtUnixMs : Int) :
 (markDeletedFile f deletedAtUnixMs s).2=s ∨
  ∃d w n u,Yields (deleteFileFacts f.id) s u d ∧
   FileStored { f with deletedAtUnixMs := some deletedAtUnixMs } d w ∧
   Yields pruneStaleVectorRecords w n (markDeletedFile f deletedAtUnixMs s).2 := by
 refine (transaction_cases _ s).imp id ?_
 rintro ⟨a,h⟩
 simp only [upsertFile,yields_bind,yields_statement] at h
 obtain ⟨u,d,hd,_,w,hw,n,p,hp,-,rfl⟩:=h
 exact ⟨d,w,n,u,hd,storeFile_stored hw,hp⟩

theorem deleteFileFacts_empty (h:Yields (deleteFileFacts fileId) s u t)
 (chunkId : Int) : ¬InFile t chunkId fileId := by
 rintro ⟨c,hc,-,hf⟩
 exact ((deleteFileFacts_restricted h).2.1 c |>.mp hc).2 hf

theorem upsertEmbedding_cases (hs:s.Derived) (e : EmbeddingRow F) :
 (upsertEmbedding e.chunkId e.model e.dimensions e.contentHash e.vector s).2=s ∨
  ∃u,u.files=s.files ∧ u.chunks=s.chunks ∧ u.vectorIndex=s.vectorIndex ∧
   (∀b,b∈u.embeddings.rows ↔ b=e ∨ b∈s.embeddings.rows ∧ b.key≠e.key) ∧
   VectorWritten e u
    (upsertEmbedding e.chunkId e.model e.dimensions e.contentHash e.vector s).2 := by
 by_cases hc : e.chunkId∈s.chunks.rows.map ChunkRow.id
 · right
   obtain ⟨u,hu⟩ : ∃u,s.storeEmbedding e = .ok u := ⟨_,dif_pos hc⟩
   have hst:u.files=s.files ∧ u.chunks=s.chunks ∧ u.vectorIndex=s.vectorIndex ∧
    u.embeddings=s.embeddings.upsert e ∧ u.vec0=s.vec0 := by
    unfold storeEmbedding at hu
    rw [dif_pos hc] at hu
    cases hu
    exact ⟨rfl,rfl,rfl,rfl,rfl⟩
   obtain ⟨hf,hch,hi,hem,hv0⟩:=hst
   have hud:u.Derived:=by
    unfold Derived at hs ⊢
    rwa [hi,hv0]
   obtain ⟨t,ht,hw⟩:=upsertVectorIndexRecord_spec hud e
   have hr:Yields (upsertEmbedding e.chunkId e.model e.dimensions e.contentHash e.vector)
    s () t := yields_bind.mpr ⟨(),u,yields_statement.mpr hu,ht⟩
   rw [hr]
   exact ⟨u,hf,hch,hi,fun b=>by rw [hem,Table.mem_upsert],hw⟩
 · left
   have her:s.storeEmbedding e = .error .foreignKey:=dif_neg hc
   change (Commit.bind (statement (storeEmbedding e)) _ s).2=s
   unfold Commit.bind statement
   rw [her]

/-- A file row that is written after the facts of the file are deleted. -/
theorem replaced_step {d w p : Tables F} (hs:s.Settled)
 (hw:FileStored f d w) (hd:Yields (deleteFileFacts f.id) s u d)
 (hp:Yields pruneStaleVectorRecords w n p) : p.Settled ∧ (s.Indexed → p.Indexed) := by
 have hkept:=(deleteFileFacts_restricted hd).1
 have hds:=hkept.settled hs
 refine ⟨prune_placed (hw.derived hds.derived) (hw.placed (placed_of_live hds.live)
  fun v _ hin=>absurd hin (deleteFileFacts_empty hd v.chunkId)) hp,
  fun hi=>prune_indexed (hw.indexed (hkept.indexed hi) ?_) hp⟩
 rintro e-⟨c,hc,-,hcf,-⟩
 exact absurd ⟨c,hc,rfl,hcf⟩ (deleteFileFacts_empty hd c.id)

theorem FileStored.settled (h:FileStored f s t) (hs:s.Settled)
 (hf:∀v∈s.vectorIndex.rows,InFile s v.chunkId f.id →
  f.deletedAtUnixMs=none ∧ f.workspaceId=v.scope.workspaceId) : t.Settled := by
 refine ⟨h.derived hs.derived,fun v hv=>?_⟩
 rw [h.index] at hv
 by_cases hin : InFile s v.chunkId f.id
 · obtain ⟨hd,hw⟩:=hf v hv hin
   obtain ⟨c,hc,hid,hcf⟩:=hin
   obtain ⟨c',hc',-,-,hid',-,hh,-⟩:=liveWorkspace_eq_some.mp (hs.live v hv)
   have hcc:c=c':=s.chunks.row_unique hc hc' (hid.trans hid'.symm)
   rw [←hid,h.live_own hc hcf,if_pos ⟨hcc ▸ hh,hd⟩,hw]
 · rw [h.live_other hin]
   exact hs.live v hv

theorem VectorWritten.indexed_stored {e : EmbeddingRow F} (h:VectorWritten e s t)
 (hs:s.Indexed) (hop:match s.liveWorkspace e.chunkId e.contentHash with
  | some ws => e∈s.embeddings.rows ∧ Opening s e ws
  | none => Alone s fun v=>v.key=e.key) : t.Indexed := by
 cases hl : s.liveWorkspace e.chunkId e.contentHash with
 | none =>
  rw [hl] at hop
  exact indexed_of_dropped hs h.facts (fun v=>by rw [h.index]; simp [hl]) hop
 | some ws =>
  rw [hl] at hop
  -- the embedding is already stored under its key
  have hem:∀b,b∈s.embeddings.rows ↔ b=e ∨ b∈s.embeddings.rows ∧ b.key≠e.key:=by
   intro b
   constructor
   · intro hb
     by_cases hk : b.key=e.key
     · exact .inl (s.embeddings.row_unique hb hop.1 hk)
     · exact .inr ⟨hb,hk⟩
   · rintro (rfl|⟨hb,-⟩)
     · exact hop.1
     · exact hb
  refine h.indexed hs rfl rfl hem fun ws' hws=>?_
  cases hl.symm.trans hws
  exact hop.2

/-- What one operation keeps of the two invariants. -/
theorem invariants_step (engine : VecEngine F S) (hs:s.Settled) (op : Op F S)
 (hop:SoundOp s op) : (op.run engine s).Settled ∧
  (s.Indexed → AgreeOp s op → (op.run engine s).Indexed) := by
 have hsa:∀t,t=s → t.Settled ∧ (s.Indexed → AgreeOp s op → t.Indexed):=by
  rintro t rfl
  exact ⟨hs,fun hi _=>hi⟩
 have hre:∀t (keep : Int × String × Nat → Prop),Restricted keep s t →
  t.Settled ∧ (s.Indexed → AgreeOp s op → t.Indexed) :=
  fun _ _ h=>⟨h.settled hs,fun hi _=>h.indexed hi⟩
 cases op with
 | upsertFile f =>
  change ((statement (storeFile f) : VecM F Unit) s).2.Settled ∧
   (_ → _ → ((statement (storeFile f) : VecM F Unit) s).2.Indexed)
  unfold statement
  cases hf : s.storeFile f with
  | error e => exact hsa s rfl
  | ok t =>
   have h:=storeFile_stored hf
   exact ⟨h.settled hs hop,fun hi hop=>h.indexed hi hop⟩
 | writeFileAtomically f chunks hasExisting =>
  rcases writeFileAtomically_cases s f chunks hasExisting with heq|⟨d,w,p,n,u,hd,hw,hp,hc⟩
  · exact hsa _ heq
  have hp:p.Settled ∧ (s.Indexed → AgreeOp s (.writeFileAtomically f chunks hasExisting :
   Op F S) → p.Indexed) := by
   cases hasExisting with
   | false =>
    cases hd
    exact ⟨prune_placed (hw.derived hs.derived) (hw.placed (placed_of_live hs.live) hop) hp,
     fun hi hop=>prune_indexed (hw.indexed hi hop) hp⟩
   | true =>
    obtain ⟨_,hd⟩:=hd
    obtain ⟨hse,hin⟩:=replaced_step hs hw hd hp
    exact ⟨hse,fun hi _=>hin hi⟩
  exact ⟨insertChunks_restricted hc (fun _ _ h=>h.settled) hp.1,fun hi hop=>
   insertChunks_restricted hc (fun _ _ h=>h.indexed) (hp.2 hi hop)⟩
 | markDeletedFile f at_ =>
  rcases markDeletedFile_cases s f at_ with heq|⟨d,w,n,u,hd,hw,hp⟩
  · exact hsa _ heq
  · obtain ⟨hse,hin⟩:=replaced_step hs hw hd hp
    exact ⟨hse,fun hi _=>hin hi⟩
 | upsertEmbedding e =>
  rcases upsertEmbedding_cases hs.derived e with heq|⟨u,hf,hc,hid,hem,hw⟩
  · exact hsa _ heq
  have hlw:u.liveWorkspace=s.liveWorkspace:=by
   funext c h
   simp [liveWorkspace,hf,hc]
  refine ⟨hw.settled fun v hv=>?_,fun hi hop=>hw.indexed hi hlw hid hem hop⟩
  rw [hid] at hv
  rw [hlw]
  exact hs.live v hv
 | deleteEmbedding chunkId =>
  exact hre _ _
   (deleteEmbedding_restricted (show Yields (deleteEmbedding chunkId) s () _ from rfl))
 | deleteEmbeddingForModel chunkId model dimensions =>
  exact hre _ _ (deleteEmbeddingForModel_restricted hs.derived
   (show Yields (deleteEmbeddingForModel chunkId model dimensions) s () _ from rfl))
 | upsertVectorIndexRecord e =>
  obtain ⟨t,ht,hw⟩:=upsertVectorIndexRecord_spec hs.derived e
  have ht':(Op.upsertVectorIndexRecord e : Op F S).run engine s=t:=congrArg Prod.snd ht
  rw [ht']
  exact ⟨hw.settled hs.live,fun hi hop=>hw.indexed_stored hi hop⟩
 | deleteVectorIndexRecord chunkId =>
  obtain ⟨hf,hid,h0⟩:=deleteVectorIndexRecordByChunk_spec
   (show Yields (deleteVectorIndexRecordByChunk chunkId) s _ _ from rfl)
  refine ⟨⟨fun r hr=>?_,hs.live.of_subset hf fun v hv=>((hid v).mp hv).1⟩,
   fun hi hop=>indexed_of_dropped hi hf hid hop⟩
  obtain ⟨hr,hn⟩:=(h0 r).mp hr
  exact (hid _).mpr ⟨hs.derived r hr,hn⟩
 | pruneStaleVectorRecords =>
  exact ⟨settled_stable.prune s hs,fun hi _=>(indexed_stable.prune s ⟨hs,hi⟩).2⟩
 | hydrateVectorIndex σ =>
  exact ⟨settled_stable.hydrate σ s hs,fun hi _=>(indexed_stable.hydrate σ s ⟨hs,hi⟩).2⟩
 | semanticVectorSearch σ q limit minScore =>
  exact ⟨settled_stable.search engine σ q limit minScore s hs,
   fun hi _=>(indexed_stable.search engine σ q limit minScore s ⟨hs,hi⟩).2⟩

end

theorem settled_empty : (Tables.empty : Tables F).Settled := ⟨by simp [Derived,Tables.empty],
 by simp [Live,Tables.empty]⟩

theorem indexed_empty : (Tables.empty : Tables F).Indexed :=
 ⟨by simp [Tables.empty],by simp [Tables.empty]⟩

theorem Reached.settled (h:Reached engine SoundOp s) :
 s.Settled := by
 induction h with
 | empty => exact settled_empty
 | step op _ hop ih => exact (invariants_step engine ih op hop).1

theorem Reached.indexed (h:Reached engine (fun s op=>SoundOp s op ∧ AgreeOp s op) s) :
 s.Settled ∧ s.Indexed := by
 induction h with
 | empty => exact ⟨settled_empty,indexed_empty⟩
 | step op _ hop ih =>
  obtain ⟨hse,hi⟩:=invariants_step engine ih.1 op hop.1
  exact ⟨hse,hi ih.2 hop.2⟩

/-- After operations that keep the index live every hit is live. When they also keep it
 complete, a vec0 search that returns has the records of the scan, provided the
 similarities are distinct and the vectors it may have to hydrate fit the table. -/
theorem searches_live_and_agree (engine : VecEngine F S) :
 (∀ s,Reached engine SoundOp s → ∀ σ q limit minScore outcome t,
  Yields (semanticVectorSearch engine σ q limit minScore) s outcome t →
  ∀ hit ∈ outcome.records,LiveHit engine t σ q hit) ∧
 ∀ s,Reached engine (fun s op => SoundOp s op ∧ AgreeOp s op) s →
  ∀ σ q limit minScore outcome t reason,
  Yields (semanticVec0Search engine σ q limit minScore) s (some outcome) t →
  ((∃ v ∈ s.vectorIndex.rows,v.scope = σ) ∨
   ∀ e ∈ s.embeddingRecordsForScope σ,e.vector.length = σ.dimensions) →
  ((s.embeddingRecordsForScope σ).map fun e => engine.similarity q e.vector).Nodup →
  outcome.records = (semanticSqliteScan engine σ q limit minScore reason s).records := by
 constructor
 · intro s hs σ q limit minScore outcome t h hit hh
   exact liveHit_of_search hs.settled h hh
 · intro s hs σ q limit minScore outcome t reason h hl hdi
   obtain ⟨hse,hi⟩:=hs.indexed
   obtain ⟨hr,hrec⟩:=semanticVec0Search_ready hse h
   rw [hrec]
   exact hr.agree hi hse hl hdi reason

section

def dotEngine : VecEngine Int Int where
 similarity q v := (List.zipWith (· * ·) q v).sum
 knn q k rows := (ranked (fun r => (List.zipWith (· * ·) q r.embedding).sum) rows).take k
 exact _ _ _ := isTop_ranked
 errorText _ := "sqlite-vec error"

def scopeA : Scope := ⟨1,"model-a",1⟩

def fileRow (id : Int) (deletedAtUnixMs : Option Int) : FileRow :=
 ⟨id,1,1,"src/" ++ toString id ++ ".ts",deletedAtUnixMs⟩

def embedded (chunkId : Int) (x : Int) : EmbeddingRow Int := ⟨chunkId,"model-a",1,"hash",[x]⟩

def embedOps : List (Op Int Int) :=
 [.writeFileAtomically (fileRow 1 none) [⟨10,1,"hash"⟩] false,
  .writeFileAtomically (fileRow 2 none) [⟨20,2,"hash"⟩] false,
  .upsertEmbedding (embedded 10 2),.upsertEmbedding (embedded 20 1)]

def runOps (ops : List (Op Int Int)) : Tables Int :=
 ops.foldl (fun s op => op.run dotEngine s) Tables.empty

theorem reached_runOps (ops : List (Op Int Int)) :
 Reached dotEngine (fun _ _=>True) (runOps ops) := by
 suffices H : ∀s,Reached dotEngine (fun _ _=>True) s →
  Reached dotEngine (fun _ _=>True) (ops.foldl (fun s op=>op.run dotEngine s) s) from
  H _ .empty
 induction ops with
 | nil => exact fun s hs=>hs
 | cons op ops ih => exact fun s hs=>ih _ (hs.step op trivial)

theorem reached_embedOps :
 Reached dotEngine (fun s op=>SoundOp s op ∧ AgreeOp s op) (runOps embedOps) := by
 have hno:(runOps (embedOps.take 1)).vectorIndex.rows=[]:=by decide +kernel
 have hn:(runOps (embedOps.take 1)).embeddings.rows=[]:=by decide +kernel
 have hn':(runOps (embedOps.take 2)).embeddings.rows=[]:=by decide +kernel
 have hl:(runOps (embedOps.take 3)).liveWorkspace 20 "hash" = some 1 := by decide +kernel
 have hrow:(embedded 10 2).indexed 1∈(runOps (embedOps.take 3)).vectorIndex.rows:=by
  decide +kernel
 have hem:Reached dotEngine (fun s op=>SoundOp s op ∧ AgreeOp s op) Tables.empty:=.empty
 refine (((hem.step (.writeFileAtomically (fileRow 1 none) [⟨10,1,"hash"⟩] false) ?_).step
  (.writeFileAtomically (fileRow 2 none) [⟨20,2,"hash"⟩] false)
   ⟨fun v hv=>?_,fun e he=>?_⟩).step
  (.upsertEmbedding (embedded 10 2)) ⟨trivial,fun ws _=>Or.inr fun b hb=>?_⟩).step
  (.upsertEmbedding (embedded 20 1)) ⟨trivial,fun ws hws=>Or.inl ?_⟩
 · constructor <;> simp [SoundOp,AgreeOp,OpensUnindexed,Tables.empty]
 · have hme:v∈(runOps (embedOps.take 1)).vectorIndex.rows:=hv
   simp [hno] at hme
 · have hme:e∈(runOps (embedOps.take 1)).embeddings.rows:=he
   simp [hn] at hme
 · have hme:b∈(runOps (embedOps.take 2)).embeddings.rows:=
    (mem_embeddingRecordsForScope.mp hb).1
   simp [hn'] at hme
 · have ho:ws=1:=Option.some.inj (hws.symm.trans hl)
   exact ⟨_,hrow,by rw [ho]; rfl⟩

theorem Reached.mono {P Q : Tables F → Op F S → Prop}
 (h:∀s op,P s op → Q s op) (hs:Reached engine P s) :
 Reached engine Q s := by
 induction hs with
 | empty => exact .empty
 | step op _ hop ih => exact .step op ih (h _ _ hop)

theorem searches_live_and_agree_two_files :
 (∀ hit ∈ ([⟨10,2⟩,⟨20,1⟩] : List (VectorSearchRecord Int)),
  LiveHit dotEngine (semanticVectorSearch dotEngine scopeA [1] 5 0 (runOps embedOps)).2
   scopeA [1] hit) ∧
 [⟨10,2⟩,⟨20,1⟩] =
  (semanticSqliteScan dotEngine scopeA [1] 5 0 "" (runOps embedOps)).records := by
 have hso:Reached dotEngine SoundOp (runOps embedOps):=
  reached_embedOps.mono fun _ _ h=>h.1
 have hrow:(embedded 10 2).indexed 1∈(runOps embedOps).vectorIndex.rows:=by decide +kernel
 exact ⟨(searches_live_and_agree dotEngine).1 _ hso scopeA [1] 5 0
  ⟨[⟨10,2⟩,⟨20,1⟩],.vectorDb,false,none,2⟩ _ (yields_of_value (by decide +kernel)),
  (searches_live_and_agree dotEngine).2 _ reached_embedOps scopeA [1] 5 0
   ⟨[⟨10,2⟩,⟨20,1⟩],.vectorDb,false,none,2⟩ _ "" (yields_of_value (by decide +kernel))
   (.inl ⟨_,hrow,rfl⟩) (by decide +kernel)⟩

def deletedBehindIndex : Tables Int := runOps (embedOps++[.upsertFile (fileRow 1 (some 5))])

def restoredBehindIndex : Tables Int :=
 runOps (embedOps++[.upsertFile (fileRow 1 (some 5)),.pruneStaleVectorRecords,
  .upsertFile (fileRow 1 none)])

/-- The search returns a chunk of the deleted file, since the other file keeps the index
 fresh; and once the file is back vec0 lacks a hit that the scan has. -/
theorem search_misses_file_upserts :
 (Reached dotEngine (fun _ _ => True) deletedBehindIndex ∧
  ∃ outcome t,Yields (semanticVectorSearch dotEngine scopeA [1] 5 0) deletedBehindIndex
   outcome t ∧ ∃ hit ∈ outcome.records,¬ LiveHit dotEngine t scopeA [1] hit) ∧
 Reached dotEngine (fun _ _ => True) restoredBehindIndex ∧
  ∃ outcome t,Yields (semanticVec0Search dotEngine scopeA [1] 5 0) restoredBehindIndex
   (some outcome) t ∧
   outcome.records ≠
    (semanticSqliteScan dotEngine scopeA [1] 5 0 "" restoredBehindIndex).records := by
 refine ⟨⟨reached_runOps _,⟨[⟨10,2⟩,⟨20,1⟩],.vectorDb,false,none,2⟩,_,
  yields_of_value (by decide +kernel),⟨10,2⟩,by decide,?_⟩,reached_runOps _,
  ⟨[⟨20,1⟩],.vectorDb,false,none,1⟩,_,yields_of_value (by decide +kernel),
  by decide +kernel⟩
 rintro ⟨c,hc,f,hf,hid,hfid,-,hd,-⟩
 have hch:((semanticVectorSearch dotEngine scopeA [1] 5 0) deletedBehindIndex).2.chunks.rows =
  [⟨10,1,"hash"⟩,⟨20,2,"hash"⟩] := by decide +kernel
 have hfi:((semanticVectorSearch dotEngine scopeA [1] 5 0) deletedBehindIndex).2.files.rows =
  [fileRow 1 (some 5),fileRow 2 none] := by decide +kernel
 rw [hch] at hc
 rw [hfi] at hf
 simp only [mem_cons,not_mem_nil,or_false] at hc hf
 rcases hc with rfl|rfl
 · rcases hf with rfl|rfl
   · simp [fileRow] at hd
   · simp [fileRow] at hfid
 · simp at hid

end
end DhKit.Vectors
