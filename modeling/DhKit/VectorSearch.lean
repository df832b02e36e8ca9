import DhKit.VectorIndex

/-!
# What a search returns

The two back ends agree when vec0 repeats the index (`Derived`), the index holds live chunks only
(`Live`) and holds every canonical embedding of a scope or none (`Indexed`).
-/
namespace DhKit.Vectors
open KeyedTables CommitRules RankedSelection Tables List

variable {F S : Type} [LinearOrder S] {r : Vec0Row F} {v : VectorRow F}

namespace Tables

structure Settled (s : Tables F) : Prop where
 derived : s.Derived
 live : s.Live

structure Indexed (s : Tables F) : Prop where
 embedded : ∀ v ∈ s.vectorIndex.rows,∃ e ∈ s.embeddings.rows,v = e.indexed v.scope.workspaceId
 whole : ∀ σ,(∃ v ∈ s.vectorIndex.rows,v.scope = σ) → ∀ e ∈ s.embeddingRecordsForScope σ,
  e.indexed σ.workspaceId ∈ s.vectorIndex.rows

end Tables

section
variable {s t : Tables F} {σ : Scope} {n : Nat}

theorem prune_settled (hs:s.Settled) (h:Yields pruneStaleVectorRecords s n t) :
 SameFacts s t ∧ t.Settled ∧ ∀v,v∈t.vectorIndex.rows ↔ v∈s.vectorIndex.rows := by
 obtain ⟨hf,hi,h0⟩:=pruneStaleVectorRecords_spec h
 have hk:∀v,v∈t.vectorIndex.rows ↔ v∈s.vectorIndex.rows:=by
  intro v
  rw [hi]
  exact ⟨fun h=>h.1,fun hv=>⟨hv,stale_of_live (hs.live v hv)⟩⟩
 refine ⟨hf,⟨fun r hr=>?_,hs.live.of_subset hf fun v hv=>(hk v).mp hv⟩,hk⟩
 exact (hk _).mpr (hs.derived r ((h0 r).mp hr).1)

/-- A property that depends on vec0 only through `Derived`, and that hydration keeps. -/
structure VectorStable (I : Tables F → Prop) : Prop where
 settled : ∀ s,I s → s.Settled
 same : ∀ s t,I s → SameFacts s t → (∀ v,v ∈ t.vectorIndex.rows ↔ v ∈ s.vectorIndex.rows) →
  t.Settled → I t
 hydrated : ∀ σ s t,I s → Hydrated σ s t → t.Settled → I t

theorem keeps_ensureVec0Table {I : Tables F → Prop} (σ : Scope) :
 Keeps I (ensureVec0Table σ : VecM F Unit) := by
 unfold ensureVec0Table
 split_ifs
 · exact Keeps.fail _
 · exact Keeps.pure _

namespace VectorStable
variable {I : Tables F → Prop} (hI : VectorStable I)
include hI

theorem prune : Keeps I pruneStaleVectorRecords := by
 intro s hs
 obtain ⟨hf,ht,hi⟩:=prune_settled (hI.settled s hs)
  (show Yields pruneStaleVectorRecords s _ _ from rfl)
 exact hI.same s _ hs hf hi ht

theorem hydrate (σ : Scope) : Keeps I (hydrateVectorIndex σ) := by
 intro s hs
 have hse:=hI.settled s hs
 by_cases hd : σ.dimensions=0
 · rw [hydrateVectorIndex,if_pos hd]
   exact hs
 · obtain ⟨t,ht,hh⟩:=hydrateVectorIndex_spec hse.derived hse.live hd
   rw [ht]
   exact hI.hydrated σ s t hs hh ⟨hh.derived,hh.live hse.live⟩

theorem sync (σ : Scope) : Keeps I (syncVec0FromVectorIndex σ) := by
 intro s hs
 have hse:=hI.settled s hs
 by_cases hd : σ.dimensions=0
 · simp only [syncVec0FromVectorIndex,ensureVec0Table,if_pos hd]
   exact hs
 · have h:=syncVec0FromVectorIndex_synced hse.derived hd
   exact hI.same s _ hs h.facts (fun v=>by rw [h.index]) ⟨h.derived,h.live hse.live⟩

theorem prepare (σ : Scope) (freshRecords : Nat) : Keeps I (prepareVec0 σ freshRecords) := by
 unfold prepareVec0
 split_ifs
 · refine Keeps.bind hI.prune fun _=>Keeps.bind (Keeps.query _) fun _=>
    Keeps.bind (Keeps.query _) fun _=>?_
   split_ifs
   · exact Keeps.pure _
   · exact Keeps.bind (hI.hydrate σ) fun _=>Keeps.pure _
 · exact Keeps.pure _

theorem refresh (σ : Scope) (freshRecords : Nat) : Keeps I (refreshVec0 σ freshRecords) := by
 refine Keeps.bind (Keeps.query _) fun _=>?_
 split_ifs
 · exact Keeps.bind (hI.sync σ) fun _=>Keeps.pure _
 · exact Keeps.pure _

section
variable (engine : VecEngine F S) (σ : Scope) (q : List F) (limit : Nat) (minScore : S)

theorem vec0Search :
 Keeps I (semanticVec0Search engine σ q limit minScore) := by
 refine Keeps.bind (Keeps.query _) fun _=>Keeps.bind (hI.prepare σ _) fun ready=>?_
 split_ifs
 · exact Keeps.bind (keeps_ensureVec0Table σ) fun _=>Keeps.bind (hI.refresh σ _) fun _=>
    Keeps.bind (Keeps.query _) fun _=>Keeps.pure _
 · exact Keeps.pure _

theorem search :
 Keeps I (semanticVectorSearch engine σ q limit minScore) := by
 unfold semanticVectorSearch
 by_cases hgu : limit=0 ∨ q=[] ∨ q.length≠σ.dimensions
 · rw [if_pos hgu]
   exact Keeps.pure _
 rw [if_neg hgu]
 refine Keeps.bind (Keeps.attempt (hI.vec0Search engine σ q limit minScore)) fun outcome=>?_
 rcases outcome with _|_|_
 · exact Keeps.query _
 · exact Keeps.query _
 · exact Keeps.pure _

end

end VectorStable

theorem settled_stable : VectorStable (Settled : Tables F → Prop) :=
 ⟨fun _ h=>h,fun _ _ _ _ _ h=>h,fun _ _ _ _ _ h=>h⟩

/-- The tables `t` a vec0 search reads, from those it starts in: an index with rows is
 in vec0, and an empty one was filled. -/
structure Ready (σ : Scope) (s t : Tables F) : Prop where
 facts : SameFacts s t
 settled : t.Settled
 index : ∀ v ∈ t.vectorIndex.rows,v.scope = σ → v ∈ s.vectorIndex.rows ∨
  ∃ e ∈ s.embeddingRecordsForScope σ,v = e.indexed σ.workspaceId
 copied : ∀ v ∈ s.vectorIndex.rows,v.scope = σ →
  (⟨σ,v.chunkId,v.contentHash,v.vector⟩ : Vec0Row F) ∈ t.vec0.rows
 filled : (∀ v ∈ s.vectorIndex.rows,v.scope≠σ) → ∀ e ∈ s.embeddingRecordsForScope σ,
  e.vector.length = σ.dimensions → e.vec0 σ.workspaceId ∈ t.vec0.rows

theorem mem_vec0Records :
 r∈s.vec0Records σ ↔ r∈s.vec0.rows ∧ r.scope=σ := by
 simp [vec0Records]

theorem Tables.Settled.mem_fresh (hs:s.Settled) :
 v∈s.freshVectorRecords σ ↔ v∈s.vectorIndex.rows ∧ v.scope=σ := by
 rw [mem_freshVectorRecords]
 refine and_congr_right fun hv=>⟨fun h=>h.1,fun h=>⟨h,?_⟩⟩
 rw [hs.live v hv]
 rfl

theorem copied_of_count (hs:s.Settled)
 (hco:(s.freshVectorRecords σ).length ≤ (s.vec0Records σ).length)
 (hv:v∈s.vectorIndex.rows) (hσ:v.scope=σ) :
 (⟨σ,v.chunkId,v.contentHash,v.vector⟩ : Vec0Row F)∈s.vec0.rows := by
 have hin:Function.Injective (Vec0Row.indexed : Vec0Row F → VectorRow F):=by
  rintro ⟨a,b,c,d⟩ ⟨a',b',c',d'⟩ h
  simp only [Vec0Row.indexed] at h
  obtain ⟨rfl,rfl,rfl,rfl⟩:=h
  rfl
 have hn:((s.vec0Records σ).map Vec0Row.indexed).Nodup:=
  ((Nodup.of_map _ s.vec0.nodup).filter _).map hin
 have hsu:(s.vec0Records σ).map Vec0Row.indexed ⊆ s.freshVectorRecords σ:=by
  intro w hw
  obtain ⟨r,hr,rfl⟩:=mem_map.mp hw
  obtain ⟨hr,hrσ⟩:=mem_vec0Records.mp hr
  exact hs.mem_fresh.mpr ⟨hs.derived r hr,hrσ⟩
 have hp:=(subperm_of_subset hn hsu).perm_of_length_le (by simpa using hco)
 obtain ⟨r,hr,rfl⟩:=mem_map.mp (hp.mem_iff.mpr (hs.mem_fresh.mpr ⟨hv,hσ⟩))
 obtain ⟨hme,rfl⟩:=mem_vec0Records.mp hr
 exact hme

theorem refreshVec0_ready (hs:s.Settled) (hd:σ.dimensions≠0) {u : Unit}
 (h:Yields (refreshVec0 σ (s.freshVectorRecords σ).length) s u t)
 (hne:∃v∈s.vectorIndex.rows,v.scope=σ) : Ready σ s t := by
 obtain ⟨v,hv,hvσ⟩:=hne
 simp only [refreshVec0,yields_bind,yields_query] at h
 obtain ⟨_,_,⟨rfl,rfl⟩,h⟩:=h
 split_ifs at h with hlt
 · simp only [yields_bind] at h
   obtain ⟨n,t,hsyn,-,rfl⟩:=h
   have hsy:=syncVec0FromVectorIndex_synced hs.derived hd
   rw [hsyn] at hsy
   refine ⟨hsy.facts,⟨hsy.derived,hsy.live hs.live⟩,fun w hw _=>Or.inl ?_,
    fun w hw hwσ=>?_,fun h=>absurd hvσ (h v hv)⟩
   · rwa [hsy.index] at hw
   · exact syncVec0FromVectorIndex_complete hd hsyn (hs.mem_fresh.mpr ⟨hw,hwσ⟩)
 · simp only [yields_pure] at h
   obtain ⟨-,rfl⟩:=h
   exact ⟨.refl _,hs,fun w hw _=>Or.inl hw,
    fun w hw hwσ=>copied_of_count hs (by omega) hw hwσ,fun h=>absurd hvσ (h v hv)⟩

theorem Hydrated.ready {u : Tables F} (hpf:SameFacts s u) (hu:u.Settled)
 (h:Hydrated σ u t) (hem:∀v∈s.vectorIndex.rows,v.scope≠σ) : Ready σ s t := by
 have hca:=hpf.embeddingRecordsForScope σ
 refine ⟨hpf.trans h.facts,⟨h.derived,h.live hu.live⟩,fun v hv hσ=>?_,
  fun v hv hσ=>absurd hσ (hem v hv),fun _ e he hlen=>?_⟩
 · rcases (h.index v).mp hv with ⟨-,hn⟩|⟨e,he,rfl⟩
   · exact absurd hσ hn
   · exact .inr ⟨e,hca ▸ he,rfl⟩
 · exact h.stored e (hca.symm ▸ he) hlen

variable {engine : VecEngine F S} {q : List F} {limit : Nat} {minScore : S}
 {outcome : VectorSearchOutcome S}

theorem semanticVec0Search_ready (hs:s.Settled)
 (h:Yields (semanticVec0Search engine σ q limit minScore) s (some outcome) t) :
 Ready σ s t ∧
  outcome.records =
   (engine.knn q limit (t.vec0Records σ)).filterMap (vec0Hit engine t σ q minScore) := by
 simp only [semanticVec0Search,yields_bind,yields_query] at h
 obtain ⟨_,_,⟨rfl,rfl⟩,ready,u,hpr,h⟩:=h
 cases ready with
 | false => simp at h
 | true =>
  simp only [if_true,yields_bind] at h
  obtain ⟨_,w,hen,_,_,hr,_,_,⟨rfl,rfl⟩,rfl,rfl⟩:=h
  refine ⟨?_,rfl⟩
  obtain ⟨hd,rfl⟩ : σ.dimensions≠0 ∧ u=w := by
   unfold ensureVec0Table at hen
   split_ifs at hen with hd
   · simp at hen
   · exact ⟨hd,(yields_pure.mp hen).2⟩
  unfold prepareVec0 at hpr
  split_ifs at hpr with hf
  · -- an empty index is pruned, in vain, and hydrated
    simp only [yields_bind] at hpr
    obtain ⟨_,p,hp,_,_,⟨rfl,rfl⟩,_,_,⟨rfl,rfl⟩,hpr⟩:=hpr
    obtain ⟨hpf,hps,-⟩:=prune_settled hs hp
    split_ifs at hpr with hnone
    · simp at hpr
    simp only [yields_bind,yields_pure] at hpr
    obtain ⟨n,v,hhy,-,rfl⟩:=hpr
    obtain ⟨t',ht',hh⟩:=hydrateVectorIndex_spec hps.derived hps.live hd
    obtain ⟨-,rfl⟩:=hhy.deterministic ht'
    rw [hf] at hr
    obtain ⟨_,_,⟨-,rfl⟩,-,rfl⟩:=hr
    refine hh.ready hpf hps fun v hv hσ=>?_
    have hm:=hs.mem_fresh.mpr ⟨hv,hσ⟩
    rw [eq_nil_of_length_eq_zero hf] at hm
    simp at hm
  · simp only [yields_pure] at hpr
    obtain ⟨-,rfl⟩:=hpr
    obtain ⟨v,hv⟩:=exists_mem_of_length_pos (Nat.pos_of_ne_zero hf)
    exact refreshVec0_ready hs hd hr ⟨v,hs.mem_fresh.mp hv⟩

end

section
variable {s t : Tables F} {σ : Scope} {engine : VecEngine F S} {q : List F} {limit : Nat}
 {minScore : S} {rows : List (Vec0Row F)} {hit : VectorSearchRecord S}

def VecEngine.record (engine : VecEngine F S) (q : List F) (chunkId : Int) (vector : List F) :
 VectorSearchRecord S := ⟨chunkId,engine.similarity q vector⟩

theorem vectorIndexContentHash_of_mem (hv:v∈t.vectorIndex.rows)
 (hσ:v.scope=σ) : t.vectorIndexContentHash v.chunkId σ=some v.contentHash := by
 have hsc:v∈t.vectorRecordsForScope σ:=mem_filter.mpr ⟨hv,decide_eq_true hσ⟩
 cases hf : (t.vectorRecordsForScope σ).find? fun w=>w.chunkId=v.chunkId with
 | none =>
  have := find?_eq_none.mp hf v hsc
  simp at this
 | some w =>
  have hw:=mem_filter.mp (mem_of_find?_eq_some hf)
  have hwc:w.chunkId=v.chunkId:=by simpa using find?_some hf
  have hwσ:w.scope=σ:=of_decide_eq_true hw.2
  have heq:w=v:=
   t.vectorIndex.row_unique hw.1 hv (by simp [VectorRow.key,hwc,hwσ,hσ])
  rw [vectorIndexContentHash,hf,heq,Option.map_some]

theorem vec0Hit_settled (ht:t.Settled) (hr:r∈t.vec0Records σ) :
 vec0Hit engine t σ q minScore r =
  Option.guard (fun r=>minScore ≤ r.score) (engine.record q r.chunkId r.embedding) := by
 obtain ⟨hme,hσ⟩:=mem_vec0Records.mp hr
 have hin:=ht.derived r hme
 obtain ⟨c,hc,-,-,hid,-,hh,-⟩:=liveWorkspace_eq_some.mp (ht.live _ hin)
 have hf:t.chunks.find r.chunkId=some c:=t.chunks.find_eq_some.mpr ⟨hc,hid⟩
 have hch:t.chunkContentHash r.chunkId=some r.contentHash:=by
  rw [chunkContentHash,hf,Option.map_some,hh]
  rfl
 have hv:t.vectorIndexContentHash r.chunkId σ=some r.contentHash:=
  vectorIndexContentHash_of_mem hin hσ
 by_cases hm : minScore ≤ engine.similarity q r.embedding
 · simp [vec0Hit,hch,hv,VecEngine.record,hm]
 · simp [vec0Hit,VecEngine.record,Option.guard,hm]

theorem filterMap_vec0Hit (ht:t.Settled) (hro:∀r∈rows,r∈t.vec0Records σ) :
 rows.filterMap (vec0Hit engine t σ q minScore) =
  (rows.map fun r=>engine.record q r.chunkId r.embedding).filter
   fun r=>minScore ≤ r.score := by
 rw [←filterMap_eq_filter,filterMap_map]
 exact filterMap_congr fun r hr=>vec0Hit_settled ht (hro r hr)

theorem mem_of_knn (h:r∈engine.knn q limit rows) : r∈rows := by
 obtain ⟨rest,hp,-⟩:=(engine.exact q limit rows).rest
 exact hp.mem_iff.mpr (mem_append_left _ h)

/-- A hit names a chunk of a live file of the workspace, and its score is that of a
 vector stored with the chunk's current hash. -/
def LiveHit (engine : VecEngine F S) (t : Tables F) (σ : Scope) (q : List F)
 (hit : VectorSearchRecord S) : Prop :=
 ∃ c ∈ t.chunks.rows,∃ f ∈ t.files.rows,c.id = hit.chunkId ∧ f.id = c.fileId ∧
  f.workspaceId = σ.workspaceId ∧ f.deletedAtUnixMs = none ∧
  ∃ vector,hit.score = engine.similarity q vector ∧
   ((⟨σ,c.id,c.contentHash,vector⟩ : Vec0Row F) ∈ t.vec0.rows ∨
    (⟨c.id,σ.model,σ.dimensions,c.contentHash,vector⟩ : EmbeddingRow F) ∈
     t.embeddings.rows)

theorem liveHit_of_vec0 (ht:t.Settled) (hro:∀r∈rows,r∈t.vec0Records σ)
 (h:hit∈rows.filterMap (vec0Hit engine t σ q minScore)) : LiveHit engine t σ q hit := by
 rw [filterMap_vec0Hit ht hro] at h
 obtain ⟨r,hr,rfl⟩:=mem_map.mp (mem_filter.mp h).1
 obtain ⟨hr,rfl⟩:=mem_vec0Records.mp (hro r hr)
 obtain ⟨c,hc,f,hf,hid,hfi,hh,hd,hw⟩:=
  liveWorkspace_eq_some.mp (ht.live _ (ht.derived r hr))
 refine ⟨c,hc,f,hf,hid,hfi,hw,hd,r.embedding,rfl,.inl ?_⟩
 rw [hid,hh]
 exact hr

theorem liveHit_of_scan {reason : String}
 (h:hit∈(semanticSqliteScan engine σ q limit minScore reason t).records) :
 LiveHit engine t σ q hit := by
 have hme:=(mem_filter.mp (ranked_perm.mem_iff.mp (mem_of_mem_take h))).1
 obtain ⟨e,he,rfl⟩:=mem_map.mp hme
 obtain ⟨he,hm,hdi,hl⟩:=mem_embeddingRecordsForScope.mp he
 obtain ⟨c,hc,f,hf,hid,hfi,hh,hd,hw⟩:=liveWorkspace_eq_some.mp hl
 refine ⟨c,hc,f,hf,hid,hfi,hw,hd,e.vector,rfl,.inr ?_⟩
 rw [hid,hh,←hm,←hdi]
 exact he

theorem liveHit_of_search (hs:s.Settled) {outcome : VectorSearchOutcome S}
 (h:Yields (semanticVectorSearch engine σ q limit minScore) s outcome t)
 (hh:hit∈outcome.records) : LiveHit engine t σ q hit := by
 unfold semanticVectorSearch at h
 by_cases hgu : limit=0 ∨ q=[] ∨ q.length≠σ.dimensions
 · rw [if_pos hgu,yields_pure] at h
   obtain ⟨rfl,-⟩:=h
   simp at hh
 rw [if_neg hgu] at h
 simp only [yields_bind,yields_attempt] at h
 obtain ⟨o,u,hv,h⟩:=h
 rcases o with e|_|o
 · obtain ⟨rfl,rfl⟩:=yields_query.mp h
   exact liveHit_of_scan hh
 · obtain ⟨rfl,rfl⟩:=yields_query.mp h
   exact liveHit_of_scan hh
 obtain ⟨rfl,rfl⟩:=yields_pure.mp h
 obtain ⟨hre,hrec⟩:=semanticVec0Search_ready hs hv
 rw [hrec] at hh
 exact liveHit_of_vec0 hre.settled (fun r hr=>mem_of_knn hr) hh

section
variable (hi : s.Indexed) (hs : s.Settled) (h : Ready σ s t)
 (hlen : (∃ v ∈ s.vectorIndex.rows,v.scope = σ) ∨ ∀ e ∈ s.embeddingRecordsForScope σ,
  e.vector.length = σ.dimensions)
include hi hs h hlen

theorem Ready.mem_vec0 :
 r∈t.vec0Records σ ↔ ∃e∈s.embeddingRecordsForScope σ,e.vec0 σ.workspaceId=r := by
 have hsc:∀e∈s.embeddingRecordsForScope σ,(e.vec0 σ.workspaceId).scope=σ:=by
  intro e he
  obtain ⟨-,hm,hd,-⟩:=mem_embeddingRecordsForScope.mp he
  simp [EmbeddingRow.vec0,hm,hd]
 constructor
 · intro hr
   obtain ⟨hme,rfl⟩:=mem_vec0Records.mp hr
   rcases h.index _ (h.settled.derived r hme) rfl with hv|⟨e,he,heq⟩
   · obtain ⟨e,he,heq⟩:=hi.embedded _ hv
     have hl:=hs.live _ hv
     rcases r with ⟨⟨ws,m,d⟩,c,hash,vec⟩
     obtain ⟨rfl,⟨rfl,rfl⟩,rfl,rfl⟩:=heq
     exact ⟨e,mem_embeddingRecordsForScope.mpr ⟨he,rfl,rfl,hl⟩,rfl⟩
   · refine ⟨e,he,?_⟩
     rcases r with ⟨⟨ws,m,d⟩,c,hash,vec⟩
     simp only [Vec0Row.indexed,EmbeddingRow.indexed,VectorRow.mk.injEq] at heq
     simp [EmbeddingRow.vec0,heq]
 · rintro ⟨e,he,rfl⟩
   refine mem_vec0Records.mpr ⟨?_,hsc e he⟩
   by_cases hne : ∃v∈s.vectorIndex.rows,v.scope=σ
   · have hc:=h.copied _ (hi.whole σ hne e he) (hsc e he)
     have heq:e.vec0 σ.workspaceId=⟨σ,e.chunkId,e.contentHash,e.vector⟩:=by
      have hσ:=hsc e he
      simp only [EmbeddingRow.vec0] at hσ ⊢
      rw [hσ]
     rw [heq]
     exact hc
   · have hem:∀v∈s.vectorIndex.rows,v.scope≠σ:=fun v hv hσ=>hne ⟨v,hv,hσ⟩
     exact h.filled hem e he (hlen.resolve_left hne e he)

theorem Ready.agree (hdi :
  ((s.embeddingRecordsForScope σ).map fun e=>engine.similarity q e.vector).Nodup)
 (reason : String) :
 (engine.knn q limit (t.vec0Records σ)).filterMap (vec0Hit engine t σ q minScore) =
  (semanticSqliteScan engine σ q limit minScore reason s).records := by
 have hin:∀e e' : EmbeddingRow F,e.vec0 σ.workspaceId=e'.vec0 σ.workspaceId → e=e':=by
  rintro ⟨a,b,c,d,f⟩ ⟨a',b',c',d',f'⟩ h
  obtain ⟨⟨rfl,rfl⟩,rfl,rfl,rfl⟩:=h
  rfl
 have hp:(t.vec0Records σ).Perm
  ((s.embeddingRecordsForScope σ).map fun e=>e.vec0 σ.workspaceId) := by
  have hn:(t.vec0Records σ).Nodup:=(Nodup.of_map _ t.vec0.nodup).filter _
  refine (perm_ext_iff_of_nodup hn
   ((embeddingRecordsForScope_nodup s σ).map hin)).mpr fun r=>?_
  rw [h.mem_vec0 hi hs hlen,mem_map]
 have hrec:=hp.map fun r=>engine.record q r.chunkId r.embedding
 rw [map_map] at hrec
 -- the records both back ends rank, each from its own table
 have hd:(((t.vec0Records σ).map fun r=>engine.record q r.chunkId r.embedding).map
  VectorSearchRecord.score).Nodup := by
  refine (hrec.map VectorSearchRecord.score).nodup_iff.mpr ?_
  rw [map_map]
  exact hdi
 have hk:IsTop (VectorSearchRecord.score ∘ fun r=>engine.record q r.chunkId r.embedding)
  limit (t.vec0Records σ) (engine.knn q limit (t.vec0Records σ)) := engine.exact q limit _
 have hto:=hk.map
 rw [filterMap_vec0Hit h.settled fun r hr=>mem_of_knn hr,hto.filter_eq minScore hd]
 exact congrArg (List.take limit)
  (ranked_congr (hd.sublist (filter_sublist.map _)) (hrec.filter _))

end

end
end DhKit.Vectors
