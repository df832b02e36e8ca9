import DhKit.ChunkOwnership
import DhKit.SemanticSearch

/-!
# One embedding for each chunk and model

The pipeline skips a chunk when its oldest embedding is of the provider's model.
-/
namespace DhKit.Embeddings
open KeyedTables RunConditions Store List

inductive PipelineCall where
 | runEmbeddingPipeline (inputs : List ChunkInput) (provider : Provider)
 | refreshFileChunks (fileId : String) (inputs : List ChunkInput) (provider : Provider)
 | reembedAllChunks (provider : Provider) (oldModelName : Option String)

namespace PipelineCall

def provider : PipelineCall → Provider
 | runEmbeddingPipeline _ provider => provider
 | refreshFileChunks _ _ provider => provider
 | reembedAllChunks provider _ => provider

end PipelineCall

section
variable (env : Surroundings) (s : Store)

def Store.step : PipelineCall → Store
 | .runEmbeddingPipeline inputs provider => (Store.runEmbeddingPipeline env s inputs provider).1
 | .refreshFileChunks fileId inputs provider =>
  (Store.refreshFileChunks env s fileId inputs provider).1
 | .reembedAllChunks provider oldModelName =>
  (Store.reembedAllChunks env s provider oldModelName).1

/-- At most one embedding for each chunk and model, each of a stored chunk, and no search that
returns a chunk twice. -/
structure OneEach : Prop where
 single : s.Single
 owned : Owned s
 searches : ∀ query options provider results,
  semanticSearch env s query options provider = some results →
   (results.map SemanticSearchResult.chunkId).Nodup

def Skipped (modelName chunkId : String) : Prop :=
 ∃ row,s.findByChunkId chunkId = some row ∧ row.modelName = modelName

def OldestFirst (modelName chunkId : String) : Prop :=
 (∃ row ∈ s.embeddings.rows,row.chunkId = chunkId ∧ row.modelName = modelName) →
  Skipped s modelName chunkId

/-- The inputs can be embedded once: a text that occurs twice is stored and skipped, and the stored
chunk of a text is skipped if it has an embedding of the model. -/
structure InputsOnce (modelName : String)
 (inputs : List ChunkInput) : Prop where
 repeated : inputs.Pairwise fun a b =>
  env.contentHash a.content = env.contentHash b.content →
   ∃ row,s.findByContentHash (env.contentHash a.content) = some row ∧
    Skipped s modelName row.id
 stored : ∀ input ∈ inputs,∀ row,
  s.findByContentHash (env.contentHash input.content) = some row →
   OldestFirst s modelName row.id

def Store.withoutModel (oldModelName : Option String) : Store :=
 match oldModelName.filter (· ≠ "") with
 | some oldModelName => s.deleteByModel oldModelName
 | none => s

def EmbedsOnce : PipelineCall → Prop
 | .runEmbeddingPipeline inputs provider => InputsOnce env s provider.modelName inputs
 | .refreshFileChunks fileId inputs provider =>
  InputsOnce env (s.cleared fileId) provider.modelName inputs
 | .reembedAllChunks provider oldModelName =>
  ∀ row ∈ s.chunks.rows,OldestFirst (s.withoutModel oldModelName) provider.modelName row.id

end

structure Answering (provider : Provider) : Prop where
 batch : 0 < provider.maxBatchSize
 embed : ∀ n texts,∃ vectors,provider.embed n texts = some vectors ∧
  texts.length ≤ vectors.length

section
variable {env : Surroundings} {s t s' : Store} {modelName : String}
 {provider : Provider} {chunks embedded results added : List ChunkRow} {inputs : List ChunkInput}

theorem Answering.answersAll (h:Answering provider) (texts : List String) :
 AnswersAll provider texts :=
 .inr ⟨h.batch,fun _ batch _=>h.embed _ batch⟩

theorem needsEmbedding_iff {chunk : ChunkRow} :
 s.needsEmbedding modelName chunk=true ↔ ¬Skipped s modelName chunk.id := by
 unfold needsEmbedding Skipped
 cases s.findByChunkId chunk.id with
 | none => simp
 | some row => simp

structure ToEmbedOnce (s : Store) (modelName : String) (chunks : List ChunkRow) : Prop where
 distinct : (chunks.map ChunkRow.id).Nodup
 unembedded : ∀ chunk ∈ chunks,∀ row ∈ s.embeddings.rows,row.chunkId = chunk.id →
  row.modelName≠modelName

theorem ToEmbedOnce.sublist (h:ToEmbedOnce s modelName chunks)
 (hsu:List.Sublist embedded chunks) : ToEmbedOnce s modelName embedded :=
 ⟨h.distinct.sublist (hsu.map _),fun chunk hch=>h.unembedded chunk (hsu.subset hch)⟩

theorem single_embedded_iff {added : List EmbeddingRow}
 (hsi:s.Single) (h:Embedded env s s' modelName embedded added) :
 s'.Single ↔ ToEmbedOnce s modelName embedded := by
 have hk:(added.map fun row=>(row.chunkId,row.modelName)) =
  (embedded.map ChunkRow.id).map fun id=>(id,modelName) := by
  rw [←h.chunkIds,map_map]
  exact map_congr_left fun row hrow=>Prod.ext rfl (h.modelName row hrow)
 have hi:Function.Injective fun id : String=>(id,modelName):=
  fun _ _ heq=>(Prod.mk.inj heq).1
 unfold Single
 rw [h.embeddings,map_append,nodup_append,hk,nodup_map_iff hi,map_map]
 constructor
 · rintro ⟨-,hdi,hap⟩
   refine ⟨hdi,fun chunk hch row hrow hid hmo=>?_⟩
   refine hap _ (mem_map_of_mem hrow) _ (mem_map_of_mem hch) ?_
   exact Prod.ext hid hmo
 · intro hon
   refine ⟨hsi,hon.distinct,fun key hke other ho heq=>?_⟩
   obtain ⟨row,hrow,rfl⟩:=mem_map.mp hke
   obtain ⟨chunk,hch,rfl⟩:=mem_map.mp ho
   obtain ⟨hid,hmo⟩:=Prod.mk.inj heq
   exact hon.unembedded chunk hch row hrow hid hmo

section
variable {inputs : List ChunkInput} {results added : List ChunkRow}
 {hash : String} {row : ChunkRow}

theorem findByChunkId_persisted (h:Persisted env s t inputs results added) (chunkId : String) :
 t.findByChunkId chunkId=s.findByChunkId chunkId := by
 unfold findByChunkId
 rw [h.embeddings]

theorem results_persisted (h:Persisted env s t inputs results added) :
 results=inputs.filterMap fun input=>
  t.findByContentHash (env.contentHash input.content) := by
 have hid:inputs.filterMap (fun input=>t.findByContentHash (env.contentHash input.content)) =
  (inputs.map fun input=>
   t.findByContentHash (env.contentHash input.content)).filterMap id := by
  rw [filterMap_map]
  rfl
 rw [hid,←h.results,filterMap_map]
 exact (filterMap_some).symm

theorem found_persisted (howned:Owned s) (h:Persisted env s t inputs results added)
 (hf:t.findByContentHash hash=some row) :
 s.findByContentHash hash=some row ∨
  ∀embedding∈s.embeddings.rows,embedding.chunkId≠row.id := by
 have hsp:t.findByContentHash hash =
  (s.findByContentHash hash).or (added.find? fun row=>row.contentHash=hash) := by
  unfold findByContentHash
  rw [h.chunks,find?_append]
 rw [hsp] at hf
 cases ho : s.findByContentHash hash with
 | some old =>
  rw [ho,Option.some_or] at hf
  exact .inl hf
 | none =>
  rw [ho,Option.none_or] at hf
  right
  intro embedding hme heq
  have hn:=t.chunks.nodup
  rw [h.chunks,map_append,nodup_append] at hn
  exact hn.2.2 _ (howned embedding hme) _
   (mem_map_of_mem (mem_of_find?_eq_some hf)) heq

theorem find_persisted (h:Persisted env s t inputs results added)
 (hf:s.findByContentHash hash=some row) :
 t.findByContentHash hash=some row := by
 unfold findByContentHash
 rw [h.chunks]
 exact find?_append_of_some hf

theorem skipped_persisted (h:Persisted env s t inputs results added) {chunkId : String} :
 Skipped t modelName chunkId ↔ Skipped s modelName chunkId := by
 unfold Skipped
 rw [findByChunkId_persisted h]

section
variable (howned : Owned s) (h : Persisted env s t inputs results added)
include howned h

theorem stored_of_skipped (hf:t.findByContentHash hash=some row)
 (hsk:Skipped s modelName row.id) : s.findByContentHash hash=some row := by
 rcases found_persisted howned h hf with ho|hnone
 · exact ho
 · obtain ⟨embedding,hem,-⟩:=hsk
   have hid:embedding.chunkId=row.id:=by simpa using find?_some hem
   exact absurd hid (hnone embedding (mem_of_find?_eq_some hem))

theorem distinct_iff :
 ((results.filter (t.needsEmbedding modelName)).map ChunkRow.id).Nodup ↔
  inputs.Pairwise fun a b=>env.contentHash a.content=env.contentHash b.content →
   ∃row,s.findByContentHash (env.contentHash a.content)=some row ∧
    Skipped s modelName row.id := by
 rw [List.Nodup,pairwise_map,pairwise_filter,results_persisted h,pairwise_filterMap]
 apply Pairwise.iff_of_mem
 intro a b ha hb
 constructor
 · intro hap hh
   obtain ⟨row,hrow⟩:=h.found ha
   have hsk:Skipped s modelName row.id:=by
    by_contra hno
    have hn:t.needsEmbedding modelName row=true:=by
     rw [needsEmbedding_iff,skipped_persisted h]
     exact hno
    exact hap row hrow row (hh ▸ hrow) hn hn rfl
   exact ⟨row,stored_of_skipped howned h hrow hsk,hsk⟩
 · intro hr row hrow row' hrow' hn _ hid
   have hsa:row=row':=t.chunks.row_unique (mem_of_find?_eq_some hrow)
    (mem_of_find?_eq_some hrow') hid
   have hh:env.contentHash a.content=env.contentHash b.content:=by
    have hf:row.contentHash=env.contentHash a.content:=by
     simpa using find?_some hrow
    have hse:row'.contentHash=env.contentHash b.content:=by
     simpa using find?_some hrow'
    rw [←hf,hsa,hse]
   obtain ⟨old,ho,hsk⟩:=hr hh
   cases (find_persisted h ho).symm.trans hrow
   rw [needsEmbedding_iff,skipped_persisted h] at hn
   exact hn hsk

theorem unembedded_iff :
 (∀chunk∈results.filter (t.needsEmbedding modelName),∀row∈t.embeddings.rows,
  row.chunkId=chunk.id → row.modelName≠modelName) ↔
  ∀input∈inputs,∀row,
   s.findByContentHash (env.contentHash input.content)=some row →
    OldestFirst s modelName row.id := by
 rw [h.embeddings,results_persisted h]
 constructor
 · intro hnone input hi row hrow hem
   obtain ⟨embedding,hme,hid,hmo⟩:=hem
   by_contra hno
   refine hnone row (mem_filter.mpr ⟨?_,?_⟩) embedding hme hid hmo
   · exact mem_filterMap.mpr ⟨input,hi,find_persisted h hrow⟩
   · rw [needsEmbedding_iff,skipped_persisted h]
     exact hno
 · intro hst chunk hch embedding hme hid hmo
   obtain ⟨hr,hn⟩:=mem_filter.mp hch
   obtain ⟨input,hi,hf⟩:=mem_filterMap.mp hr
   rw [needsEmbedding_iff,skipped_persisted h] at hn
   rcases found_persisted howned h hf with ho|hnone
   · exact hn (hst input hi chunk ho ⟨embedding,hme,hid,hmo⟩)
   · exact hnone embedding hme hid

theorem toEmbedOnce_iff :
 ToEmbedOnce t modelName (results.filter (t.needsEmbedding modelName)) ↔
  InputsOnce env s modelName inputs := by
 constructor
 · intro ho
   exact ⟨(distinct_iff howned h).mp ho.distinct,(unembedded_iff howned h).mp ho.unembedded⟩
 · intro ho
   exact ⟨(distinct_iff howned h).mpr ho.repeated,(unembedded_iff howned h).mpr ho.stored⟩

end

end

/-- What the calls keep when no chunk is embedded twice. -/
structure Consistent (env : Surroundings) (s : Store) : Prop where
 single : s.Single
 owned : Owned s
 unused : Unused env s
 caches : s.CachesDistinct

theorem Consistent.oneEach (h:Consistent env s) : OneEach env s :=
 ⟨h.single,h.owned,fun _ _ _ _ hse=>nodup_semanticSearch h.single h.caches hse⟩

/-- What is left of a store by a call that embeds each chunk once if `Once` holds, and, when the
provider answers, only then. -/
structure Leaves (env : Surroundings) (s : Store) (provider : Provider) (Once : Prop) : Prop where
 owned : Owned s
 unused : Unused env s
 caches : s.Single → s.CachesDistinct
 single : Once → s.Single
 once : Answering provider → s.Single → Once

theorem Leaves.consistent {Once : Prop} (h:Leaves env s provider Once)
 (hsi:s.Single) : Consistent env s :=
 ⟨hsi,h.owned,h.unused,h.caches hsi⟩

theorem embed_leaves (h:Consistent env s)
 (hch:∀chunk∈chunks,chunk.id∈s.chunks.rows.map ChunkRow.id) (provider : Provider) :
 Leaves env
  (rebuildAfter env provider.modelName (embedAndPersist env s chunks provider)).1 provider
  (ToEmbedOnce s provider.modelName
   (chunks.filter (s.needsEmbedding provider.modelName))) := by
 obtain ⟨done,rest,added,hsp,hem,han⟩:=
  embedAndPersist_embedded h.unused chunks provider
 have hi:=single_embedded_iff h.single hem
 generalize embedAndPersist env s chunks provider=state at hem hi ⊢
 have hsi:(rebuildAfter env provider.modelName state).1.Single ↔ state.1.Single:=by
  unfold Single
  rw [embeddings_rebuildAfter]
 refine ⟨?_,hem.unused.rebuildAfter _,fun hsa=>?_,fun ho=>?_,
  fun hans hsa=>?_⟩
 · intro embedding hme
   rw [embeddings_rebuildAfter,hem.embeddings] at hme
   rw [chunks_rebuildAfter,hem.chunks]
   rcases mem_append.mp hme with hol|hn
   · exact h.owned embedding hol
   have hid:=mem_map_of_mem (f := EmbeddingRow.chunkId) hn
   rw [hem.chunkIds] at hid
   obtain ⟨chunk,hchu,heq⟩:=mem_map.mp hid
   rw [←heq]
   apply hch
   apply mem_of_mem_filter (p := s.needsEmbedding provider.modelName)
   rw [hsp]
   exact mem_append_left _ hchu
 · apply CachesDistinct.rebuildAfter _ (hsi.mp hsa)
   constructor
   · rw [hem.flatCache]
     exact h.caches.flat
   · rw [hem.hnswCache]
     exact h.caches.hnsw
 · rw [hsi,hi]
   rw [hsp] at ho
   exact ho.sublist (sublist_append_left _ _)
 · rw [hsi,hi] at hsa
   rw [hsp,han.mpr (hans.answersAll _),append_nil]
   exact hsa

theorem Consistent.persisted (h:Consistent env s) (hp:Persisted env s t inputs results added) :
 Consistent env t := by
 refine ⟨?_,?_,hp.unused,⟨?_,?_⟩⟩
 · unfold Single
   rw [hp.embeddings]
   exact h.single
 · intro embedding hme
   rw [hp.embeddings] at hme
   rw [hp.chunks,map_append]
   exact mem_append_left _ (h.owned embedding hme)
 · rw [hp.flatCache]
   exact h.caches.flat
 · rw [hp.hnswCache]
   exact h.caches.hnsw

theorem mem_chunks_of_results (h:Persisted env s t inputs results added) :
 ∀chunk∈results,chunk.id∈t.chunks.rows.map ChunkRow.id := by
 intro chunk hch
 rw [results_persisted h] at hch
 obtain ⟨input,-,hf⟩:=mem_filterMap.mp hch
 exact mem_map_of_mem (mem_of_find?_eq_some hf)

theorem pipeline_leaves (h:Consistent env s) (inputs : List ChunkInput) (provider : Provider) :
 Leaves env (Store.runEmbeddingPipeline env s inputs provider).1 provider
  (InputsOnce env s provider.modelName inputs) := by
 obtain ⟨added,hp⟩:=persistChunks_persisted h.unused inputs
 rw [←toEmbedOnce_iff h.owned hp]
 exact embed_leaves (h.persisted hp) (mem_chunks_of_results hp) provider

theorem Consistent.cleared (h:Consistent env s) (fileId : String) :
 Consistent env (s.cleared fileId) := by
 refine ⟨?_,owned_cleared h.owned,unused_cleared h.unused,⟨h.caches.flat,h.caches.hnsw⟩⟩
 unfold Single
 exact h.single.sublist (filter_sublist.map _)

theorem Consistent.withoutModel (h:Consistent env s) (oldModelName : Option String) :
 Consistent env (s.withoutModel oldModelName) ∧
  (s.withoutModel oldModelName).chunks=s.chunks := by
 unfold Store.withoutModel
 split
 · refine ⟨⟨?_,?_,⟨h.unused.chunk,?_⟩,⟨h.caches.flat,h.caches.hnsw⟩⟩,rfl⟩
   · exact h.single.sublist (filter_sublist.map _)
   · intro embedding hme
     exact h.owned embedding (mem_of_mem_filter hme)
   · intro n hn hme
     exact h.unused.embedding n hn ((filter_sublist.map _).subset hme)
 · exact ⟨h,rfl⟩

theorem deleteOrphaned_eq (h:Owned s) : s.deleteOrphaned=s := by
 have hr:(s.embeddings.deleteWhere fun row=>
  row.chunkId ∉ s.chunks.rows.map ChunkRow.id)=s.embeddings := by
  apply Table.ext_rows
  apply filter_eq_self.mpr
  intro embedding hme
  simpa using h embedding hme
 unfold deleteOrphaned
 rw [hr]

theorem reembed_leaves (h:Consistent env s) (provider : Provider)
 (oldModelName : Option String) :
 Leaves env (Store.reembedAllChunks env s provider oldModelName).1 provider
  (∀row∈s.chunks.rows,
   OldestFirst (s.withoutModel oldModelName) provider.modelName row.id) := by
 obtain ⟨hco,hchu⟩:=h.withoutModel oldModelName
 have hca:(Store.reembedAllChunks env s provider oldModelName).1 =
  (rebuildAfter env provider.modelName (embedAndPersist env (s.withoutModel oldModelName)
   (s.withoutModel oldModelName).listAllChunks provider)).1 := by
  change (rebuildAfter env provider.modelName
   (embedAndPersist env (s.withoutModel oldModelName).deleteOrphaned
    (s.withoutModel oldModelName).deleteOrphaned.listAllChunks provider)).1=_
  rw [deleteOrphaned_eq hco.owned]
 have hp:(s.withoutModel oldModelName).listAllChunks.Perm s.chunks.rows:=by
  unfold listAllChunks
  rw [hchu]
  exact perm_insertionSort _ _
 have hi:ToEmbedOnce (s.withoutModel oldModelName) provider.modelName
  ((s.withoutModel oldModelName).listAllChunks.filter
   ((s.withoutModel oldModelName).needsEmbedding provider.modelName)) ↔
  ∀row∈s.chunks.rows,
   OldestFirst (s.withoutModel oldModelName) provider.modelName row.id := by
  constructor
  · intro hon row hrow hem
    obtain ⟨embedding,hme,hid,hmo⟩:=hem
    by_contra hno
    refine hon.unembedded row ?_ embedding hme hid hmo
    exact mem_filter.mpr ⟨hp.mem_iff.mpr hrow,needsEmbedding_iff.mpr hno⟩
  · intro ho
    refine ⟨?_,fun chunk hch embedding hme hid hmo=>?_⟩
    · exact (((hp.map ChunkRow.id).nodup_iff.mpr s.chunks.nodup).sublist
       (filter_sublist.map _))
    · obtain ⟨hch,hn⟩:=mem_filter.mp hch
      exact needsEmbedding_iff.mp hn
       (ho chunk (hp.mem_iff.mp hch) ⟨embedding,hme,hid,hmo⟩)
 rw [hca,←hi]
 apply embed_leaves hco
 intro chunk hch
 rw [hchu]
 exact mem_map_of_mem (hp.mem_iff.mp hch)

theorem step_leaves (h:Consistent env s) (call : PipelineCall) :
 Leaves env (s.step env call) call.provider (EmbedsOnce env s call) := by
 cases call with
 | runEmbeddingPipeline inputs provider => exact pipeline_leaves h inputs provider
 | refreshFileChunks fileId inputs provider =>
  exact pipeline_leaves (h.cleared fileId) inputs provider
 | reembedAllChunks provider oldModelName => exact reembed_leaves h provider oldModelName

end

/-- From an empty repository: in a run whose calls embed no chunk twice, every state has at most one
embedding for each chunk and model, each of a stored chunk, and no search returns a chunk twice;
when the providers answer, only such runs do. -/
theorem one_embedding_each (env : Surroundings) (calls : List PipelineCall) :
 (EachStep (Store.step env) (EmbedsOnce env) Store.empty calls →
  Throughout (Store.step env) (OneEach env) Store.empty calls) ∧
  ((∀ call ∈ calls,Answering call.provider) →
   Throughout (Store.step env) (OneEach env) Store.empty calls →
    EachStep (Store.step env) (EmbedsOnce env) Store.empty calls) := by
 have hem:Consistent env Store.empty:=by
  refine ⟨nodup_nil,fun _ h=>?_,?_,⟨fun _ _ h=>?_,fun _ _ h=>?_⟩⟩
  · cases h
  · exact (wellFormed_empty env).unused
  · cases h
  · cases h
 constructor
 · intro hon
   have hr:Throughout (Store.step env) (Consistent env) Store.empty calls:=by
    apply throughout_of_eachStep _ hem hon
    intro s call hco hca
    have hl:=step_leaves hco call
    exact hl.consistent (hl.single hca)
   exact hr.mono fun s h=>h.oneEach
 · intro han hr
   have hea:=(throughout_iff_eachStep_keeps.mp hr).2
   refine (eachStep_iff (P := Consistent env) han ?_ ?_ hem).mp hea
   · intro s call hans hco
     have hl:=step_leaves hco call
     constructor
     · intro ho
       exact hl.once hans ho.single
     · intro hca
       exact (hl.consistent (hl.single hca)).oneEach
   · intro s call _ hco ho
     exact (step_leaves hco call).consistent ho.single

/-- Two texts in one call, then a refresh of their file. -/
theorem one_embedding_each_two :
 Throughout (Store.step plainSurroundings) (OneEach plainSurroundings) Store.empty
  [.runEmbeddingPipeline [plainInput "f" "x",plainInput "f" "y"] (plainProvider "m"),
   .refreshFileChunks "f" [plainInput "f" "x"] (plainProvider "n")] := by
 apply (one_embedding_each plainSurroundings _).1
 refine eachStep_cons.mpr ⟨⟨?_,?_⟩,eachStep_cons.mpr ⟨⟨?_,?_⟩,eachStep_nil⟩⟩
 · refine pairwise_pair.mpr fun hh=>?_
   exact absurd hh (by decide)
 · intro input _ row hrow
   cases hrow
 · exact pairwise_singleton _ _
 · intro input _ row hrow
   cases hrow

/-- One text twice in one call: the chunk gets two embeddings, and a search returns it twice. -/
theorem repeated_text_embedded_twice :
 let s := Store.step plainSurroundings Store.empty (.runEmbeddingPipeline
  [plainInput "f" "x",plainInput "f" "x"] (plainProvider "m"))
 s.embeddings.rows.map (fun row => (row.chunkId,row.modelName)) = [("i","m"),("i","m")] ∧
  (semanticSearch plainSurroundings s "q" ⟨10,0,none⟩ (plainProvider "m")).map
   (List.map SemanticSearchResult.chunkId) = some ["i","i"] := by
 decide +kernel

end DhKit.Embeddings
