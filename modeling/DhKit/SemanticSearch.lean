import DhKit.EmbeddingPipeline

/-!
# Semantic search

A query is embedded and compared with the embeddings of a model: through the nearest-neighbour
index, else through the flat cache, else in the table.
-/
namespace DhKit.Embeddings
open KeyedTables HnswIndex List

structure SemanticSearchOptions where
 topK : Nat := 10
 minSimilarity : Rat := 1/4
 modelName : Option String := none

structure SemanticSearchResult where
 chunkId : String
 fileId : String
 filePath : String
 symbolId : Option String
 lineStart : Nat
 lineEnd : Nat
 content : String
 similarity : Rat
 language : String

namespace Store
variable (env : Surroundings) (s : Store)

def linearScan (queryVector : Vector) (embeddings : List (String × Vector)) (topK : Nat)
 (minSim : Rat) : List SearchHit :=
 let scored := (embeddings.map fun embedding =>
  (⟨embedding.1,env.similarity queryVector embedding.2⟩ : SearchHit)).filter
   fun hit => minSim ≤ hit.similarity
 (scored.insertionSort fun a b => b.similarity ≤ a.similarity).take topK

def resolveChunks (hits : List SearchHit) : List SemanticSearchResult :=
 hits.filterMap fun hit => (s.chunks.find hit.chunkId).map fun chunk =>
  { chunkId := chunk.id
    fileId := chunk.fileId
    filePath := chunk.filePath
    symbolId := chunk.symbolId
    lineStart := chunk.lineStart
    lineEnd := chunk.lineEnd
    content := chunk.content
    similarity := hit.similarity
    language := chunk.language }

def searchHits (modelName : String) (queryVector : Vector) (topK : Nat) (minSim : Rat) :
 Option (List SearchHit) :=
 let file := env.cacheFile modelName
 match (s.hnswCache file).filter fun index => !index.nodes.isEmpty with
 | some index => (search env.similarity index queryVector topK).map fun hits =>
  hits.filter fun hit => minSim ≤ hit.similarity
 | none =>
  let cached := ((s.flatCache file).getD []).map fun entry => (entry.chunkId,entry.vector)
  let all := if cached≠[] then cached
   else (s.listByModel modelName).map fun row => (row.chunkId,row.vector)
  some (linearScan env queryVector all topK minSim)

/-- `semanticSearch`; none when the provider or the search throws. -/
def semanticSearch (query : String) (options : SemanticSearchOptions) (provider : Provider) :
 Option (List SemanticSearchResult) :=
 (provider.embed 0 [query]).bind fun vectors =>
  match vectors.head? with
  | none | some [] => some []
  | some queryVector =>
   (searchHits env s (options.modelName.getD provider.modelName) queryVector options.topK
    options.minSimilarity).map s.resolveChunks

def Single : Prop :=
 (s.embeddings.rows.map fun row => (row.chunkId,row.modelName)).Nodup

structure CachesDistinct : Prop where
 flat : ∀ file entries,s.flatCache file = some entries →
  (entries.map AnnIndexEntry.chunkId).Nodup
 hnsw : ∀ file index,s.hnswCache file = some index → index.chunkIds.Nodup

variable {env s}

theorem nodup_listByModel (h:s.Single) (modelName : String) :
 ((s.listByModel modelName).map EmbeddingRow.chunkId).Nodup := by
 have hp:=(perm_insertionSort (fun a b : EmbeddingRow=>b.createdAt ≤ a.createdAt)
  (s.embeddings.rows.filter fun row=>row.modelName=modelName)).map EmbeddingRow.chunkId
 apply hp.nodup_iff.mpr
 have hk:=h.sublist ((filter_sublist
  (p := fun row : EmbeddingRow=>row.modelName=modelName)).map _)
 rw [nodup_map_iff_inj_on hk.of_map]
 intro row hrow other ho heq
 have hmo:∀row∈s.embeddings.rows.filter fun row=>row.modelName=modelName,
  row.modelName=modelName := fun row hrow=>by simpa using (mem_filter.mp hrow).2
 exact inj_on_of_nodup_map hk hrow ho
  (Prod.ext heq ((hmo row hrow).trans (hmo other ho).symm))

theorem nodup_linearScan {embeddings : List (String × Vector)}
 (h:(embeddings.map Prod.fst).Nodup) (queryVector : Vector) (topK : Nat) (minSim : Rat) :
 ((linearScan env queryVector embeddings topK minSim).map SearchHit.chunkId).Nodup := by
 apply List.Nodup.sublist ((take_sublist _ _).map _)
 apply ((perm_insertionSort _ _).map _).nodup_iff.mpr
 apply List.Nodup.sublist (filter_sublist.map _)
 rw [map_map]
 exact h

theorem nodup_searchHits (hsi:s.Single) (hca:s.CachesDistinct) (modelName : String)
 (queryVector : Vector) (topK : Nat) (minSim : Rat) {hits : List SearchHit}
 (h:searchHits env s modelName queryVector topK minSim=some hits) :
 (hits.map SearchHit.chunkId).Nodup := by
 unfold searchHits at h
 dsimp only at h
 cases hi : (s.hnswCache (env.cacheFile modelName)).filter
  fun index=>!index.nodes.isEmpty with
 | some index =>
  rw [hi] at h
  obtain ⟨found,hf,rfl⟩:=Option.map_eq_some_iff.mp h
  have hcac:=(Option.filter_eq_some_iff.mp hi).1
  exact List.Nodup.sublist (filter_sublist.map _) (nodup_search (hca.hnsw _ index hcac) hf)
 | none =>
  rw [hi] at h
  cases h
  apply nodup_linearScan
  split
  · rw [map_map]
    cases hf : s.flatCache (env.cacheFile modelName) with
    | none => exact nodup_nil
    | some entries => exact hca.flat _ entries hf
  · rw [map_map]
    exact nodup_listByModel hsi modelName

theorem chunkIds_resolveChunks (hits:List SearchHit) :
 List.Sublist ((s.resolveChunks hits).map SemanticSearchResult.chunkId)
  (hits.map SearchHit.chunkId) := by
 induction hits with
 | nil => exact List.Sublist.refl _
 | cons hit hits ih =>
  unfold resolveChunks at ih ⊢
  rw [filterMap_cons,map_cons]
  cases hf : s.chunks.find hit.chunkId with
  | none => exact ih.cons _
  | some chunk =>
   have hid:chunk.id=hit.chunkId:=(s.chunks.find_eq_some.mp hf).2
   rw [←hid]
   exact ih.cons_cons chunk.id

theorem nodup_semanticSearch (hsi:s.Single) (hca:s.CachesDistinct) {query : String}
 {options : SemanticSearchOptions} {provider : Provider} {results : List SemanticSearchResult}
 (h:semanticSearch env s query options provider=some results) :
 (results.map SemanticSearchResult.chunkId).Nodup := by
 obtain ⟨vectors,-,hv⟩:=Option.bind_eq_some_iff.mp h
 split at hv
 · cases hv
   exact nodup_nil
 · cases hv
   exact nodup_nil
 · obtain ⟨hits,hh,rfl⟩:=Option.map_eq_some_iff.mp hv
   exact (nodup_searchHits hsi hca _ _ _ _ hh).sublist (chunkIds_resolveChunks _)

theorem chunkIds_buildHnsw (tick : Nat) (entries : List AnnIndexEntry) :
 List.Sublist (buildHnsw env tick entries).chunkIds (entries.map AnnIndexEntry.chunkId) := by
 have hf:∀ (numbered : List (AnnIndexEntry × Nat)) (index : HnswIndex),
  ∃ids,List.Sublist ids (numbered.map fun entry=>entry.1.chunkId) ∧
   (numbered.foldl (fun index e=>insertOne env.similarity index
    (env.layer tick e.2) e.1.chunkId e.1.vector) index).chunkIds=index.chunkIds++ids := by
  intro numbered
  induction numbered with
  | nil =>
   intro index
   exact ⟨[],List.Sublist.refl _,(append_nil _).symm⟩
  | cons entry numbered ih =>
   intro index
   obtain ⟨ids,hid,hi⟩:=ih (insertOne env.similarity index (env.layer tick entry.2)
    entry.1.chunkId entry.1.vector)
   rw [foldl_cons,hi,chunkIds_insertOne,append_assoc]
   refine ⟨_,?_,rfl⟩
   by_cases hv : entry.1.vector=[]
   · rw [if_pos hv]
     exact hid.cons _
   · rw [if_neg hv]
     exact hid.cons_cons _
 obtain ⟨ids,hid,hi⟩:=hf entries.zipIdx {}
 have hn:(entries.zipIdx.map fun entry=>entry.1.chunkId) =
  entries.map AnnIndexEntry.chunkId := by
  conv_rhs => rw [←zipIdx_map_fst 0 entries,map_map]
  rfl
 unfold buildHnsw
 rw [hi,←hn]
 exact hid

theorem CachesDistinct.rebuildAnnIndex (hca:s.CachesDistinct) (hsi:s.Single)
 (modelName : String) : (rebuildAnnIndex env s modelName).CachesDistinct := by
 have hen:(((s.listByModel modelName).map fun row=>
  (⟨row.chunkId,row.modelName,row.vector⟩ : AnnIndexEntry)).map
   AnnIndexEntry.chunkId).Nodup := by
  rw [map_map]
  exact nodup_listByModel hsi modelName
 constructor
 · intro file entries hf
   by_cases hsa : file=env.cacheFile modelName
   · subst hsa
     cases (Function.update_self _ _ _).symm.trans hf
     exact hen
   · exact hca.flat file entries ((Function.update_of_ne hsa _ _).symm.trans hf)
 · intro file index hf
   by_cases hsa : file=env.cacheFile modelName
   · subst hsa
     cases (Function.update_self _ _ _).symm.trans hf
     exact hen.sublist (chunkIds_buildHnsw _ _)
   · exact hca.hnsw file index ((Function.update_of_ne hsa _ _).symm.trans hf)

theorem CachesDistinct.rebuildAfter {state : Store × Outcome} (hca:state.1.CachesDistinct)
 (hsi:state.1.Single) (modelName : String) :
 (rebuildAfter env modelName state).1.CachesDistinct := by
 obtain ⟨s,outcome⟩:=state
 cases outcome with
 | returned => exact hca.rebuildAnnIndex hsi modelName
 | thrown => exact hca
 | endless => exact hca

end Store

end DhKit.Embeddings
