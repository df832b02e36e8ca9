import Mathlib.Algebra.GroupWithZero.Nat
import Mathlib.Data.List.Induction
import DhKit.HnswIndex
import DhKit.KeyedTables

/-!
# The embedding pipeline

`persistChunks` stores a chunk unless one with its content hash is stored, of whatever file;
`embedAndPersist` asks for the vectors of the chunks without an embedding of the model.
-/
namespace DhKit.Embeddings
open KeyedTables List

structure ChunkInput where
 fileId : String
 filePath : String
 symbolId : Option String
 lineStart : Nat
 lineEnd : Nat
 content : String
 language : String
deriving DecidableEq

structure ChunkRow where
 id : String
 fileId : String
 filePath : String
 symbolId : Option String
 lineStart : Nat
 lineEnd : Nat
 content : String
 contentHash : String
 tokenEstimate : Nat
 language : String
 createdAt : String
deriving DecidableEq

structure EmbeddingRow where
 id : String
 chunkId : String
 modelName : String
 vector : Vector
 vectorDim : Nat
 createdAt : String
deriving DecidableEq

structure AnnIndexEntry where
 chunkId : String
 modelName : String
 vector : Vector

def estimateTokens (text : String) : Nat :=
 ((text.toList.map fun c => if c.toNat < 0x10000 then 1 else 2).sum+3)/4

inductive RowKind where
 | chunk | embedding

/-- Random ids, the clock, the hash of a text, the similarity of two vectors, the random layers of
an index and the name of the cache file of a model. -/
structure Surroundings where
 createId : RowKind → Nat → String
 createId_injective : ∀ {kind m n},createId kind m = createId kind n → m = n
 nowIso : Nat → String
 contentHash : String → String
 similarity : Vector → Vector → Rat
 layer : Nat → Nat → Nat
 cacheFile : String → String

/-- The two tables and the cache files; `ticks` counts the ids drawn. -/
structure Store where
 chunks : Table String ChunkRow ChunkRow.id
 embeddings : Table String EmbeddingRow EmbeddingRow.id
 flatCache : String → Option (List AnnIndexEntry)
 hnswCache : String → Option HnswIndex
 ticks : Nat

structure Provider where
 modelName : String
 maxBatchSize : Nat
 /-- The answer to the n-th request of a call; none when it fails. -/
 embed : Nat → List String → Option (List Vector)

inductive Outcome where
 | returned | thrown | endless
deriving DecidableEq

namespace Store

def empty : Store where
 chunks := Table.empty
 embeddings := Table.empty
 flatCache := fun _ => none
 hnswCache := fun _ => none
 ticks := 0

variable (env : Surroundings) (s : Store)

def newChunk (input : ChunkInput) : ChunkRow where
 id := env.createId .chunk s.ticks
 fileId := input.fileId
 filePath := input.filePath
 symbolId := input.symbolId
 lineStart := input.lineStart
 lineEnd := input.lineEnd
 content := input.content
 contentHash := env.contentHash input.content
 tokenEstimate := estimateTokens input.content
 language := input.language
 createdAt := env.nowIso s.ticks

/-- `ChunksRepo.save`: on a conflict of ids only the content columns are updated. -/
def saveChunk (row : ChunkRow) : Store :=
 { s with
   chunks := (s.chunks.insert row).getD (s.chunks.modify row.id (fun old =>
    { old with
      content := row.content
      contentHash := row.contentHash
      tokenEstimate := row.tokenEstimate }) fun _ => rfl)
   ticks := s.ticks+1 }

def findByContentHash (hash : String) : Option ChunkRow :=
 s.chunks.rows.find? fun row => row.contentHash = hash

def findIdsByFileId (fileId : String) : List String :=
 (s.chunks.rows.filter fun row => row.fileId = fileId).map ChunkRow.id

def listAllChunks : List ChunkRow :=
 s.chunks.rows.insertionSort fun a b => b.createdAt ≤ a.createdAt

def deleteByFileId (fileId : String) : Store :=
 { s with chunks := s.chunks.deleteWhere fun row => row.fileId = fileId }

def newEmbedding (modelName createdAt : String) (chunk : ChunkRow) (vector : Vector) :
 EmbeddingRow where
 id := env.createId .embedding s.ticks
 chunkId := chunk.id
 modelName := modelName
 vector := vector
 vectorDim := vector.length
 createdAt := createdAt

/-- One statement of `EmbeddingsRepo.saveBatch`. -/
def saveEmbedding (row : EmbeddingRow) : Store :=
 { s with
   embeddings := (s.embeddings.insert row).getD (s.embeddings.modify row.id (fun old =>
    { old with vector := row.vector,vectorDim := row.vectorDim }) fun _ => rfl)
   ticks := s.ticks+1 }

def saveBatchAt (modelName createdAt : String) (inputs : List (ChunkRow × Vector)) : Store :=
 inputs.foldl (fun s input =>
  s.saveEmbedding (s.newEmbedding env modelName createdAt input.1 input.2)) s

def saveBatch (modelName : String) (inputs : List (ChunkRow × Vector)) : Store :=
 s.saveBatchAt env modelName (env.nowIso s.ticks) inputs

def findByChunkId (chunkId : String) : Option EmbeddingRow :=
 s.embeddings.rows.find? fun row => row.chunkId = chunkId

def listByModel (modelName : String) : List EmbeddingRow :=
 (s.embeddings.rows.filter fun row => row.modelName = modelName).insertionSort
  fun a b => b.createdAt ≤ a.createdAt

def deleteByChunkIds (chunkIds : List String) : Store :=
 { s with embeddings := s.embeddings.deleteWhere fun row => row.chunkId ∈ chunkIds }

def deleteByModel (modelName : String) : Store :=
 { s with embeddings := s.embeddings.deleteWhere fun row => row.modelName = modelName }

def deleteOrphaned : Store :=
 { s with embeddings := s.embeddings.deleteWhere fun row =>
    row.chunkId ∉ s.chunks.rows.map ChunkRow.id }

def persistChunk (state : Store × List ChunkRow) (input : ChunkInput) : Store × List ChunkRow :=
 let (s,results) := state
 match s.findByContentHash (env.contentHash input.content) with
 | some existing => (s,results++[existing])
 | none =>
  let row := s.newChunk env input
  (s.saveChunk row,results++[row])

def persistChunks (inputs : List ChunkInput) : Store × List ChunkRow :=
 inputs.foldl (persistChunk env) (s,[])

def needsEmbedding (modelName : String) (chunk : ChunkRow) : Bool :=
 match s.findByChunkId chunk.id with
 | some existing => existing.modelName≠modelName
 | none => true

end Store

def batchesFrom {α : Type} (size : Nat) : Nat → List α → List (List α)
 | 0,_ => []
 | turns+1,items =>
  if items = [] then [] else items.take size::batchesFrom size turns (items.drop size)

def batches {α : Type} (size : Nat) (items : List α) : List (List α) :=
 batchesFrom size items.length items

namespace Store
variable (env : Surroundings)

/-- The loop over the batches; an answer with too few vectors makes it throw. -/
def embedBatches (provider : Provider) : Nat → List (List ChunkRow) → Store → Store × Outcome
 | _,[],s => (s,.returned)
 | n,batch::rest,s =>
  match provider.embed n (batch.map ChunkRow.content) with
  | none => (s,.thrown)
  | some vectors =>
   if vectors.length < batch.length then (s,.thrown)
   else
    embedBatches provider (n+1) rest
     (s.saveBatch env provider.modelName (batch.zip vectors))

/-- `embedAndPersist`. With a batch size of zero the loop makes no progress. -/
def embedAndPersist (s : Store) (chunks : List ChunkRow) (provider : Provider) :
 Store × Outcome :=
 let toEmbed := chunks.filter (s.needsEmbedding provider.modelName)
 if provider.maxBatchSize = 0 then (s,if toEmbed = [] then .returned else .endless)
 else embedBatches env provider 0 (batches provider.maxBatchSize toEmbed) s

def buildHnsw (tick : Nat) (entries : List AnnIndexEntry) : HnswIndex :=
 (entries.zipIdx.foldl (fun index (entry,n) =>
  HnswIndex.insertOne env.similarity index (env.layer tick n) entry.chunkId entry.vector) {})

def rebuildAnnIndex (s : Store) (modelName : String) : Store :=
 let entries := (s.listByModel modelName).map fun row =>
  (⟨row.chunkId,row.modelName,row.vector⟩ : AnnIndexEntry)
 let file := env.cacheFile modelName
 { s with
   flatCache := Function.update s.flatCache file (some entries)
   hnswCache := Function.update s.hnswCache file (some (buildHnsw env s.ticks entries))
   ticks := s.ticks+1 }

def rebuildAfter (modelName : String) : Store × Outcome → Store × Outcome
 | (s,.returned) => (rebuildAnnIndex env s modelName,.returned)
 | (s,outcome) => (s,outcome)

def runEmbeddingPipeline (s : Store) (inputs : List ChunkInput) (provider : Provider) :
 Store × Outcome :=
 let (s,stored) := s.persistChunks env inputs
 rebuildAfter env provider.modelName (embedAndPersist env s stored provider)

def refreshFileChunks (s : Store) (fileId : String) (newChunkInputs : List ChunkInput)
 (provider : Provider) : Store × Outcome :=
 let s := (s.deleteByChunkIds (s.findIdsByFileId fileId)).deleteByFileId fileId
 runEmbeddingPipeline env s newChunkInputs provider

/-- `reembedAllChunks`; an empty name of the old model counts as none. -/
def reembedAllChunks (s : Store) (provider : Provider) (oldModelName : Option String) :
 Store × Outcome :=
 let s := match oldModelName.filter (· ≠ "") with
  | some oldModelName => s.deleteByModel oldModelName
  | none => s
 let s := s.deleteOrphaned
 rebuildAfter env provider.modelName (embedAndPersist env s s.listAllChunks provider)

end Store

section
variable {α β : Type} {size : Nat} {turns : Nat} {items : List α}

theorem flatten_batchesFrom (hsi:0 < size)
 (h:items.length ≤ turns) : (batchesFrom size turns items).flatten=items := by
 induction turns generalizing items with
 | zero =>
  rw [eq_nil_of_length_eq_zero (Nat.le_zero.mp h)]
  rfl
 | succ turns ih =>
  rw [batchesFrom]
  by_cases hi : items=[]
  · rw [if_pos hi,hi,flatten_nil]
  · rw [if_neg hi,flatten_cons,ih,take_append_drop]
    rw [length_drop]
    omega

theorem flatten_batches (hsi:0 < size) (items : List α) :
 (batches size items).flatten=items :=
 flatten_batchesFrom hsi (le_refl _)

theorem ne_nil_of_mem_batchesFrom (hsi:0 < size) {batch : List α}
 (h:batch∈batchesFrom size turns items) : batch≠[] := by
 induction turns generalizing items with
 | zero => cases h
 | succ turns ih =>
  rw [batchesFrom] at h
  by_cases hi : items=[]
  · rw [if_pos hi] at h
    cases h
  rw [if_neg hi] at h
  rcases mem_cons.mp h with rfl|h
  · simp [hi,hsi.ne']
  · exact ih h

theorem map_batchesFrom (f : α → β) :
 batchesFrom size turns (items.map f)=(batchesFrom size turns items).map (List.map f) := by
 induction turns generalizing items with
 | zero => rfl
 | succ turns ih =>
  rw [batchesFrom,batchesFrom]
  by_cases hi : items=[]
  · simp [hi]
  · rw [if_neg hi,if_neg (by simpa using hi),←map_take,←map_drop,ih]
    rfl

theorem map_batches (f : α → β) (items : List α) :
 batches size (items.map f)=(batches size items).map (List.map f) := by
 unfold batches
 rw [length_map,map_batchesFrom]

end

structure ChunkView where
 fileId : String
 filePath : String
 lineStart : Nat
 lineEnd : Nat
 content : String
deriving DecidableEq

def ChunkInput.view (input : ChunkInput) : ChunkView :=
 ⟨input.fileId,input.filePath,input.lineStart,input.lineEnd,input.content⟩

def ChunkRow.view (row : ChunkRow) : ChunkView :=
 ⟨row.fileId,row.filePath,row.lineStart,row.lineEnd,row.content⟩

namespace Store

structure Unused (env : Surroundings) (s : Store) : Prop where
 chunk : ∀ n,s.ticks ≤ n → env.createId .chunk n ∉ s.chunks.rows.map ChunkRow.id
 embedding : ∀ n,s.ticks ≤ n → env.createId .embedding n ∉ s.embeddings.rows.map EmbeddingRow.id

def Owned (s : Store) : Prop :=
 ∀ row ∈ s.embeddings.rows,row.chunkId ∈ s.chunks.rows.map ChunkRow.id

variable {env : Surroundings} {s s' : Store} {provider : Provider} {n : Nat}

theorem rows_saveChunk {row : ChunkRow} (h:row.id ∉ s.chunks.rows.map ChunkRow.id) :
 (s.saveChunk row).chunks.rows=s.chunks.rows++[row] := by
 unfold saveChunk
 obtain ⟨chunks,hch⟩ : ∃chunks,s.chunks.insert row=some chunks := ⟨_,dif_neg h⟩
 simp only [hch]
 exact (Table.insert_eq_some.mp hch).2

theorem rows_saveEmbedding {row : EmbeddingRow}
 (h:row.id ∉ s.embeddings.rows.map EmbeddingRow.id) :
 (s.saveEmbedding row).embeddings.rows=s.embeddings.rows++[row] := by
 unfold saveEmbedding
 obtain ⟨embeddings,hr⟩ : ∃embeddings,s.embeddings.insert row=some embeddings :=
  ⟨_,dif_neg h⟩
 simp only [hr]
 exact (Table.insert_eq_some.mp hr).2

/-- `added` are the chunks that were new. Each input is answered by the chunk that then has its
hash; all inputs are added exactly when their hashes are distinct and not stored before. -/
structure Persisted (env : Surroundings) (s s' : Store) (inputs : List ChunkInput)
 (results added : List ChunkRow) : Prop where
 chunks : s'.chunks.rows = s.chunks.rows++added
 embeddings : s'.embeddings = s.embeddings
 flatCache : s'.flatCache = s.flatCache
 hnswCache : s'.hnswCache = s.hnswCache
 unused : Unused env s'
 results : results.map some =
  inputs.map fun input => s'.findByContentHash (env.contentHash input.content)
 views : List.Sublist (added.map ChunkRow.view) (inputs.map ChunkInput.view)
 hashes : ∀ row ∈ added,row.contentHash = env.contentHash row.content
 full : added.length = inputs.length ↔
  (inputs.map fun input => env.contentHash input.content).Nodup ∧
   ∀ input ∈ inputs,∀ row ∈ s.chunks.rows,row.contentHash≠env.contentHash input.content

theorem Persisted.found {inputs : List ChunkInput} {results added : List ChunkRow}
 (h:Persisted env s s' inputs results added) {input : ChunkInput} (hi:input∈inputs) :
 ∃row,s'.findByContentHash (env.contentHash input.content)=some row := by
 have hme:=mem_map_of_mem (f := fun input : ChunkInput=>
  s'.findByContentHash (env.contentHash input.content)) hi
 rw [←h.results] at hme
 obtain ⟨row,-,hrow⟩:=mem_map.mp hme
 exact ⟨row,hrow.symm⟩

theorem Unused.saveChunk (h:Unused env s) (input : ChunkInput) :
 Unused env (s.saveChunk (s.newChunk env input)) := by
 have hr:=@rows_saveChunk s (s.newChunk env input) (h.chunk _ (le_refl _))
 constructor
 · intro n hn
   change s.ticks+1 ≤ n at hn
   rw [hr,map_append,mem_append,not_or]
   refine ⟨h.chunk n (by omega),fun hme=>?_⟩
   have := env.createId_injective (mem_singleton.mp hme)
   omega
 · intro n hn
   exact h.embedding n (Nat.le_of_succ_le hn)

theorem find?_append_of_some {α : Type} {p : α → Bool} {l l' : List α} {a : α}
 (h:l.find? p=some a) : (l++l').find? p=some a := by
 rw [find?_append,h,Option.some_or]

theorem persistChunks_persisted (h:Unused env s) (inputs : List ChunkInput) :
 ∃added,Persisted env s (s.persistChunks env inputs).1 inputs
  (s.persistChunks env inputs).2 added := by
 induction inputs using List.reverseRecOn with
 | nil =>
  refine ⟨[],?_,rfl,rfl,rfl,h,rfl,List.Sublist.refl _,?_,?_⟩
  · exact (append_nil _).symm
  · intro row hrow
    cases hrow
  · simp
 | append_singleton inputs input ih =>
  obtain ⟨added,hdo⟩:=ih
  rw [persistChunks,foldl_append,foldl_cons,foldl_nil]
  change ∃added,Persisted env s (persistChunk env (s.persistChunks env inputs) input).1
   (inputs++[input]) (persistChunk env (s.persistChunks env inputs) input).2 added
  generalize s.persistChunks env inputs=state at hdo ⊢
  obtain ⟨t,results⟩:=state
  have hl:added.length ≤ inputs.length:=by
   simpa using hdo.views.length_le
  unfold persistChunk
  simp only
  cases hexi : t.findByContentHash (env.contentHash input.content) with
  | some existing =>
   have hme:=mem_of_find?_eq_some hexi
   have hh:existing.contentHash=env.contentHash input.content:=by
    simpa using find?_some hexi
   refine ⟨added,hdo.chunks,hdo.embeddings,hdo.flatCache,hdo.hnswCache,
    hdo.unused,?_,?_,hdo.hashes,?_⟩
   · rw [map_append,map_append,hdo.results]
     simp [hexi]
   · rw [map_append]
     exact hdo.views.trans (sublist_append_left _ _)
   rw [length_append,length_singleton]
   constructor
   · intro hfu
     omega
   rintro ⟨hn,hst⟩
   -- the chunk that was found is an old one, or that of an earlier input
   rw [hdo.chunks] at hme
   rcases mem_append.mp hme with ho|hnew
   · exact absurd hh (hst input (by simp) existing ho)
   have hv:=hdo.views.subset (mem_map_of_mem hnew)
   obtain ⟨earlier,hea,heq⟩:=mem_map.mp hv
   have hco:earlier.content=existing.content:=congrArg ChunkView.content heq
   rw [map_append,nodup_append] at hn
   refine absurd rfl (hn.2.2 _ (mem_map_of_mem hea) _ ?_)
   simp [hco,←hh,hdo.hashes existing hnew]
  | none =>
   have hf:∀row∈t.chunks.rows,row.contentHash≠env.contentHash input.content:=by
    simpa [findByContentHash] using hexi
   have hr:=@rows_saveChunk t (t.newChunk env input)
    (hdo.unused.chunk _ (le_refl _))
   have hfi:∀hash row,t.findByContentHash hash=some row →
    (t.saveChunk (t.newChunk env input)).findByContentHash hash=some row := by
    intro hash row hrow
    unfold findByContentHash
    rw [hr]
    exact find?_append_of_some hrow
   have hse:(t.saveChunk (t.newChunk env input)).findByContentHash
    (env.contentHash input.content)=some (t.newChunk env input) := by
    unfold findByContentHash at hexi ⊢
    rw [hr,find?_append,hexi]
    simp [newChunk]
   refine ⟨added++[t.newChunk env input],?_,hdo.embeddings,hdo.flatCache,
    hdo.hnswCache,hdo.unused.saveChunk input,?_,?_,?_,?_⟩
   · rw [hr,hdo.chunks,append_assoc]
   · rw [map_append,map_append,hdo.results]
     simp only [map_cons,hse]
     congr 1
     apply map_congr_left
     intro earlier hea
     obtain ⟨row,hrow⟩:=hdo.found hea
     rw [hrow,hfi _ _ hrow]
   · rw [map_append,map_append]
     exact hdo.views.append (List.Sublist.refl _)
   · intro row hrow
     rcases mem_append.mp hrow with hrow|hrow
     · exact hdo.hashes row hrow
     · rw [mem_singleton.mp hrow]
       rfl
   rw [length_append,length_append,length_singleton,length_singleton,Nat.add_right_cancel_iff,
    hdo.full,map_append,nodup_append]
   have holds:∀row∈s.chunks.rows,row.contentHash≠env.contentHash input.content:=
    fun row hrow=>hf row (by rw [hdo.chunks]; exact mem_append_left _ hrow)
   have hea:∀earlier∈inputs,
    env.contentHash earlier.content≠env.contentHash input.content := by
    intro earlier hea heq
    obtain ⟨row,hrow⟩:=hdo.found hea
    have hh:row.contentHash=env.contentHash earlier.content:=by
     simpa using find?_some hrow
    exact hf row (mem_of_find?_eq_some hrow) (hh.trans heq)
   constructor
   · rintro ⟨hn,hst⟩
     refine ⟨⟨hn,by simp,?_⟩,?_⟩
     · simpa using hea
     intro next hnex
     rcases mem_append.mp hnex with hnex|hnex
     · exact hst next hnex
     · rw [mem_singleton.mp hnex]
       exact holds
   · rintro ⟨⟨hn,-,-⟩,hst⟩
     exact ⟨hn,fun next hnex=>hst next (mem_append_left _ hnex)⟩

/-- The embeddings `added`, one for each of the chunks in turn. -/
structure Embedded (env : Surroundings) (s s' : Store) (model : String)
 (embedded : List ChunkRow) (added : List EmbeddingRow) : Prop where
 chunks : s'.chunks = s.chunks
 embeddings : s'.embeddings.rows = s.embeddings.rows++added
 flatCache : s'.flatCache = s.flatCache
 hnswCache : s'.hnswCache = s.hnswCache
 unused : Unused env s'
 chunkIds : added.map EmbeddingRow.chunkId = embedded.map ChunkRow.id
 modelName : ∀ row ∈ added,row.modelName = model

theorem Embedded.refl (h:Unused env s) (modelName : String) :
 Embedded env s s modelName [] [] :=
 ⟨rfl,(append_nil _).symm,rfl,rfl,h,rfl,fun _ hrow=>by cases hrow⟩

theorem Embedded.trans {s'' : Store} {modelName : String} {chunks chunks' : List ChunkRow}
 {added added' : List EmbeddingRow} (h:Embedded env s s' modelName chunks added)
 (h':Embedded env s' s'' modelName chunks' added') :
 Embedded env s s'' modelName (chunks++chunks') (added++added') where
 chunks := h'.chunks.trans h.chunks
 embeddings := by rw [h'.embeddings,h.embeddings,append_assoc]
 flatCache := h'.flatCache.trans h.flatCache
 hnswCache := h'.hnswCache.trans h.hnswCache
 unused := h'.unused
 chunkIds := by rw [map_append,map_append,h.chunkIds,h'.chunkIds]
 modelName := fun row hrow=>(mem_append.mp hrow).elim (h.modelName row) (h'.modelName row)

theorem saveEmbedding_embedded (h:Unused env s) (modelName createdAt : String)
 (chunk : ChunkRow) (vector : Vector) :
 Embedded env s (s.saveEmbedding (s.newEmbedding env modelName createdAt chunk vector)) modelName
  [chunk] [s.newEmbedding env modelName createdAt chunk vector] := by
 have hr:=@rows_saveEmbedding s
  (s.newEmbedding env modelName createdAt chunk vector) (h.embedding _ (le_refl _))
 refine ⟨rfl,hr,rfl,rfl,⟨?_,?_⟩,rfl,?_⟩
 · intro n hn
   exact h.chunk n (Nat.le_of_succ_le hn)
 · intro n hn
   change s.ticks+1 ≤ n at hn
   rw [hr,map_append,mem_append,not_or]
   refine ⟨h.embedding n (by omega),fun hme=>?_⟩
   have := env.createId_injective (mem_singleton.mp hme)
   omega
 · intro row hrow
   rw [mem_singleton.mp hrow]
   rfl

theorem saveBatchAt_embedded (h:Unused env s) (modelName createdAt : String)
 (inputs : List (ChunkRow × Vector)) :
 ∃added,Embedded env s (s.saveBatchAt env modelName createdAt inputs) modelName
  (inputs.map Prod.fst) added := by
 induction inputs generalizing s with
 | nil => exact ⟨[],Embedded.refl h modelName⟩
 | cons input inputs ih =>
  have hf:=saveEmbedding_embedded h modelName createdAt input.1 input.2
  obtain ⟨added,hr⟩:=ih hf.unused
  exact ⟨_::added,hf.trans hr⟩

def Answers (provider : Provider) (n : Nat) (texts : List (List String)) : Prop :=
 ∀ i batch,texts[i]? = some batch →
  ∃ vectors,provider.embed (n+i) batch = some vectors ∧ batch.length ≤ vectors.length

theorem answers_nil : Answers provider n [] := by
 intro i batch h
 cases h

theorem answers_cons {batch : List String}
 {texts : List (List String)} : Answers provider n (batch::texts) ↔
  (∃vectors,provider.embed n batch=some vectors ∧ batch.length ≤ vectors.length) ∧
   Answers provider (n+1) texts := by
 constructor
 · intro h
   refine ⟨h 0 batch rfl,fun i next hn=>?_⟩
   have := h (i+1) next hn
   rwa [←Nat.add_assoc,Nat.add_right_comm] at this
 · rintro ⟨hf,hr⟩ i next hn
   cases i with
   | zero =>
    cases hn
    exact hf
   | succ i =>
    have := hr i next hn
    rwa [Nat.add_right_comm,Nat.add_assoc] at this

theorem embedBatches_embedded (h:Unused env s) (provider : Provider) (n : Nat)
 (work : List (List ChunkRow)) :
 ∃done rest added,work=done++rest ∧
  Embedded env s (embedBatches env provider n work s).1 provider.modelName done.flatten added ∧
  ((embedBatches env provider n work s).2 = .returned ↔ rest=[]) ∧
  (rest=[] ↔ Answers provider n (work.map (List.map ChunkRow.content))) := by
 induction work generalizing n s with
 | nil =>
  refine ⟨[],[],[],rfl,Embedded.refl h _,?_,?_⟩
  · simp [embedBatches]
  · simp [answers_nil]
 | cons batch work ih =>
  rw [embedBatches,map_cons,answers_cons]
  have hst:∀outcome : Outcome,outcome≠.returned →
   ¬(∃vectors,provider.embed n (batch.map ChunkRow.content)=some vectors ∧
    (batch.map ChunkRow.content).length ≤ vectors.length) →
   ∃done rest added,batch::work=done++rest ∧
    Embedded env s (s,outcome).1 provider.modelName done.flatten added ∧
    ((s,outcome).2 = .returned ↔ rest=[]) ∧
    (rest=[] ↔ (∃vectors,provider.embed n (batch.map ChunkRow.content)=some vectors ∧
     (batch.map ChunkRow.content).length ≤ vectors.length) ∧
     Answers provider (n+1) (work.map (List.map ChunkRow.content))) := by
   intro outcome ho hfa
   refine ⟨[],batch::work,[],rfl,Embedded.refl h _,?_,?_⟩
   · simp [ho]
   · simp only [reduceCtorEq,false_iff,not_and]
     intro han
     exact absurd han hfa
  cases hem : provider.embed n (batch.map ChunkRow.content) with
  | none =>
   simp only [hem] at hst
   exact hst .thrown (by decide) (by simp)
  | some vectors =>
   simp only [hem] at hst
   simp only
   by_cases hfe : vectors.length < batch.length
   · rw [if_pos hfe]
     refine hst .thrown (by decide) ?_
     simp [hfe]
   rw [if_neg hfe]
   obtain ⟨first,hf⟩:=saveBatchAt_embedded h provider.modelName (env.nowIso s.ticks)
    (batch.zip vectors)
   rw [map_fst_zip (by omega)] at hf
   obtain ⟨done,rest,added,hwo,had,hr,hans⟩:=
    ih hf.unused (n+1)
   refine ⟨batch::done,rest,first++added,?_,?_,hr,?_⟩
   · rw [hwo,cons_append]
   · rw [flatten_cons]
     exact hf.trans had
   · rw [hans,iff_and_self]
     intro _
     exact ⟨vectors,rfl,by simpa using hfe⟩

def AnswersAll (provider : Provider) (texts : List String) : Prop :=
 texts = [] ∨ 0 < provider.maxBatchSize ∧
  Answers provider 0 (batches provider.maxBatchSize texts)

theorem embedAndPersist_embedded (h:Unused env s) (chunks : List ChunkRow)
 (provider : Provider) :
 ∃done rest added,chunks.filter (s.needsEmbedding provider.modelName)=done++rest ∧
  Embedded env s (embedAndPersist env s chunks provider).1 provider.modelName done added ∧
  (rest=[] ↔ AnswersAll provider
   ((chunks.filter (s.needsEmbedding provider.modelName)).map ChunkRow.content)) := by
 unfold embedAndPersist AnswersAll
 generalize chunks.filter (s.needsEmbedding provider.modelName)=toEmbed
 by_cases hsi : provider.maxBatchSize=0
 · refine ⟨[],toEmbed,[],rfl,?_,?_⟩
   · rw [if_pos hsi]
     exact Embedded.refl h _
   · simp [hsi]
 have hp:=Nat.pos_of_ne_zero hsi
 obtain ⟨done,rest,added,hwo,hem,-,han⟩:=
  embedBatches_embedded h provider 0 (batches provider.maxBatchSize toEmbed)
 have hsp:toEmbed=done.flatten++rest.flatten:=by
  rw [←flatten_append,←hwo,flatten_batches hp]
 have hr:rest.flatten=[] ↔ rest=[]:=by
  constructor
  · intro hf
    by_contra hne
    obtain ⟨batch,hb⟩:=exists_mem_of_ne_nil rest hne
    have hme:batch∈batches provider.maxBatchSize toEmbed:=by
     rw [hwo]
     exact mem_append_right _ hb
    exact ne_nil_of_mem_batchesFrom hp hme (flatten_eq_nil_iff.mp hf batch hb)
  · rintro rfl
    rfl
 refine ⟨done.flatten,rest.flatten,added,hsp,?_,?_⟩
 · rw [if_neg hsi]
   exact hem
 rw [hr,han,←map_batches]
 constructor
 · intro hal
   exact .inr ⟨hp,hal⟩
 · rintro (hnone|hal)
   · rw [hnone]
     exact answers_nil
   · exact hal.2

theorem chunks_rebuildAfter (modelName : String) (state : Store × Outcome) :
 (rebuildAfter env modelName state).1.chunks=state.1.chunks := by
 obtain ⟨s,outcome⟩:=state
 cases outcome <;> rfl

theorem embeddings_rebuildAfter (modelName : String) (state : Store × Outcome) :
 (rebuildAfter env modelName state).1.embeddings=state.1.embeddings := by
 obtain ⟨s,outcome⟩:=state
 cases outcome <;> rfl

theorem Unused.rebuildAfter {state : Store × Outcome} (h:Unused env state.1)
 (modelName : String) : Unused env (rebuildAfter env modelName state).1 := by
 obtain ⟨s,outcome⟩:=state
 cases outcome with
 | returned =>
  exact ⟨fun n hn=>h.chunk n (Nat.le_of_succ_le hn),
   fun n hn=>h.embedding n (Nat.le_of_succ_le hn)⟩
 | thrown => exact h
 | endless => exact h

end Store

end DhKit.Embeddings
