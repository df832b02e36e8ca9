import DhKit.EmbeddingPipeline
import DhKit.RunConditions

/-!
# The chunks of a file

What a sequence of refreshes leaves of each file.
-/
namespace DhKit.Embeddings
open KeyedTables RunConditions Store List

/-- A call of `refreshFileChunks`, whose inputs carry the id of the file. -/
structure Refresh where
 fileId : String
 inputs : List ChunkInput
 provider : Provider
 own : ∀ input ∈ inputs,input.fileId = fileId

structure Refreshed where
 store : Store
 last : String → Option Refresh

def Refreshed.step (env : Surroundings) (w : Refreshed) (refresh : Refresh) : Refreshed where
 store := (refreshFileChunks env w.store refresh.fileId refresh.inputs refresh.provider).1
 last := Function.update w.last refresh.fileId (some refresh)

/-- The chunks of the file are those of the refresh, each with an embedding of its model. -/
structure Holds (s : Store) (refresh : Refresh) : Prop where
 chunks : ((s.chunks.rows.filter fun row => row.fileId = refresh.fileId).map ChunkRow.view).Perm
  (refresh.inputs.map ChunkInput.view)
 embedded : ∀ row ∈ s.chunks.rows,row.fileId = refresh.fileId →
  ∃ embedding ∈ s.embeddings.rows,embedding.chunkId = row.id ∧
   embedding.modelName = refresh.provider.modelName

def Refreshed.AllHold (w : Refreshed) : Prop :=
 ∀ fileId refresh,w.last fileId = some refresh → Holds w.store refresh

/-- The chunks of the other files and their embeddings are as before. -/
structure OthersUnchanged (s s' : Store) (fileId : String) : Prop where
 chunks : (s'.chunks.rows.filter fun row => row.fileId≠fileId) =
  s.chunks.rows.filter fun row => row.fileId≠fileId
 embeddings : ∀ row ∈ s.chunks.rows,row.fileId≠fileId →
  (s'.embeddings.rows.filter fun embedding => embedding.chunkId = row.id) =
   s.embeddings.rows.filter fun embedding => embedding.chunkId = row.id

/-- The texts of a refresh are distinct, no other file holds one of them, and the provider answers
for all of them. -/
structure Separate (w : Refreshed) (refresh : Refresh) : Prop where
 distinct : (refresh.inputs.map ChunkInput.content).Nodup
 unshared : ∀ input ∈ refresh.inputs,∀ row ∈ w.store.chunks.rows,
  row.fileId≠refresh.fileId → row.content≠input.content
 answered : AnswersAll refresh.provider (refresh.inputs.map ChunkInput.content)

/-- A store that the pipeline has written: ids to come are unused, embeddings belong to chunks,
and hashes are those of the contents. -/
structure WellFormed (env : Surroundings) (s : Store) : Prop where
 unused : Unused env s
 owned : Owned s
 hashes : ∀ row ∈ s.chunks.rows,row.contentHash = env.contentHash row.content

def Store.cleared (s : Store) (fileId : String) : Store :=
 (s.deleteByChunkIds (s.findIdsByFileId fileId)).deleteByFileId fileId

section
variable {env : Surroundings} {s : Store} {fileId : String}

theorem chunks_cleared : (s.cleared fileId).chunks.rows =
 s.chunks.rows.filter fun row=>row.fileId≠fileId := by
 unfold cleared deleteByFileId deleteByChunkIds
 simp

theorem embeddings_cleared : (s.cleared fileId).embeddings.rows =
 s.embeddings.rows.filter fun row=>row.chunkId ∉ s.findIdsByFileId fileId := by
 unfold cleared deleteByFileId deleteByChunkIds
 simp

theorem not_mem_findIdsByFileId {row : ChunkRow} (hrow:row∈s.chunks.rows)
 (hf:row.fileId≠fileId) : row.id ∉ s.findIdsByFileId fileId := by
 intro hme
 obtain ⟨own,ho,hid⟩:=mem_map.mp hme
 obtain ⟨hst,hsa⟩:=mem_filter.mp ho
 have heq:=s.chunks.row_unique hst hrow hid
 exact hf (by simpa [heq] using hsa)

theorem unused_cleared (h:Unused env s) : Unused env (s.cleared fileId) := by
 constructor
 · intro n hn hme
   exact h.chunk n hn ((filter_sublist.map _).subset hme)
 · intro n hn hme
   exact h.embedding n hn ((filter_sublist.map _).subset hme)

theorem owned_cleared (h:Owned s) : Owned (s.cleared fileId) := by
 intro embedding hme
 rw [embeddings_cleared,mem_filter] at hme
 obtain ⟨row,hrow,hid⟩:=mem_map.mp (h embedding hme.1)
 rw [chunks_cleared,mem_map]
 refine ⟨row,mem_filter.mpr ⟨hrow,?_⟩,hid⟩
 rw [decide_eq_true_eq]
 intro hf
 refine absurd ?_ (of_decide_eq_true hme.2)
 exact mem_map.mpr ⟨row,mem_filter.mpr ⟨hrow,by simpa using hf⟩,hid⟩

theorem WellFormed.cleared (h:WellFormed env s) : WellFormed env (s.cleared fileId) := by
 refine ⟨unused_cleared h.unused,owned_cleared h.owned,fun row hrow=>?_⟩
 exact h.hashes row (mem_filter.mp hrow).1

end

/-- A refresh clears the file, persists its inputs to `t` and embeds `done`; `rest` is what the
provider did not answer for. -/
structure Effect (env : Surroundings) (s t s' : Store) (refresh : Refresh)
 (results added done rest : List ChunkRow) (new : List EmbeddingRow) : Prop where
 persisted : Persisted env (s.cleared refresh.fileId) t refresh.inputs results added
 needing : results.filter (t.needsEmbedding refresh.provider.modelName) = done++rest
 answered : rest = [] ↔ AnswersAll refresh.provider ((done++rest).map ChunkRow.content)
 chunks : s'.chunks.rows = (s.cleared refresh.fileId).chunks.rows++added
 embeddings : s'.embeddings.rows = (s.cleared refresh.fileId).embeddings.rows++new
 chunkIds : new.map EmbeddingRow.chunkId = done.map ChunkRow.id
 modelName : ∀ row ∈ new,row.modelName = refresh.provider.modelName
 unused : Unused env s'

theorem refresh_effect {env : Surroundings} {s : Store} (h:WellFormed env s)
 (refresh : Refresh) :
 ∃t results added done rest new,Effect env s t
  (refreshFileChunks env s refresh.fileId refresh.inputs refresh.provider).1 refresh
  results added done rest new := by
 obtain ⟨added,hp⟩:=persistChunks_persisted h.cleared.unused refresh.inputs
 obtain ⟨done,rest,new,hn,hem,han⟩:=embedAndPersist_embedded
  hp.unused ((s.cleared refresh.fileId).persistChunks env refresh.inputs).2
  refresh.provider
 refine ⟨_,_,added,done,rest,new,hp,hn,?_,?_,?_,hem.chunkIds,
  hem.modelName,hem.unused.rebuildAfter _⟩
 · rw [han,hn]
 · rw [←hp.chunks,←hem.chunks]
   exact congrArg Table.rows (chunks_rebuildAfter _ _)
 · rw [←hp.embeddings,←hem.embeddings]
   exact congrArg Table.rows (embeddings_rebuildAfter _ _)

section
variable {env : Surroundings} {s t s' : Store} {refresh : Refresh}
 {results added done rest : List ChunkRow} {new : List EmbeddingRow} {row : ChunkRow}

theorem Effect.fileId_added (h:Effect env s t s' refresh results added done rest new)
 (hrow:row∈added) : row.fileId=refresh.fileId := by
 have hv:=h.persisted.views.subset (mem_map_of_mem hrow)
 obtain ⟨input,hinput,heq⟩:=mem_map.mp hv
 rw [←refresh.own input hinput]
 exact (congrArg ChunkView.fileId heq).symm

theorem Effect.mem_results (h:Effect env s t s' refresh results added done rest new)
 (hrow:row∈results) :
 row∈(s.cleared refresh.fileId).chunks.rows++added ∧
  ∃input∈refresh.inputs,row.contentHash=env.contentHash input.content := by
 have hme:=mem_map_of_mem (f := some) hrow
 rw [h.persisted.results] at hme
 obtain ⟨input,hinput,hf⟩:=mem_map.mp hme
 rw [←h.persisted.chunks]
 exact ⟨mem_of_find?_eq_some hf,input,hinput,by simpa using find?_some hf⟩

section
variable (hs : WellFormed env s) (h : Effect env s t s' refresh results added done rest new)
include hs h

theorem Effect.hashes : ∀row∈s'.chunks.rows,row.contentHash=env.contentHash row.content := by
 intro row hrow
 rw [h.chunks] at hrow
 exact (mem_append.mp hrow).elim (hs.cleared.hashes row) (h.persisted.hashes row)

theorem Effect.wellFormed : WellFormed env s' := by
 refine ⟨h.unused,fun embedding hme=>?_,h.hashes hs⟩
 rw [h.embeddings] at hme
 rw [h.chunks]
 rcases mem_append.mp hme with ho|hn
 · rw [map_append]
   exact mem_append_left _ (hs.cleared.owned embedding ho)
 have hid:=mem_map_of_mem (f := EmbeddingRow.chunkId) hn
 rw [h.chunkIds] at hid
 obtain ⟨row,hrow,heq⟩:=mem_map.mp hid
 have hr:row∈results:=by
  apply mem_of_mem_filter (p := t.needsEmbedding refresh.provider.modelName)
  rw [h.needing]
  exact mem_append_left _ hrow
 exact heq ▸ mem_map_of_mem (h.mem_results hr).1

end

section
variable (h : Effect env s t s' refresh results added done rest new)
include h

theorem Effect.filter_other :
 (s'.chunks.rows.filter fun row=>row.fileId≠refresh.fileId) =
  s.chunks.rows.filter fun row=>row.fileId≠refresh.fileId := by
 rw [h.chunks,filter_append,chunks_cleared,filter_filter]
 have hnone:(added.filter fun row=>row.fileId≠refresh.fileId)=[]:=by
  apply filter_eq_nil_iff.mpr
  intro row hrow
  simp [h.fileId_added hrow]
 rw [hnone,append_nil]
 simp

theorem Effect.filter_own :
 (s'.chunks.rows.filter fun row=>row.fileId=refresh.fileId)=added := by
 rw [h.chunks,filter_append,chunks_cleared,filter_filter]
 have hal:(added.filter fun row=>row.fileId=refresh.fileId)=added:=by
  apply filter_eq_self.mpr
  intro row hrow
  simp [h.fileId_added hrow]
 have hnone:(s.chunks.rows.filter fun row=>
  decide (row.fileId=refresh.fileId) && decide (row.fileId≠refresh.fileId))=[] := by
  apply filter_eq_nil_iff.mpr
  simp
 rw [hal,hnone,nil_append]

theorem Effect.mem_embeddings (hrow:row∈s.chunks.rows) (hf:row.fileId≠refresh.fileId)
 {embedding : EmbeddingRow} (hme:embedding∈s.embeddings.rows)
 (hid:embedding.chunkId=row.id) : embedding∈s'.embeddings.rows := by
 rw [h.embeddings,embeddings_cleared]
 apply mem_append_left
 rw [mem_filter]
 refine ⟨hme,?_⟩
 rw [decide_eq_true_eq,hid]
 exact not_mem_findIdsByFileId hrow hf

theorem Effect.holds_other {other : Refresh} (hf:other.fileId≠refresh.fileId) (hh:Holds s other) :
 Holds s' other := by
 have hr:∀s : Store,(s.chunks.rows.filter fun row=>row.fileId=other.fileId) =
  (s.chunks.rows.filter fun row=>row.fileId≠refresh.fileId).filter
   fun row=>row.fileId=other.fileId := by
  intro s
  rw [filter_filter]
  apply filter_congr
  intro row _
  by_cases hrow : row.fileId=other.fileId
  · simp [hrow,hf]
  · simp [hrow]
 constructor
 · rw [hr,h.filter_other,←hr]
   exact hh.chunks
 intro row hrow how
 have ho:row.fileId≠refresh.fileId:=how ▸ hf
 have hme:row∈s'.chunks.rows.filter fun row=>row.fileId≠refresh.fileId:=
  mem_filter.mpr ⟨hrow,by simpa using ho⟩
 rw [h.filter_other] at hme
 have hst:=(mem_filter.mp hme).1
 obtain ⟨embedding,hem,hid,hmo⟩:=hh.embedded row hst how
 exact ⟨embedding,h.mem_embeddings hst ho hem hid,hid,hmo⟩

theorem Effect.id_added_ne (hrow:row∈added) :
 row.id ∉ (s.cleared refresh.fileId).chunks.rows.map ChunkRow.id := by
 have hn:=s'.chunks.nodup
 rw [h.chunks,map_append,nodup_append] at hn
 intro hme
 exact hn.2.2 _ hme _ (mem_map_of_mem hrow) rfl

end

theorem Effect.needsEmbedding_added (hs:WellFormed env s)
 (h:Effect env s t s' refresh results added done rest new)
 (hrow:row∈added) (modelName : String) : t.needsEmbedding modelName row=true := by
 have hnone:t.findByChunkId row.id=none:=by
  unfold findByChunkId
  rw [h.persisted.embeddings,find?_eq_none]
  intro embedding hme
  have ho:=hs.cleared.owned embedding hme
  rw [decide_eq_true_eq]
  intro heq
  exact h.id_added_ne hrow (heq ▸ ho)
 unfold needsEmbedding
 rw [hnone]

theorem Effect.full_iff (hh:Function.Injective env.contentHash) (hs:WellFormed env s)
 (h:Effect env s t s' refresh results added done rest new) :
 added.length=refresh.inputs.length ↔ (refresh.inputs.map ChunkInput.content).Nodup ∧
  ∀input∈refresh.inputs,∀row∈s.chunks.rows,row.fileId≠refresh.fileId →
   row.content≠input.content := by
 have hma:(refresh.inputs.map fun input=>env.contentHash input.content) =
  (refresh.inputs.map ChunkInput.content).map env.contentHash := by
  rw [map_map]
  rfl
 rw [h.persisted.full,hma,nodup_map_iff hh,chunks_cleared]
 refine and_congr_right fun _=>forall₂_congr fun input _=>?_
 constructor
 · intro hst row hrow hf heq
   refine hst row (mem_filter.mpr ⟨hrow,by simpa using hf⟩) ?_
   rw [hs.hashes row hrow,heq]
 · intro hst row hrow heq
   obtain ⟨hrow,hf⟩:=mem_filter.mp hrow
   rw [hs.hashes row hrow] at heq
   exact hst row hrow (by simpa using hf) (hh heq)

theorem eq_of_map_eq_of_mem {α β : Type} {f : α → β} {l l' : List α}
 (hi:∀a∈l,∀b∈l',f a=f b → a=b) (h:l.map f=l'.map f) : l=l' := by
 induction l generalizing l' with
 | nil => exact (map_eq_nil_iff.mp h.symm).symm
 | cons a l ih =>
  cases l' with
  | nil => cases h
  | cons b l' =>
   rw [map_cons,map_cons,List.cons.injEq] at h
   rw [hi a mem_cons_self b mem_cons_self h.1,ih _ h.2]
   intro c hc d hd
   exact hi c (mem_cons_of_mem _ hc) d (mem_cons_of_mem _ hd)

theorem Effect.views_eq (h:Effect env s t s' refresh results added done rest new)
 (hf:added.length=refresh.inputs.length) :
 added.map ChunkRow.view=refresh.inputs.map ChunkInput.view :=
 h.persisted.views.eq_of_length (by simpa using hf)

theorem Effect.done_append_rest (hs:WellFormed env s)
 (h:Effect env s t s' refresh results added done rest new)
 (hf:added.length=refresh.inputs.length) : done++rest=added := by
 obtain ⟨hn,hst⟩:=h.persisted.full.mp hf
 have hr:results.map ChunkRow.contentHash =
  refresh.inputs.map fun input=>env.contentHash input.content := by
  have hso:(results.map some).map (Option.map ChunkRow.contentHash) =
   (refresh.inputs.map fun input=>env.contentHash input.content).map some := by
   rw [h.persisted.results,map_map,map_map]
   apply map_congr_left
   intro input hinput
   obtain ⟨row,hrow⟩:=h.persisted.found hinput
   have hh:row.contentHash=env.contentHash input.content:=by
    simpa using find?_some hrow
   simp [hrow,hh]
  apply (Option.some_injective _).list_map
  rw [←hso,map_map,map_map]
  rfl
 have had:added.map ChunkRow.contentHash =
  refresh.inputs.map fun input=>env.contentHash input.content := by
  have hco:=congrArg (List.map fun view=>env.contentHash view.content) (h.views_eq hf)
  rw [map_map,map_map] at hco
  exact (map_congr_left fun row hrow=>h.persisted.hashes row hrow).trans hco
 have hme:∀row∈results,row∈added:=by
  intro row hrow
  obtain ⟨hrow,input,hinput,hh⟩:=h.mem_results hrow
  rcases mem_append.mp hrow with hol|hnew
  · exact absurd hh (hst input hinput row hol)
  · exact hnew
 have heq:results=added:=by
  apply eq_of_map_eq_of_mem (f := ChunkRow.contentHash)
  · intro row hrow other ho hh
    exact inj_on_of_nodup_map (had ▸ hn) (hme row hrow) ho hh
  · rw [hr,had]
 rw [←h.needing,heq]
 exact filter_eq_self.mpr fun row hrow=>h.needsEmbedding_added hs hrow _

theorem Effect.holds_iff (hha:Function.Injective env.contentHash) {w : Refreshed}
 (hs:WellFormed env w.store)
 (h:Effect env w.store t s' refresh results added done rest new) :
 Holds s' refresh ↔ Separate w refresh := by
 have hco:added.length=refresh.inputs.length →
  (done++rest).map ChunkRow.content=refresh.inputs.map ChunkInput.content := by
  intro hf
  have hv:=congrArg (List.map ChunkView.content) (h.views_eq hf)
  rw [map_map,map_map] at hv
  rw [h.done_append_rest hs hf]
  exact hv
 constructor
 · intro hh
   have hf:added.length=refresh.inputs.length:=by
    have hl:=hh.chunks.length_eq
    rwa [h.filter_own,length_map,length_map] at hl
   obtain ⟨hdi,hu⟩:=(h.full_iff hha hs).mp hf
   refine ⟨hdi,hu,?_⟩
   rw [←hco hf,←h.answered]
   -- a chunk that is left over would have an embedding: that of a chunk embedded before it
   have hsp:=h.done_append_rest hs hf
   by_contra hne
   obtain ⟨row,hrow⟩:=exists_mem_of_ne_nil rest hne
   have had:row∈added:=hsp ▸ mem_append_right _ hrow
   have hst:row∈s'.chunks.rows:=by
    rw [h.chunks]
    exact mem_append_right _ had
   obtain ⟨embedding,hme,hid,-⟩:=hh.embedded row hst (h.fileId_added had)
   rw [h.embeddings] at hme
   rcases mem_append.mp hme with ho|hnew
   · exact h.id_added_ne had (hid ▸ hs.cleared.owned embedding ho)
   have hdo:=mem_map_of_mem (f := EmbeddingRow.chunkId) hnew
   rw [h.chunkIds,hid] at hdo
   have hn:=s'.chunks.nodup
   rw [h.chunks,←hsp,map_append,nodup_append,map_append,nodup_append] at hn
   exact hn.2.1.2.2 _ hdo _ (mem_map_of_mem hrow) rfl
 · intro hse
   have hf:=(h.full_iff hha hs).mpr ⟨hse.distinct,hse.unshared⟩
   have hr:rest=[]:=by
    rw [h.answered,hco hf]
    exact hse.answered
   have hdo:done=added:=by
    rw [←h.done_append_rest hs hf,hr,append_nil]
   constructor
   · rw [h.filter_own,h.views_eq hf]
   intro row hrow hfi
   have had:row∈s'.chunks.rows.filter fun row=>row.fileId=refresh.fileId:=
    mem_filter.mpr ⟨hrow,by simpa using hfi⟩
   rw [h.filter_own,←hdo] at had
   have hid:=mem_map_of_mem (f := ChunkRow.id) had
   rw [←h.chunkIds] at hid
   obtain ⟨embedding,hem,heq⟩:=mem_map.mp hid
   refine ⟨embedding,?_,heq,h.modelName embedding hem⟩
   rw [h.embeddings]
   exact mem_append_right _ hem

theorem Effect.othersUnchanged (hh:Function.Injective env.contentHash) {w : Refreshed}
 (hs:WellFormed env w.store)
 (h:Effect env w.store t s' refresh results added done rest new)
 (hse:Separate w refresh) : OthersUnchanged w.store s' refresh.fileId := by
 have hfu:=(h.full_iff hh hs).mpr ⟨hse.distinct,hse.unshared⟩
 refine ⟨h.filter_other,fun row hrow hf=>?_⟩
 have hn:(new.filter fun embedding=>embedding.chunkId=row.id)=[]:=by
  apply filter_eq_nil_iff.mpr
  intro embedding hme
  rw [decide_eq_true_eq]
  intro heq
  have hid:=mem_map_of_mem (f := EmbeddingRow.chunkId) hme
  rw [h.chunkIds,heq] at hid
  obtain ⟨own,ho,hsa⟩:=mem_map.mp hid
  have had:own∈added:=by
   rw [←h.done_append_rest hs hfu]
   exact mem_append_left _ ho
  refine h.id_added_ne had (hsa ▸ mem_map_of_mem ?_)
  exact mem_filter.mpr ⟨hrow,by simpa using hf⟩
 rw [h.embeddings,filter_append,hn,append_nil,embeddings_cleared,filter_filter]
 apply filter_congr
 intro embedding _
 by_cases heq : embedding.chunkId=row.id
 · simp [heq,not_mem_findIdsByFileId hrow hf]
 · simp [heq]

end

section
variable {env : Surroundings}

structure Refreshed.Settled (env : Surroundings) (w : Refreshed) : Prop where
 wellFormed : WellFormed env w.store
 fileId : ∀ fileId refresh,w.last fileId = some refresh → refresh.fileId = fileId
 allHold : w.AllHold

theorem Refreshed.step_iff (hh:Function.Injective env.contentHash) {w : Refreshed}
 (h:w.Settled env) (refresh : Refresh) :
 (w.step env refresh).AllHold ∧
  OthersUnchanged w.store (w.step env refresh).store refresh.fileId ↔
  Separate w refresh := by
 obtain ⟨t,results,added,done,rest,new,hef⟩:=refresh_effect h.wellFormed refresh
 constructor
 · rintro ⟨hal,-⟩
   apply (hef.holds_iff hh h.wellFormed).mp
   exact hal refresh.fileId refresh (Function.update_self _ _ _)
 intro hse
 refine ⟨fun fileId other hl=>?_,hef.othersUnchanged hh h.wellFormed hse⟩
 by_cases hf : fileId=refresh.fileId
 · rw [hf] at hl
   cases (Function.update_self (β := fun _=>Option Refresh) _ _ w.last).symm.trans hl
   exact (hef.holds_iff hh h.wellFormed).mpr hse
 have hb:w.last fileId=some other:=
  (Function.update_of_ne hf _ _).symm.trans hl
 apply hef.holds_other _ (h.allHold fileId other hb)
 rw [h.fileId fileId other hb]
 exact hf

theorem Refreshed.Settled.step {w : Refreshed} (h:w.Settled env) {refresh : Refresh}
 (hal:(w.step env refresh).AllHold) : (w.step env refresh).Settled env := by
 obtain ⟨t,results,added,done,rest,new,hef⟩:=refresh_effect h.wellFormed refresh
 refine ⟨hef.wellFormed h.wellFormed,fun fileId other hl=>?_,hal⟩
 by_cases hf : fileId=refresh.fileId
 · rw [hf] at hl ⊢
   cases (Function.update_self (β := fun _=>Option Refresh) _ _ w.last).symm.trans hl
   rfl
 · exact h.fileId fileId other ((Function.update_of_ne hf _ _).symm.trans hl)

end

/-- In a run of refreshes, each leaves every refreshed file with the chunks of its last refresh and
the other files as they were, exactly when each refresh finds its texts distinct, held by no other
file, and answered by its provider. -/
theorem refreshes_keep_chunks_iff (env : Surroundings)
 (hhash : Function.Injective env.contentHash) (s : Store) (hs : WellFormed env s)
 (refreshes : List Refresh) :
 EachStep (Refreshed.step env) (fun w refresh => (w.step env refresh).AllHold ∧
  OthersUnchanged w.store (w.step env refresh).store refresh.fileId)
  ⟨s,fun _ => none⟩ refreshes ↔
  EachStep (Refreshed.step env) Separate ⟨s,fun _ => none⟩ refreshes := by
 apply eachStep_iff (P := Refreshed.Settled env) (E := fun _=>True)
 · intro refresh _
   trivial
 · intro w refresh _ hse
   exact Refreshed.step_iff hhash hse refresh
 · intro w refresh _ hse hkept
   exact hse.step hkept.1
 · refine ⟨hs,fun fileId refresh hl=>?_,fun fileId refresh hl=>?_⟩
   · cases hl
   · cases hl

def plainSurroundings : Surroundings where
 createId _ n := String.ofList (List.replicate (n + 1) 'i')
 createId_injective h := by
  have := congrArg (fun s : String => s.toList.length) h
  simpa using this
 nowIso _ := "t"
 contentHash text := text
 similarity _ _ := 0
 layer _ _ := 0
 cacheFile model := model

def plainProvider (modelName : String) : Provider where
 modelName := modelName
 maxBatchSize := 2
 embed _ texts := some (texts.map fun _ => [1])

def plainInput (fileId content : String) : ChunkInput where
 fileId := fileId
 filePath := fileId
 symbolId := none
 lineStart := 1
 lineEnd := 1
 content := content
 language := "typescript"

def plainRefresh (fileId : String) (contents : List String) : Refresh where
 fileId := fileId
 inputs := contents.map (plainInput fileId)
 provider := plainProvider "m"
 own := by
  intro input hinput
  obtain ⟨content,-,rfl⟩ := mem_map.mp hinput
  rfl

theorem answersAll_plainProvider (modelName : String) (texts : List String) :
 AnswersAll (plainProvider modelName) texts :=
 .inr ⟨Nat.zero_lt_two,fun _ batch _=>⟨_,rfl,by simp⟩⟩

theorem wellFormed_empty (env : Surroundings) : WellFormed env Store.empty :=
 ⟨⟨fun _ _=>not_mem_nil,fun _ _=>not_mem_nil⟩,fun _ h=>(by cases h),
  fun _ h=>(by cases h)⟩

/-- Two files without a common text. -/
theorem refreshes_keep_chunks_iff_apart :
 EachStep (Refreshed.step plainSurroundings) (fun w refresh =>
  (w.step plainSurroundings refresh).AllHold ∧
   OthersUnchanged w.store (w.step plainSurroundings refresh).store refresh.fileId)
  ⟨Store.empty,fun _ => none⟩ [plainRefresh "f" ["x","y"],plainRefresh "g" ["z"]] := by
 apply (refreshes_keep_chunks_iff plainSurroundings (fun _ _ h=>h) Store.empty
  (wellFormed_empty _) _).mpr
 refine eachStep_cons.mpr ⟨⟨by decide,?_,answersAll_plainProvider _ _⟩,
  eachStep_cons.mpr ⟨⟨by decide,?_,answersAll_plainProvider _ _⟩,eachStep_nil⟩⟩
 · intro input _ row hrow
   cases hrow
 · decide +kernel

/-- Two files with the same text: the chunk stays with the first, and the second has none. -/
theorem shared_text_not_stored :
 let w := [plainRefresh "f" ["x"],plainRefresh "g" ["x"]].foldl
  (Refreshed.step plainSurroundings) ⟨Store.empty,fun _ => none⟩
 w.store.chunks.rows.map ChunkRow.view = [⟨"f","f",1,1,"x"⟩] ∧ ¬ w.AllHold := by
 intro w
 refine ⟨by decide +kernel,fun hal=>?_⟩
 have hh:=hal "g" (plainRefresh "g" ["x"]) rfl
 have hl:=hh.chunks.length_eq
 cases hl

end DhKit.Embeddings
