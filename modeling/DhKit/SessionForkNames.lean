import DhKit.SessionFork

/-!
# What the records of a fork name

In a self-contained fork every record is the source's with the ids of its checkpoints and of the
session renamed, at any depth.
-/
namespace DhKit.SessionRecords
open KeyedTables JsonRpc NewestFirst List

def CheckpointOf (db : Database) (sessionId text : String) : Prop :=
 ∃ checkpoint ∈ db.checkpoints.rows,checkpoint.sessionId = sessionId ∧ checkpoint.id = text

def NamesSource (db : Database) (sessionId text : String) : Prop :=
 text = sessionId ∨ CheckpointOf db sessionId text

def renamed (env : Surroundings) (w : World) (sourceSessionId text : String) : String :=
 ((checkpointIdMap env w sourceSessionId).get text).getD
  (if text = sourceSessionId then forkSessionId env w else text)

section
variable {env : Surroundings} {w : World} {sourceSessionId text : String}

theorem mem_listCheckpoints {checkpoint : SessionCheckpointRecord} :
 checkpoint∈w.db.listCheckpoints sourceSessionId ↔
  checkpoint∈w.db.checkpoints.rows ∧ checkpoint.sessionId=sourceSessionId := by
 rw [Database.listCheckpoints,mem_newestFirst,mem_filter,decide_eq_true_eq]

theorem nodup_listCheckpoints :
 ((w.db.listCheckpoints sourceSessionId).map SessionCheckpointRecord.id).Nodup :=
 (newestFirst_perm.map _).nodup_iff.mpr (w.db.checkpoints.nodup.sublist
  (filter_sublist.map _))

theorem get_checkpointIdMap {copy : String} :
 (checkpointIdMap env w sourceSessionId).get text=some copy ↔
  ∃i checkpoint,(w.db.listCheckpoints sourceSessionId)[i]?=some checkpoint ∧
   checkpoint.id=text ∧ copy=env.createId .checkpoint (w.ticks+i) := by
 have hids:((w.db.listCheckpoints sourceSessionId).mapIdx fun i checkpoint=>
  (checkpoint.id,env.createId .checkpoint (w.ticks+i))).map Prod.fst =
  (w.db.listCheckpoints sourceSessionId).map SessionCheckpointRecord.id := by
  apply map_mapIdx
  intro i checkpoint
  rfl
 have hn:=@nodup_listCheckpoints w sourceSessionId
 rw [←hids] at hn
 rw [checkpointIdMap,HashMap.get_collect hn,mem_mapIdx]
 constructor
 · rintro ⟨i,hi,heq⟩
   obtain ⟨hid,hco⟩:=Prod.mk.inj heq
   exact ⟨i,_,getElem?_eq_getElem hi,hid,hco.symm⟩
 · rintro ⟨i,checkpoint,hi,hid,hco⟩
   obtain ⟨hlt,rfl⟩:=List.getElem?_eq_some_iff.mp hi
   exact ⟨i,hlt,Prod.ext hid hco.symm⟩

structure Forkable (env : Surroundings) (w : World) (sourceSessionId : String) : Prop where
 fresh : Fresh env w
 found : sourceSessionId ∈ w.db.ids

theorem checkpointOf_mem_ids (h:CheckpointOf w.db sourceSessionId text) : text∈w.db.ids := by
 obtain ⟨checkpoint,hrow,-,rfl⟩:=h
 exact mem_ids_checkpoint hrow mem_cons_self

theorem namesSource_mem_ids (hfork:Forkable env w sourceSessionId)
 (h:NamesSource w.db sourceSessionId text) : text∈w.db.ids := by
 rcases h with rfl|h
 · exact hfork.found
 · exact checkpointOf_mem_ids h

theorem get_of_checkpointOf (h:CheckpointOf w.db sourceSessionId text) :
 ∃n,w.ticks ≤ n ∧
  (checkpointIdMap env w sourceSessionId).get text=some (env.createId .checkpoint n) := by
 obtain ⟨checkpoint,hrow,ho,hid⟩:=h
 obtain ⟨i,hi⟩:=mem_iff_getElem?.mp (mem_listCheckpoints.mpr ⟨hrow,ho⟩)
 exact ⟨w.ticks+i,Nat.le_add_right _ _,get_checkpointIdMap.mpr ⟨i,checkpoint,hi,hid,rfl⟩⟩

theorem get_of_not_checkpointOf (h:¬CheckpointOf w.db sourceSessionId text) :
 (checkpointIdMap env w sourceSessionId).get text=none := by
 rw [Option.eq_none_iff_forall_ne_some]
 intro copy hco
 obtain ⟨i,checkpoint,hi,hid,-⟩:=get_checkpointIdMap.mp hco
 obtain ⟨hrow,ho⟩:=mem_listCheckpoints.mp (mem_of_getElem? hi)
 exact h ⟨checkpoint,hrow,ho,hid⟩

theorem renamed_of_checkpointOf (h:CheckpointOf w.db sourceSessionId text) :
 ∃n,w.ticks ≤ n ∧ renamed env w sourceSessionId text=env.createId .checkpoint n ∧
  copyOf env w sourceSessionId text=env.createId .checkpoint n := by
 obtain ⟨n,hn,hge⟩:=@get_of_checkpointOf env _ _ _ h
 refine ⟨n,hn,?_,?_⟩
 · rw [renamed,hge]
   rfl
 · rw [copyOf,hge]
   rfl

theorem renamed_of_not_checkpointOf (h:¬CheckpointOf w.db sourceSessionId text) :
 renamed env w sourceSessionId text =
  (if text=sourceSessionId then forkSessionId env w else text) ∧
  copyOf env w sourceSessionId text=text := by
 constructor
 · rw [renamed,get_of_not_checkpointOf h]
   rfl
 · rw [copyOf,get_of_not_checkpointOf h]
   rfl

variable (hfork : Forkable env w sourceSessionId)
include hfork

theorem not_namesSource_renamed (text : String) :
 ¬NamesSource w.db sourceSessionId (renamed env w sourceSessionId text) := by
 intro hna
 have hi:=namesSource_mem_ids hfork hna
 by_cases h : CheckpointOf w.db sourceSessionId text
 · obtain ⟨n,hn,hr,-⟩:=@renamed_of_checkpointOf env _ _ _ h
   rw [hr] at hi
   exact hfork.fresh.ids _ n hn hi
 rw [(renamed_of_not_checkpointOf h).1] at hi hna
 split_ifs at hi hna with hso
 · exact hfork.fresh.ids _ _ (Nat.le_refl _) hi
 · exact hna.elim hso h

theorem renamed_eq_self_iff :
 text=renamed env w sourceSessionId text ↔ ¬NamesSource w.db sourceSessionId text := by
 constructor
 · intro heq
   rw [heq]
   exact not_namesSource_renamed hfork text
 · intro hn
   rw [(renamed_of_not_checkpointOf fun h=>hn (.inr h)).1,if_neg fun h=>hn (.inl h)]

theorem rewrite_eq_renamed_iff :
 (if text=sourceSessionId then forkSessionId env w else text) =
  renamed env w sourceSessionId text ↔ ¬CheckpointOf w.db sourceSessionId text := by
 constructor
 · intro heq h
   obtain ⟨n,hn,hr,-⟩:=@renamed_of_checkpointOf env _ _ _ h
   rw [hr] at heq
   split_ifs at heq
   · cases (env.createId_injective heq).1
   · exact hfork.fresh.not_mem hn (checkpointOf_mem_ids h) heq
 · intro h
   rw [(renamed_of_not_checkpointOf h).1]

theorem copyOf_eq_renamed_iff :
 copyOf env w sourceSessionId text=renamed env w sourceSessionId text ↔
  (text=sourceSessionId → CheckpointOf w.db sourceSessionId text) := by
 by_cases h : CheckpointOf w.db sourceSessionId text
 · obtain ⟨n,hn,hr,hco⟩:=@renamed_of_checkpointOf env _ _ _ h
   rw [hr,hco]
   exact ⟨fun _ _=>h,fun _=>rfl⟩
 obtain ⟨hr,hco⟩:=@renamed_of_not_checkpointOf env _ _ _ h
 rw [hr,hco]
 constructor
 · intro heq hso
   rw [if_pos hso,hso] at heq
   exact absurd heq (hfork.fresh.fork_not_mem hfork.found)
 · intro hso
   rw [if_neg fun heq=>h (hso heq)]

end

def SessionCheckpointRecord.jsonFields (checkpoint : SessionCheckpointRecord) : List Json :=
 [checkpoint.summarySnapshotJson,checkpoint.workflowSnapshotJson,checkpoint.continuationJson,
  checkpoint.metadataJson]

/-- A record stored under the session names the text: by a column that refers to another record, or
by a string at any depth of its JSON fields. `forkedFromSessionId` is the one field left out. -/
inductive Names (db : Database) (sessionId text : String) : Prop where
 | session {row : SessionState} (hrow : db.findSession sessionId = some row)
  (htext : text ∈ row.activeWorkItemIds ∨ row.latestSummaryId = some text ∨
   row.latestCheckpointId = some text ∨ row.latestRevertId = some text)
 | runtimeEvent {row : SessionRuntimeEventRecord} {keys : List String}
  (hrow : row ∈ db.runtimeEvents.rows.filter fun row => row.sessionId = sessionId)
  (htext : Json.StringAt keys text row.eventJson)
  (hfield : keys.getLast? ≠ some "forkedFromSessionId")
 | summary {row : SessionSummaryRecord} {keys : List String} {value : Json}
  (hrow : row ∈ db.summaries.rows.filter fun row => row.sessionId = sessionId)
  (hvalue : row.latestCheckpointId = some value) (htext : Json.StringAt keys text value)
 | checkpoint {row : SessionCheckpointRecord} {keys : List String} {value : Json}
  (hrow : row ∈ db.checkpoints.rows.filter fun row => row.sessionId = sessionId)
  (hvalue : value ∈ row.jsonFields) (htext : Json.StringAt keys text value)
 | revert {row : SessionRevertRecord}
  (hrow : row ∈ db.reverts.rows.filter fun row => row.sessionId = sessionId)
  (htext : row.checkpointId = text ∨ row.previousCheckpointId = some text)

/-- No record of the fork names the source or a checkpoint of it, and the records that were copied
name, each in the same place, the copies of what the source's records name. An empty id of a
previous checkpoint stands for none. -/
structure SelfContained (env : Surroundings) (w w' : World) (sourceSessionId : String) : Prop where
 clean : ∀ text,Names w'.db (forkSessionId env w) text → ¬ NamesSource w.db sourceSessionId text
 runtimeEvents : ∃ created : SessionRuntimeEventRecord,
  (w'.db.runtimeEvents.rows.filter fun row => row.sessionId = forkSessionId env w).map
   SessionRuntimeEventRecord.eventJson =
   (w.db.listRuntimeEvents sourceSessionId).map (fun row =>
    row.eventJson.mapStrings (fun _ => renamed env w sourceSessionId) "") ++
   [created.eventJson]
 summaries :
  (w'.db.summaries.rows.filter fun row => row.sessionId = forkSessionId env w).map
   SessionSummaryRecord.latestCheckpointId =
   (w.db.listSummaries sourceSessionId).map fun row =>
    row.latestCheckpointId.map (Json.mapStrings (fun _ => renamed env w sourceSessionId) "")
 checkpoints :
  (w'.db.checkpoints.rows.filter fun row => row.sessionId = forkSessionId env w).map
   (fun row => (row.id,row.jsonFields)) =
   (w.db.listCheckpoints sourceSessionId).map fun row =>
    (copyOf env w sourceSessionId row.id,
     row.jsonFields.map (Json.mapStrings (fun _ => renamed env w sourceSessionId) ""))
 reverts :
  (w'.db.reverts.rows.filter fun row => row.sessionId = forkSessionId env w).map
   (fun row => (row.checkpointId,row.previousCheckpointId)) =
   (w.db.listReverts sourceSessionId).map fun row =>
    (renamed env w sourceSessionId row.checkpointId,
     (row.previousCheckpointId.filter (· ≠ "")).map (renamed env w sourceSessionId))

/-- The names that a fork copies as they are do not name the source. -/
structure NamesSafe (w : World) (sourceSessionId : String) (title : Option String) : Prop where
 runtimeEvents : ∀ row ∈ w.db.listRuntimeEvents sourceSessionId,∀ keys text,
  Json.StringAt keys text row.eventJson → ¬ CheckpointOf w.db sourceSessionId text
 created : ∀ text ∈ ["session.created","session"] ++ title.toList,
  ¬ NamesSource w.db sourceSessionId text
 summaries : ∀ row ∈ w.db.listSummaries sourceSessionId,∀ value,
  row.latestCheckpointId = some value → ∀ keys text,Json.StringAt keys text value →
   ¬ NamesSource w.db sourceSessionId text
 checkpoints : ∀ row ∈ w.db.listCheckpoints sourceSessionId,∀ value ∈ row.jsonFields,
  ∀ keys text,Json.StringAt keys text value → ¬ NamesSource w.db sourceSessionId text
 reverts : ∀ row ∈ w.db.listReverts sourceSessionId,∀ text,
  row.checkpointId = text ∨ row.previousCheckpointId = some text ∧ text ≠ "" →
   text = sourceSessionId → CheckpointOf w.db sourceSessionId text

section
variable {env : Surroundings} {w w' : World} {sourceSessionId : String} {title : Option String}

theorem copyCheckpoints_eq : (copyCheckpoints env w sourceSessionId).map
 (fun row=>(row.id,row.jsonFields))=(w.db.listCheckpoints sourceSessionId).map fun row=>
  (copyOf env w sourceSessionId row.id,row.jsonFields) := by
 apply ext_getElem?
 intro i
 rw [getElem?_map,copyCheckpoints,getElem?_mapIdx,getElem?_map]
 cases hi : (w.db.listCheckpoints sourceSessionId)[i]? with
 | none => rfl
 | some checkpoint =>
  have hge:(checkpointIdMap env w sourceSessionId).get checkpoint.id =
   some (env.createId .checkpoint (w.ticks+i)) :=
   get_checkpointIdMap.mpr ⟨i,checkpoint,hi,rfl,rfl⟩
  have hco:copyOf env w sourceSessionId checkpoint.id =
   env.createId .checkpoint (w.ticks+i) := by
   rw [copyOf,hge]
   rfl
  rw [Option.map_some,Option.map_some,Option.map_some,hco]
  rfl

variable (hfork : Forkable env w sourceSessionId)
include hfork

theorem mapStrings_renamed_eq_self_iff {value : Json} :
 value=value.mapStrings (fun _=>renamed env w sourceSessionId) "" ↔
  ∀keys text,Json.StringAt keys text value → ¬NamesSource w.db sourceSessionId text := by
 have hse:=@Json.mapStrings_id "" value
 conv_lhs => rw [←hse,Json.mapStrings_mapStrings]
 rw [Json.mapStrings_eq_iff]
 constructor
 · intro h keys text hat
   exact (renamed_eq_self_iff hfork).mp (h keys text hat)
 · intro h keys text hat
   exact (renamed_eq_self_iff hfork).mpr (h keys text hat)

theorem rewriteValue_eq_renamed_iff {value : Json} :
 rewriteValue value sourceSessionId (forkSessionId env w) =
  value.mapStrings (fun _=>renamed env w sourceSessionId) "" ↔
  ∀keys text,Json.StringAt keys text value → ¬CheckpointOf w.db sourceSessionId text := by
 rw [rewriteValue,Json.mapStrings_eq_iff]
 constructor
 · intro h keys text hat
   exact (rewrite_eq_renamed_iff hfork).mp (h keys text hat)
 · intro h keys text hat
   exact (rewrite_eq_renamed_iff hfork).mpr (h keys text hat)

theorem latest_renamed_iff {latest : Option Json} :
 latest=latest.map (Json.mapStrings (fun _=>renamed env w sourceSessionId) "") ↔
  ∀value,latest=some value → ∀keys text,Json.StringAt keys text value →
   ¬NamesSource w.db sourceSessionId text := by
 cases latest with
 | none => simp
 | some value =>
  rw [Option.map_some,Option.some.injEq,mapStrings_renamed_eq_self_iff hfork]
  constructor
  · intro hcl other ho
    cases ho
    exact hcl
  · intro hcl
    exact hcl value rfl

theorem fields_renamed_iff {values : List Json} :
 values=values.map (Json.mapStrings (fun _=>renamed env w sourceSessionId) "") ↔
  ∀value∈values,∀keys text,Json.StringAt keys text value →
   ¬NamesSource w.db sourceSessionId text := by
 conv_lhs => lhs; rw [←map_id' values]
 rw [map_inj_left]
 apply forall₂_congr
 intro value _
 exact mapStrings_renamed_eq_self_iff hfork

theorem revert_renamed_iff {checkpointId : String}
 {previous : Option String} :
 ((copyOf env w sourceSessionId checkpointId,
   (previous.filter (· ≠ "")).map (copyOf env w sourceSessionId)) =
  (renamed env w sourceSessionId checkpointId,
   (previous.filter (· ≠ "")).map (renamed env w sourceSessionId))) ↔
  ∀text,checkpointId=text ∨ previous=some text ∧ text ≠ "" →
   text=sourceSessionId → CheckpointOf w.db sourceSessionId text := by
 have hp:((previous.filter (· ≠ "")).map (copyOf env w sourceSessionId) =
  (previous.filter (· ≠ "")).map (renamed env w sourceSessionId)) ↔
  ∀text,previous=some text ∧ text ≠ "" → text=sourceSessionId →
   CheckpointOf w.db sourceSessionId text := by
  simp only [←copyOf_eq_renamed_iff hfork]
  cases previous with
  | none => simp
  | some previous => by_cases hem : previous = "" <;> simp [hem,Option.filter_some]
 rw [Prod.mk.injEq,copyOf_eq_renamed_iff hfork,hp]
 constructor
 · rintro ⟨hch,ho⟩ text (rfl|htext)
   · exact hch
   · exact ho text htext
 · intro hn
   exact ⟨hn _ (.inl rfl),fun text htext=>hn text (.inr htext)⟩

theorem created_clean_iff :
 (∀keys text,Json.StringAt keys text (createdEvent env w sourceSessionId title).eventJson →
  keys.getLast? ≠ some "forkedFromSessionId" → ¬NamesSource w.db sourceSessionId text) ↔
 ∀text∈["session.created","session"] ++ title.toList,
  ¬NamesSource w.db sourceSessionId text := by
 have hnew:¬NamesSource w.db sourceSessionId (forkSessionId env w):=fun hn=>
  hfork.fresh.ids _ _ (Nat.le_refl _) (namesSource_mem_ids hfork hn)
 cases title <;> simp [createdEvent,or_imp,forall_and,hnew,and_or_left,exists_or]

theorem selfContained_iff (h:Forked env w w' sourceSessionId title) :
 SelfContained env w w' sourceSessionId ↔ NamesSafe w sourceSessionId title := by
 have heve:(copyRuntimeEvents env w sourceSessionId).map
  SessionRuntimeEventRecord.eventJson=(w.db.listRuntimeEvents sourceSessionId).map fun row=>
   rewriteValue row.eventJson sourceSessionId (forkSessionId env w) := by
  apply map_mapIdx
  exact fun _ _=>rfl
 have hsum:(copySummaries env w sourceSessionId).map
  SessionSummaryRecord.latestCheckpointId =
   (w.db.listSummaries sourceSessionId).map SessionSummaryRecord.latestCheckpointId := by
  apply map_mapIdx
  exact fun _ _=>rfl
 have hre:(copyReverts env w sourceSessionId).map
  (fun row=>(row.checkpointId,row.previousCheckpointId)) =
   (w.db.listReverts sourceSessionId).map fun row=>
    (copyOf env w sourceSessionId row.checkpointId,
     (row.previousCheckpointId.filter (· ≠ "")).map (copyOf env w sourceSessionId)) := by
  apply map_mapIdx
  exact fun _ _=>rfl
 constructor
 · rintro ⟨hcl,⟨created,hev⟩,hsu,hch,hr⟩
   rw [h.runtimeEvents.filter_own] at hev
   rw [map_append,heve] at hev
   rw [h.summaries.filter_own,hsum,map_inj_left] at hsu
   rw [h.checkpoints.filter_own,copyCheckpoints_eq,map_inj_left] at hch
   rw [h.reverts.filter_own,hre,map_inj_left] at hr
   have hco:=map_inj_left.mp (append_inj' hev rfl).1
   refine ⟨fun row hrow=>(rewriteValue_eq_renamed_iff hfork).mp (hco row hrow),?_,
    fun row hrow=>(latest_renamed_iff hfork).mp (hsu row hrow),
    fun row hrow=>(fields_renamed_iff hfork).mp (Prod.mk.inj (hch row hrow)).2,
    fun row hrow=>(revert_renamed_iff hfork).mp (hr row hrow)⟩
   apply (created_clean_iff hfork).mp
   intro keys text hat hfield
   have hrow:createdEvent env w sourceSessionId title∈w'.db.runtimeEvents.rows.filter
    fun row=>row.sessionId=forkSessionId env w := by
    rw [h.runtimeEvents.filter_own]
    exact mem_append_right _ mem_cons_self
   exact hcl text (.runtimeEvent hrow hat hfield)
 · intro hsa
   refine ⟨?_,⟨createdEvent env w sourceSessionId title,?_⟩,?_,?_,?_⟩
   · intro text hn
     cases hn with
     | session hrow htext =>
      obtain ⟨row,hf,hite,hsu,hch,hr⟩:=h.findSession_fork
      rw [hf] at hrow
      cases hrow
      rw [hite,hsu,hch,hr] at htext
      simp at htext
     | runtimeEvent hrow htext hfield =>
      rw [h.runtimeEvents.filter_own] at hrow
      rcases mem_append.mp hrow with hcop|hcr
      · obtain ⟨i,hi,rfl⟩:=mem_mapIdx.mp hcop
        have hso:=hsa.runtimeEvents _ (getElem_mem hi)
        rw [(rewriteValue_eq_renamed_iff hfork).mpr hso] at htext
        obtain ⟨before,-,rfl⟩:=Json.stringAt_mapStrings.mp htext
        exact not_namesSource_renamed hfork before
      · rw [mem_singleton.mp hcr] at htext
        exact (created_clean_iff hfork).mpr hsa.created _ text htext hfield
     | summary hrow hvalue htext =>
      rw [h.summaries.filter_own] at hrow
      obtain ⟨i,hi,rfl⟩:=mem_mapIdx.mp hrow
      exact hsa.summaries _ (getElem_mem hi) _ hvalue _ text htext
     | checkpoint hrow hvalue htext =>
      rw [h.checkpoints.filter_own] at hrow
      obtain ⟨i,hi,rfl⟩:=mem_mapIdx.mp hrow
      exact hsa.checkpoints _ (getElem_mem hi) _ hvalue _ text htext
     | revert hrow htext =>
      rw [h.reverts.filter_own] at hrow
      obtain ⟨i,hi,rfl⟩:=mem_mapIdx.mp hrow
      have hso:=hsa.reverts _ (getElem_mem hi)
      obtain ⟨hch,hp⟩:=Prod.mk.inj ((revert_renamed_iff hfork).mpr hso)
      rw [hch,hp] at htext
      rcases htext with rfl|htext
      · exact not_namesSource_renamed hfork _
      · obtain ⟨previous,-,rfl⟩:=Option.map_eq_some_iff.mp htext
        exact not_namesSource_renamed hfork previous
   · rw [h.runtimeEvents.filter_own,map_append,heve,
      map_congr_left fun row hrow=>
       (rewriteValue_eq_renamed_iff hfork).mpr (hsa.runtimeEvents row hrow)]
     rfl
   · rw [h.summaries.filter_own,hsum,map_inj_left]
     exact fun row hrow=>(latest_renamed_iff hfork).mpr (hsa.summaries row hrow)
   · rw [h.checkpoints.filter_own,copyCheckpoints_eq,map_inj_left]
     exact fun row hrow=>
      Prod.ext rfl ((fields_renamed_iff hfork).mpr (hsa.checkpoints row hrow))
   · rw [h.reverts.filter_own,hre,map_inj_left]
     exact fun row hrow=>(revert_renamed_iff hfork).mpr (hsa.reverts row hrow)

end

end DhKit.SessionRecords
