import DhKit.IndexHistories

/-!
# The owner of an edge row

Every edge that starts in a file is stored under it, and imports lead from their owner to a file.
-/
namespace DhKit.Indexer
open KeyedTables CommitRules List

variable {db : Db} {id : FileId} {e : GraphEdge}

@[simp] theorem storedEdge_kind : (storedEdge e).kind=e.kind := rfl

@[simp] theorem storedEdge_fromNode : (storedEdge e).fromNode=e.fromNode := rfl

@[simp] theorem storedEdge_toNode : (storedEdge e).toNode=e.toNode := rfl

@[simp] theorem storedEdge_resolution :
 (storedEdge e).resolution=e.resolution := rfl

@[simp] theorem storedEdge_isImport : (storedEdge e).isImport=e.isImport := rfl

@[simp] theorem storedEdge_isResolvedImport :
 isResolvedImport (storedEdge e)=isResolvedImport e := rfl

structure GraphEdge.OwnedBy (edge : GraphEdge) (owner : FileId) : Prop where
 source : ∀ id,edge.fromNode = .file id → owner = id
 imports : edge.isImport = true → edge.fromNode = .file owner ∧ edge.toNode.isFile = true

def Db.EdgesOwned (db : Db) : Prop := ∀ r ∈ db.edges,r.edge.OwnedBy r.sourceFileId

theorem Db.EdgesOwned.of_findEdges (h:db.EdgesOwned)
 (he:e∈db.findEdgesByFile id) : e.OwnedBy id := by
 simp only [Db.findEdgesByFile,mem_map,mem_filter,decide_eq_true_eq] at he
 obtain ⟨r,⟨hr,rfl⟩,rfl⟩:=he
 exact h r hr

section
variable {snapshot : WorkspaceSnapshot} {id : FileId}
 {imp : Import} {word : String} {resolution : SymbolResolution}

theorem importTarget_unbound (h:imp.resolvedSymbolId=none) :
 importTarget snapshot imp=(resolvedImportFileId snapshot imp).map NodeId.file := by
 unfold importTarget
 cases resolvedImportFileId snapshot imp <;> simp [h]

theorem linkImport_owned (hid:imp.sourceFileId=id)
 (h:imp.resolvedSymbolId=none) : (linkImport snapshot imp).OwnedBy id := by
 refine ⟨fun id' hf=>?_,fun _=>⟨?_,?_⟩⟩
 · simp only [linkImport,NodeId.file.injEq] at hf
   exact hid ▸ hf
 · simp [linkImport,hid]
 · simp only [linkImport,importTarget_unbound h]
   cases resolvedImportFileId snapshot imp <;> rfl

theorem siteEdge_owned {kind : EdgeKind} {name : String} {source : Option SymbolId}
 {span : Span} {payload : Payload}
 (hk:kind = .calls ∨ kind = .references) :
 (siteEdge kind word id source name span resolution payload).OwnedBy id := by
 refine ⟨fun id' hf=>?_,fun hi=>?_⟩
 · cases source with
   | none => simpa [siteEdge] using hf
   | some s => simp [siteEdge] at hf
 · rcases hk with rfl|rfl <;> simp [siteEdge,GraphEdge.isImport] at hi

theorem linkFile_owned {facts : ExtractedFacts} (h:facts.Local id) :
 ∀e∈linkFile snapshot id facts.imports facts.callEdges facts.references,e.OwnedBy id := by
 intro e he
 simp only [linkFile,mem_append,mem_map] at he
 rcases he with (⟨imp,hi,rfl⟩|⟨call,hc,rfl⟩)|⟨ref,hr,rfl⟩
 · obtain ⟨hid,-,hs⟩:=h.import_unbound imp hi
   exact linkImport_owned hid hs
 · rw [linkCall,(h.call_unbound call hc).1]
   exact siteEdge_owned (.inl rfl)
 · rw [linkReference,(h.reference_unbound ref hr).1]
   exact siteEdge_owned (.inr rfl)

theorem relinkImportEdge_owned (h:e.OwnedBy id) :
 (relinkImportEdge snapshot e).OwnedBy id := by
 unfold relinkImportEdge
 split
 · exact h
 · split
   · exact h
   · exact ⟨h.source,fun hi=>⟨(h.imports hi).1,rfl⟩⟩

theorem relinkSite_owned {name : Option String} (hk:e.isImport=false) (h:e.OwnedBy id) :
 (relinkSite word name resolution e).OwnedBy id := by
 unfold relinkSite
 split
 · exact ⟨h.source,h.imports⟩
 · refine ⟨h.source,fun hi=>?_⟩
   have : e.isImport=true := hi
   simp [hk] at this

theorem relinkEdge_owned {scope : SourceScope} (h:e.OwnedBy id) :
 (relinkEdge snapshot scope id e).OwnedBy id := by
 unfold relinkEdge
 split
 · exact relinkImportEdge_owned h
 · exact relinkImportEdge_owned h
 · next hk _ =>
   unfold relinkCallEdge
   split
   · exact h
   · exact relinkSite_owned (by simp [GraphEdge.isImport,hk]) h
 · next hk _ =>
   unfold relinkReferenceEdge
   split
   · exact h
   · exact relinkSite_owned (by simp [GraphEdge.isImport,hk]) h
 · exact h

end

theorem storedEdge_owned (h:e.OwnedBy id) :
 (storedEdge e).OwnedBy id := ⟨h.source,h.imports⟩

theorem mem_sourceRows {edges : List GraphEdge} {r : EdgeRow} :
 r∈sourceRows edges ↔ ∃e∈edges,∃id,e.fromNode = .file id ∧ r=⟨id,storedEdge e⟩ := by
 simp only [sourceRows,mem_flatMap]
 refine exists_congr fun e=>and_congr_right fun _=>?_
 unfold rowUnderSource
 cases e.fromNode with
 | file id => simp [Db.ownedRows]
 | symbol id => simp
 | chunk id => simp

theorem mem_contractImportEdges {changed contractChanged : List FileId}
 (h:e∈db.contractImportEdges changed contractChanged) :
 isResolvedImport e=true ∧ ∃r∈db.edges,r.edge=e := by
 simp only [Db.contractImportEdges,Db.preservedFileImportEdges,Db.preservedIncomingImportEdges,
  mem_append,mem_flatMap,mem_map,mem_filter,decide_eq_true_eq] at h
 rcases h with ⟨id,-,r,⟨hr,-,-,hi⟩,rfl⟩|⟨id,-,ht,hi⟩
 · exact ⟨hi,r,hr,rfl⟩
 · obtain ⟨r,hr,rfl⟩:=mem_map.mp (mem_of_mem_take ht)
   exact ⟨hi,r,mem_of_mem_filter hr,rfl⟩

theorem isImport_of_isResolvedImport (h:isResolvedImport e=true) :
 e.isImport=true := by
 simp only [isResolvedImport,decide_eq_true_eq] at h
 exact h.1

theorem edgesOwned_stable (env : Env) : CommitStable env (fun _=>True) Db.EdgesOwned where
 live _ := trivial
 written := by
  intro db db' file symbols chunks edges hasExisting h _ hed hw r hr
  rw [hw.edges] at hr
  rcases mem_append.mp hr with hr|hr
  · exact h r (mem_of_mem_filter hr)
  obtain ⟨e,he,rfl⟩:=Db.mem_ownedRows.mp hr
  refine storedEdge_owned ?_
  rcases hed with rfl|⟨roots,snapshot,reuse,facts,hl,rfl⟩
  · simp at he
  unfold edgesToWrite at he
  split_ifs at he
  · exact h.of_findEdges he
  · exact linkFile_owned hl e he
 retained h _ := h
 deleted := by
  intro db file h r hr
  exact h r (mem_of_mem_filter (mem_of_mem_filter (mem_of_mem_filter hr)))
 contract := by
  intro db db' changed contractChanged h hok r hr
  rw [(relinkContractChangedFiles_ok hok).2] at hr
  rcases mem_append.mp hr with hr|hr
  · exact h r (mem_of_mem_filter hr)
  obtain ⟨e,he,id,hid,rfl⟩:=mem_sourceRows.mp hr
  obtain ⟨-,r,hm,rfl⟩:=mem_contractImportEdges he
  have ho:=h r hm
  rw [ho.source id hid] at ho
  exact storedEdge_owned ho
 workspace := by
  intro db db' root rootPaths h hok r hr
  rcases ((linkWorkspace_some hok).2 r).mp hr with ⟨hr,-⟩|⟨f,-,-,hr⟩
  · exact h r hr
  · obtain ⟨e,he,rfl⟩:=Db.mem_ownedRows.mp hr
    obtain ⟨e0,he0,rfl⟩:=mem_map.mp he
    exact storedEdge_owned (relinkEdge_owned (h.of_findEdges he0))
 same := by
  intro db db' h hs r hr
  rw [hs.edges] at hr
  exact h r hr

theorem edgesOwned_of_arises (h:Arises db) : db.EdgesOwned :=
 h.induct edgesOwned_stable (by simp [Db.EdgesOwned,Db.empty])

end DhKit.Indexer
