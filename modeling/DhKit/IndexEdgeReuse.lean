import Mathlib.Data.Finset.Image
import DhKit.IndexRelinkContract

/-!
# Reuse of stored edges

A file whose fingerprints did not change keeps its stored edges.
-/
namespace DhKit.Indexer
open KeyedTables CommitRules List

structure EdgeView where
 kind : EdgeKind
 fromNode : NodeId
 toNode : NodeId
 resolution : EdgeResolution
deriving DecidableEq

def GraphEdge.view (edge : GraphEdge) : EdgeView :=
 ⟨edge.kind,edge.fromNode,edge.toNode,edge.resolution⟩

@[simp] theorem storedEdge_view (edge : GraphEdge) : (storedEdge edge).view=edge.view := rfl

def linkSet (edges : List GraphEdge) : Finset EdgeView := (edges.map GraphEdge.view).toFinset

theorem mem_linkSet {edges : List GraphEdge} {view : EdgeView} :
 view∈linkSet edges ↔ ∃e∈edges,e.view=view := by
 simp [linkSet]

theorem linkSet_map_storedEdge (edges : List GraphEdge) :
 linkSet (edges.map storedEdge)=linkSet edges := by
 simp [linkSet,Function.comp_def]

theorem linkSet_congr {edges edges' : List GraphEdge} (h:∀e,e∈edges ↔ e∈edges') :
 linkSet edges=linkSet edges' := by
 ext view
 simp [mem_linkSet,h]

def ExtractedFacts.links (facts : ExtractedFacts) (snapshot : WorkspaceSnapshot) (id : FileId) :
 List GraphEdge :=
 linkFile snapshot id facts.imports facts.callEdges facts.references

def Import.site (i : Import) :
 Bool × Option String × Option String × Option ResolutionError :=
 (i.isReexport,i.importedName,i.localName,i.resolutionError)

def CallEdge.site (c : CallEdge) : Option SymbolId × String × Option String :=
 (c.callerSymbolId,c.calleeDisplayName,c.calleeQualifiedName)

def Reference.site (r : Reference) : Option SymbolId × String := (r.sourceSymbolId,r.targetName)

/-- The two texts import the same, and the same symbols of them call and refer to the same names. No
fingerprint records who calls what. -/
structure SameNames (old new : ExtractedFacts) : Prop where
 imports : old.imports.map Import.site = new.imports.map Import.site
 calls : ∀ site,site ∈ old.callEdges.map CallEdge.site ↔ site ∈ new.callEdges.map CallEdge.site
 references : ∀ site,
  site ∈ old.references.map Reference.site ↔ site ∈ new.references.map Reference.site

theorem SameNames.of_eq {old new : ExtractedFacts}
 (hi:old.imports.map Import.site=new.imports.map Import.site)
 (hc:old.callEdges.map CallEdge.site=new.callEdges.map CallEdge.site)
 (hr:old.references.map Reference.site=new.references.map Reference.site) : SameNames old new :=
 ⟨hi,fun site=>by rw [hc],fun site=>by rw [hr]⟩

theorem SameNames.symm {old new : ExtractedFacts} (h:SameNames old new) : SameNames new old :=
 ⟨h.imports.symm,fun site=>(h.calls site).symm,fun site=>(h.references site).symm⟩

section
variable {snapshot : WorkspaceSnapshot} {id : FileId} {old new : ExtractedFacts} {kind : EdgeKind}

def symbolView (kind : EdgeKind) (id : FileId) (source target : Option SymbolId) : EdgeView :=
 ⟨kind,(source.map NodeId.symbol).getD (.file id),(target.map NodeId.symbol).getD (.file id),
  resolutionOf target⟩

theorem siteEdge_view {word name : String} {source : Option SymbolId}
 {span : Span} {resolution : SymbolResolution} {payload : Payload} :
 (siteEdge kind word id source name span resolution payload).view =
  symbolView kind id source resolution.target := rfl

theorem linkImport_view {imp : Import} (hid:imp.sourceFileId=id)
 (h:imp.resolvedSymbolId=none) : (linkImport snapshot imp).view =
  ⟨if imp.isReexport then .reExports else .imports,.file id,
   .file ((resolvedImportFileId snapshot imp).getD id),
   resolutionOf (resolvedImportFileId snapshot imp)⟩ := by
 unfold GraphEdge.view linkImport
 rw [importTarget_unbound h,hid]
 cases resolvedImportFileId snapshot imp <;> rfl

theorem resolvedImportFileId_unbound {imp imp' : Import} (h:imp.resolvedFileId=none)
 (h':imp'.resolvedFileId=none) (hs:imp.resolutionError=imp'.resolutionError) :
 resolvedImportFileId snapshot imp=resolvedImportFileId snapshot imp' := by
 unfold resolvedImportFileId
 rw [h,h',hs]

/-- The scope of a file, from the sites of its imports. -/
theorem scope_sites (h:old.Local id) : SourceScope.new snapshot old.imports =
 (old.imports.map Import.site).foldl (fun scope site=>
  match (site.2.2.2.bind fun e=>e.parsed.bind fun r=>r.resolvedAbsPath.bind
   snapshot.fileIdForAbsPath) <|> (site.2.2.2.bind fun e=>e.resolvedAbsPath.bind
   snapshot.fileIdForAbsPath) with
  | none => scope
  | some target => scope.addImport target site.2.1 site.2.2.1) ⟨[],[]⟩ := by
 rw [foldl_map]
 refine foldl_ext _ _ _ fun scope i hi=>?_
 simp only [resolvedImportFileId,(h.import_unbound i hi).2.1,Import.site]
 rfl

theorem links_of_sameNames (hs:SameNames old new) (ho:old.Local id) (hn:new.Local id)
 {e : GraphEdge} (he:e∈old.links snapshot id) : ∃e'∈new.links snapshot id,e'.view=e.view := by
 have hsc:SourceScope.new snapshot old.imports=SourceScope.new snapshot new.imports:=by
  rw [scope_sites ho,scope_sites hn,hs.imports]
 unfold ExtractedFacts.links linkFile at he ⊢
 simp only [mem_append,mem_map] at he ⊢
 rcases he with (⟨i,hi,rfl⟩|⟨c,hc,rfl⟩)|⟨r,hr,rfl⟩
 · obtain ⟨i',hi',heq⟩:=mem_map.mp (hs.imports ▸ mem_map_of_mem hi)
   simp only [Import.site,Prod.mk.injEq] at heq
   obtain ⟨ho1,ho2,ho3⟩:=ho.import_unbound i hi
   obtain ⟨hn1,hn2,hn3⟩:=hn.import_unbound i' hi'
   refine ⟨_,.inl (.inl ⟨i',hi',rfl⟩),?_⟩
   rw [linkImport_view hn1 hn3,linkImport_view ho1 ho3,
    resolvedImportFileId_unbound hn2 ho2 heq.2.2.2,heq.1]
 · obtain ⟨c',hc',heq⟩:=mem_map.mp ((hs.calls _).mp (mem_map_of_mem hc))
   simp only [CallEdge.site,Prod.mk.injEq] at heq
   obtain ⟨ho1,ho2⟩:=ho.call_unbound c hc
   obtain ⟨hn1,hn2⟩:=hn.call_unbound c' hc'
   refine ⟨_,.inl (.inr ⟨c',hc',rfl⟩),?_⟩
   simp only [linkCall,siteEdge_view,callResolution,ho1,ho2,hn1,hn2,heq,hsc]
 · obtain ⟨r',hr',heq⟩:=mem_map.mp ((hs.references _).mp (mem_map_of_mem hr))
   simp only [Reference.site,Prod.mk.injEq] at heq
   obtain ⟨ho1,ho2⟩:=ho.reference_unbound r hr
   obtain ⟨hn1,hn2⟩:=hn.reference_unbound r' hr'
   refine ⟨_,.inr ⟨r',hr',rfl⟩,?_⟩
   simp only [linkReference,siteEdge_view,referenceResolution,ho1,ho2,hn1,hn2,heq,hsc]

theorem linkSet_of_sameNames (hs:SameNames old new) (ho:old.Local id) (hn:new.Local id) :
 linkSet (old.links snapshot id)=linkSet (new.links snapshot id) := by
 ext view
 simp only [mem_linkSet]
 constructor
 · rintro ⟨e,he,rfl⟩
   exact links_of_sameNames hs ho hn he
 · rintro ⟨e,he,rfl⟩
   exact links_of_sameNames hs.symm hn ho he

end

/-- The database holds a file as its old text left it: the row with the fingerprints of
 a clean extraction, its symbols, and the edges that text links to in the workspace. -/
structure Db.HoldsExtraction (db : Db) (env : Env) (snapshot : WorkspaceSnapshot)
 (existing : File) (old : ExtractedFacts) : Prop where
 row : existing ∈ db.files.rows
 extracted : ∃ disk language ctx,ctx.fileId = fileKeyForFile existing ∧
  extractFileFacts env.blake3 env.parser disk language ctx = .ok old
 clean : old.hasErrors = false
 structureHash : existing.structureHash = some old.structureFingerprint
 publicApiHash : existing.publicApiHash = some old.publicApiFingerprint
 symbols : db.findSymbolsByFile (fileKeyForFile existing) = old.symbols
 edges : linkSet (db.findEdgesByFile (fileKeyForFile existing)) =
  linkSet (old.links snapshot (fileKeyForFile existing))

theorem Db.HoldsExtraction.local {db : Db} {env : Env} {snapshot : WorkspaceSnapshot}
 {existing : File} {old : ExtractedFacts} (h:db.HoldsExtraction env snapshot existing old) :
 old.Local (fileKeyForFile existing) := by
 obtain ⟨disk,language,ctx,hid,hx⟩:=h.extracted
 exact hid ▸ extractFileFacts_local hx

/-- When the edges of a file are reused and the old and the new text have the same names, they are
 the links of the new text. -/
theorem reusedEdges_links {env : Env} {roots : RunRoots} {snapshot : Option WorkspaceSnapshot}
 {planned : PlannedFile} {contentHash : String} {existing : File} {old : ExtractedFacts}
 {db : Db} {fault : Option (Nat × Stop)} {t : Store} {outcome : ProcessOutcome}
 (hdb : Arises db)
 (hkey : fileKeyForFile existing = planned.key)
 (hold : db.HoldsExtraction env (snapshot.getD (roots.snapshotOf env.disk db)) existing old)
 (hreuse : reusesEdges env roots planned contentHash (some existing) = true)
 (hrun : Yields (processAndWriteFile env roots snapshot planned contentHash (some existing))
  ⟨db,fault⟩ outcome t)
 (hnames : SameNames old (factsOf env roots planned.candidate)) :
 linkSet (t.db.findEdgesByFile planned.key) = linkSet
  ((factsOf env roots planned.candidate).links
   (snapshot.getD (roots.snapshotOf env.disk db)) planned.key) := by
 obtain ⟨rfl,hw⟩:=processAndWriteFile_yields _ _ _ _ _ hrun
 have hse:=fun e=>hw.findEdges_self (edgesOwned_of_arises hdb) (e := e)
 simp only [processOutcome_key,hreuse,edgesToWrite,if_true] at hse
 rw [linkSet_congr hse,linkSet_map_storedEdge,←hkey,hold.edges,hkey]
 exact linkSet_of_sameNames hnames (hkey ▸ hold.local) (factsOf_local env roots planned.candidate)

section

/-- Three texts with the symbols `f` and `g`. In the first two `f` calls `g`; in the third
 `g` also calls `f`. -/
def callingParser : Parser :=
 .ofTable
  [("v1",⟨false,[("f",0,10),("g",20,30)],[],[(some 0,"g")],[]⟩),
   ("v2",⟨false,[("f",0,10),("g",20,30)],[],[(some 0,"g")],[]⟩),
   ("v3",⟨false,[("f",0,10),("g",20,30)],[],[(some 0,"g"),(some 1,"f")],[]⟩)] []

def callingFile (text : String) (mtime : Int) : Env :=
 .plain callingParser (.ofFiles ⟨[⟨["w","a.ts"],10,mtime,text,.readable⟩],by simp⟩)

def callsIndexed : Db :=
 (Call.indexWorkspace (callingFile "v1" 1) wholeWorkspace).result .empty

theorem callsIndexed_arises : Arises callsIndexed :=
 .call (.indexWorkspace (callingFile "v1" 1) wholeWorkspace) none .empty

def callsRow : File := callsIndexed.files.rows.head (by decide +kernel)

def callsRoots : RunRoots := (requestPlan (callingFile "v1" 1) wholeWorkspace callsIndexed).roots

def callingCandidate (mtime : Int) : FileCandidate :=
 ⟨["w","a.ts"],normalizeRelPath ["a.ts"],1,.typeScript,10,mtime⟩

def callsFacts : ExtractedFacts := factsOf (callingFile "v1" 1) callsRoots (callingCandidate 1)

def rewriting (text : String) : IndexM ProcessOutcome :=
 processAndWriteFile (callingFile text 2) callsRoots none ⟨callingCandidate 2,.contentOnly⟩
  (Blake3.tagged.hex text) (some callsRow)

def rewritten (text : String) : Store := rewriting text ⟨callsIndexed,none⟩ |>.2

def callsSnapshot (text : String) : WorkspaceSnapshot :=
 callsRoots.snapshotOf (callingFile text 2).disk callsIndexed

/-- What both new texts find: the row, the facts and the edges of the first one. -/
theorem callsIndexed_state : ∀text∈["v2","v3"],
 (extractionContext callsRoots (callingCandidate 1) "v1").fileId=fileKeyForFile callsRow ∧
 callsFacts.hasErrors=false ∧
 callsRow.structureHash=some callsFacts.structureFingerprint ∧
 callsRow.publicApiHash=some callsFacts.publicApiFingerprint ∧
 callsIndexed.findSymbolsByFile (fileKeyForFile callsRow)=callsFacts.symbols ∧
 linkSet (callsIndexed.findEdgesByFile (fileKeyForFile callsRow)) =
  linkSet (callsFacts.links (callsSnapshot text) (fileKeyForFile callsRow)) ∧
 fileKeyForFile callsRow=PlannedFile.key ⟨callingCandidate 2,.contentOnly⟩ ∧
 reusesEdges (callingFile text 2) callsRoots ⟨callingCandidate 2,.contentOnly⟩ (Blake3.tagged.hex text)
  (some callsRow)=true ∧
 succeeds (rewriting text) ⟨callsIndexed,none⟩=true := by
 decide +kernel

theorem callsIndexed_holdsExtraction {text : String} (h:text∈["v2","v3"]) :
 callsIndexed.HoldsExtraction (callingFile text 2) (callsSnapshot text) callsRow callsFacts := by
 obtain ⟨hid,hclean,hstructure,hpublic,hsymbols,hedges,-⟩:=callsIndexed_state text h
 exact ⟨head_mem _,⟨(callingFile "v1" 1).disk,.typeScript,
  extractionContext callsRoots (callingCandidate 1) "v1",hid,rfl⟩,hclean,hstructure,hpublic,
  hsymbols,hedges⟩

/-- In the second text the same function calls the same name, so the reused call is the one it
links. -/
theorem reusedEdges_same_calls :
 linkSet ((rewritten "v2").db.findEdgesByFile (fileKeyForCandidate (callingCandidate 2))) =
  linkSet ((factsOf (callingFile "v2" 2) callsRoots (callingCandidate 2)).links
   (callsSnapshot "v2") (fileKeyForCandidate (callingCandidate 2))) ∧
 (rewritten "v2").db.edges ≠ [] := by
 have hsites:callsFacts.imports.map Import.site =
  (factsOf (callingFile "v2" 2) callsRoots (callingCandidate 2)).imports.map Import.site ∧
  callsFacts.callEdges.map CallEdge.site =
   (factsOf (callingFile "v2" 2) callsRoots (callingCandidate 2)).callEdges.map CallEdge.site ∧
  callsFacts.references.map Reference.site =
   (factsOf (callingFile "v2" 2) callsRoots (callingCandidate 2)).references.map Reference.site ∧
  (rewritten "v2").db.edges≠[] := by decide +kernel
 obtain ⟨himports,hcalls,hreferences,hne⟩:=hsites
 have hold:=@callsIndexed_holdsExtraction "v2" (by simp)
 obtain ⟨-,-,-,-,-,-,hkey,hreuse,hrun⟩:=callsIndexed_state "v2" (by simp)
 obtain ⟨outcome,hr⟩:=yields_of_succeeds hrun
 change Yields (processAndWriteFile (callingFile "v2" 2) callsRoots none
  ⟨callingCandidate 2,.contentOnly⟩ (Blake3.tagged.hex "v2") (some callsRow))
  ⟨callsIndexed,none⟩ outcome (rewritten "v2") at hr
 have hlinks:=reusedEdges_links callsIndexed_arises hkey hold hreuse hr
  (.of_eq himports hcalls hreferences)
 exact ⟨hlinks,hne⟩

/-- The third text calls one function more: its fingerprints are those of the first, so the
 stored edges are reused and the new call is not linked. -/
theorem reusedEdges_miss_call :
 Arises callsIndexed ∧
 callsIndexed.HoldsExtraction (callingFile "v3" 2) (callsSnapshot "v3") callsRow callsFacts ∧
 reusesEdges (callingFile "v3" 2) callsRoots ⟨callingCandidate 2,.contentOnly⟩
  (Blake3.tagged.hex "v3") (some callsRow) = true ∧
 succeeds (rewriting "v3") ⟨callsIndexed,none⟩ = true ∧
 linkSet ((rewritten "v3").db.findEdgesByFile (fileKeyForCandidate (callingCandidate 2))) ≠
  linkSet ((factsOf (callingFile "v3" 2) callsRoots (callingCandidate 2)).links
   (callsSnapshot "v3") (fileKeyForCandidate (callingCandidate 2))) := by
 obtain ⟨-,-,-,-,-,-,-,hreuse,hrun⟩:=callsIndexed_state "v3" (by simp)
 have hold:=@callsIndexed_holdsExtraction "v3" (by simp)
 exact ⟨callsIndexed_arises,hold,hreuse,hrun,by decide +kernel⟩

end

end DhKit.Indexer
