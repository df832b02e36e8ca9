import DhKit.IndexEdgeReuse

/-!
# Relinking the edges of a file

`relinkExistingEdges` reads names and imports back from stored edges.
-/
namespace DhKit.Indexer
open KeyedTables List

def onlyCandidate (tiers : List (List SymbolId)) : Option SymbolId :=
 uniqueSymbolId ((tiers.find? fun tier => decide (tier≠[])).getD [])

/-- The symbol a name denotes in a file: one of the file itself, else one its imports
 lead to, else one of the workspace. -/
def denotes (snapshot : WorkspaceSnapshot) (scope : SourceScope) (id : FileId) (name : String)
 (qualifiedName : Option String) : Option SymbolId :=
 if name = "" then none
 else onlyCandidate [snapshot.symbolsInFile id name,
  importedSymbolCandidates snapshot scope name qualifiedName,
  globalCandidates snapshot name qualifiedName]

section
variable {snapshot : WorkspaceSnapshot} {scope scope' : SourceScope} {id : FileId} {name : String}
 {qualifiedName : Option String} {missing : String}
 {candidates : List SymbolId} {matched ambiguous : String} {detail : Nat → String}
  {otherwise : SymbolResolution}

theorem onlyCandidate_cons (tier : List SymbolId) (tiers : List (List SymbolId)) :
 onlyCandidate (tier::tiers) =
  if tier=[] then onlyCandidate tiers else uniqueSymbolId tier := by
 unfold onlyCandidate
 split_ifs with h
 · simp [h]
 · simp [h]

theorem resolveAmong_nil (matched ambiguous : String) (detail : Nat → String)
 (otherwise : SymbolResolution) :
 resolveAmong [] matched ambiguous detail otherwise=otherwise := rfl

theorem resolveAmong_target (candidates : List SymbolId) (matched ambiguous : String)
 (detail : Nat → String) (otherwise : SymbolResolution) :
 (resolveAmong candidates matched ambiguous detail otherwise).target =
  if candidates=[] then otherwise.target else uniqueSymbolId candidates := by
 unfold resolveAmong
 match candidates with
 | [] => rfl
 | [_] => rfl
 | _::_::_ => simp [uniqueSymbolId,SymbolResolution.unresolved]

theorem filter_name (hn:name ≠ "") :
 (some name).filter (fun n=>decide (n ≠ ""))=some name := by simp [hn]

theorem resolveSourceSymbol_target :
 (resolveSourceSymbol snapshot scope id (some name) qualifiedName missing).target =
  denotes snapshot scope id name qualifiedName := by
 unfold resolveSourceSymbol denotes
 by_cases hn : name = ""
 · simp [hn,Option.filter,SymbolResolution.unresolved]
 · rw [filter_name hn,if_neg hn]
   simp only [resolveAmong_target,onlyCandidate_cons]
   rfl

theorem resolveAmong_siteLink_iff {candidates' : List SymbolId}
 (ho:otherwise.linkReason≠ambiguous)
 (hnone:(resolveAmong candidates matched ambiguous detail otherwise).target=none) :
 (resolveAmong candidates' matched ambiguous detail otherwise).siteLink =
  (resolveAmong candidates matched ambiguous detail otherwise).siteLink ↔
  candidates'=candidates := by
 refine ⟨fun h=>?_,fun h=>by rw [h]⟩
 have hta:=(congrArg SiteLink.symbolId h).trans hnone
 have hr:=congrArg SiteLink.linkReason h
 have hca:=congrArg SiteLink.candidateSymbolIds h
 rcases candidates with _|⟨a,_|⟨b,l⟩⟩
 · rcases candidates' with _|⟨a,_|⟨b,l⟩⟩
   · rfl
   · cases hta
   · exact absurd hr.symm ho
 · cases hnone
 rcases candidates' with _|⟨a,_|⟨b,l⟩⟩
 · exact absurd hr ho
 · cases hta
 · exact hca

theorem resolveAmong_linkReason_ne {reason : String} (hm:matched≠reason)
 (ha:ambiguous≠reason) (ho:otherwise.linkReason≠reason) :
 (resolveAmong candidates matched ambiguous detail otherwise).linkReason≠reason := by
 match candidates with
 | [] => exact ho
 | [_] => exact hm
 | _::_::_ => exact ha

theorem resolveSourceSymbol_congr (h:name ≠ "" → snapshot.symbolsInFile id name=[] →
  importedSymbolCandidates snapshot scope' name qualifiedName =
   importedSymbolCandidates snapshot scope name qualifiedName) :
 resolveSourceSymbol snapshot scope' id (some name) qualifiedName missing =
  resolveSourceSymbol snapshot scope id (some name) qualifiedName missing := by
 unfold resolveSourceSymbol
 by_cases hn : name = ""
 · simp [hn,Option.filter]
 simp only [filter_name hn]
 match hl : snapshot.symbolsInFile id name with
 | [] => rw [h hn hl]
 | [_] => rfl
 | _::_::_ => simp [resolveAmong]

theorem candidates_eq_of_siteLink (hmi:missing ≠ "ambiguous_imported_symbol")
 (hnone:denotes snapshot scope id name qualifiedName=none)
 (h:(resolveSourceSymbol snapshot scope' id (some name) qualifiedName missing).siteLink =
  (resolveSourceSymbol snapshot scope id (some name) qualifiedName missing).siteLink)
 (hn:name ≠ "") (hl:snapshot.symbolsInFile id name=[]) :
 importedSymbolCandidates snapshot scope' name qualifiedName =
  importedSymbolCandidates snapshot scope name qualifiedName := by
 have hnone:(resolveSourceSymbol snapshot scope id (some name) qualifiedName missing).target =
  none := resolveSourceSymbol_target.trans hnone
 unfold resolveSourceSymbol at hnone h
 simp only [filter_name hn,hl,resolveAmong_nil] at hnone h
 exact (resolveAmong_siteLink_iff
  (resolveAmong_linkReason_ne (by decide) (by decide) hmi) hnone).mp h

end

def SourceScope.binding (target : Import → Option FileId) (imports : List Import) : SourceScope :=
 imports.foldl (fun scope i => match target i with
  | none => scope
  | some id => scope.addImport id i.importedName i.localName) ⟨[],[]⟩

/-- What one import adds to a scope. -/
def bound (target : Import → Option FileId) (i : Import) : SourceScope := .binding target [i]

theorem foldl_binding (target : Import → Option FileId) (imports : List Import)
 (scope : SourceScope) :
 imports.foldl (fun scope i=>match target i with
  | none => scope
  | some id => scope.addImport id i.importedName i.localName) scope =
  ⟨scope.importBindings++imports.flatMap fun i=>(bound target i).importBindings,
   scope.namespaceImports++imports.flatMap fun i=>(bound target i).namespaceImports⟩ := by
 induction imports generalizing scope with
 | nil => simp
 | cons i imports ih =>
  rw [foldl_cons,ih]
  simp only [bound,SourceScope.binding,foldl_cons,foldl_nil,flatMap_cons]
  cases target i with
  | none => simp
  | some id =>
   simp only [SourceScope.addImport]
   split
   · simp
   · split_ifs <;> simp

theorem binding_eq (target : Import → Option FileId) (imports : List Import) :
 SourceScope.binding target imports =
  ⟨imports.flatMap fun i=>(bound target i).importBindings,
   imports.flatMap fun i=>(bound target i).namespaceImports⟩ :=
 foldl_binding target imports ⟨[],[]⟩

/-- The candidates of a name are those of its imports, one by one. -/
theorem importedSymbolCandidates_binding (snapshot : WorkspaceSnapshot)
 (target : Import → Option FileId) (imports : List Import) (name : String)
 (qualifiedName : Option String) :
 importedSymbolCandidates snapshot (.binding target imports) name qualifiedName=uniqueSymbolIds
  (imports.flatMap (fun i=>((bound target i).directImports name).flatMap
    (bindingCandidates snapshot)) ++
   imports.flatMap fun i=>namespaceCandidates snapshot (bound target i) qualifiedName) := by
 unfold importedSymbolCandidates namespaceCandidates SourceScope.directImports
  SourceScope.namespaceTargets
 rw [binding_eq]
 congr 2
 · rw [filter_flatMap,flatMap_assoc]
 · split
   · simp
   · rw [filter_flatMap,map_flatMap,flatMap_assoc]

theorem uniqueSymbolIds_eq_nil {ids : List SymbolId} : uniqueSymbolIds ids=[] ↔ ids=[] := by
 refine ⟨fun h=>eq_nil_iff_forall_not_mem.mpr fun id hid=>?_,fun h=>by rw [h]; rfl⟩
 have hm:id∈uniqueSymbolIds ids:=mem_foldl_pushUnique.mpr (.inr hid)
 rw [h] at hm
 exact not_mem_nil hm

/-- What a name finds through an import that is taken to lead to the file itself. -/
def foundInFile (snapshot : WorkspaceSnapshot) (id : FileId) (i : Import) (name : String)
 (qualifiedName : Option String) : List SymbolId :=
 importedSymbolCandidates snapshot (bound (fun _ => some id) i) name qualifiedName

/-- The scope that is read back from the edges of a file: an unresolved import leads to
 the file itself. -/
def relinkScope (snapshot : WorkspaceSnapshot) (id : FileId) (imports : List Import) :
 SourceScope :=
 .binding (fun i => some ((resolvedImportFileId snapshot i).getD id)) imports

theorem importedSymbolCandidates_relinkScope {snapshot snapshot' : WorkspaceSnapshot} {id : FileId}
 {imports : List Import} {name : String} {qualifiedName : Option String}
 (h:∀i∈imports,resolvedImportFileId snapshot i=none →
  foundInFile snapshot' id i name qualifiedName=[]) :
 importedSymbolCandidates snapshot' (relinkScope snapshot id imports) name qualifiedName =
  importedSymbolCandidates snapshot' (.new snapshot imports) name qualifiedName := by
 change _=importedSymbolCandidates snapshot'
  (.binding (resolvedImportFileId snapshot) imports) name qualifiedName
 unfold relinkScope
 rw [importedSymbolCandidates_binding,importedSymbolCandidates_binding]
 have hsite:∀i∈imports,((bound (fun i=>some ((resolvedImportFileId snapshot i).getD id)) i) =
   bound (resolvedImportFileId snapshot) i) ∨
  (bound (fun i=>some ((resolvedImportFileId snapshot i).getD id)) i=bound (fun _=>some id) i ∧
   bound (resolvedImportFileId snapshot) i=⟨[],[]⟩ ∧
   foundInFile snapshot' id i name qualifiedName=[]) := by
  intro i hi
  cases hr:resolvedImportFileId snapshot i with
  | some target => exact .inl (by simp [bound,SourceScope.binding,hr])
  | none => exact .inr ⟨by simp [bound,SourceScope.binding,hr],
     by simp [bound,SourceScope.binding,hr],h i hi hr⟩
 congr 2
 · refine flatMap_congr fun i hi=>?_
   rcases hsite i hi with he|⟨hid,hno,hf⟩
   · rw [he]
   rw [foundInFile,importedSymbolCandidates,uniqueSymbolIds_eq_nil,append_eq_nil_iff] at hf
   rw [hid,hno,hf.1]
   rfl
 · refine flatMap_congr fun i hi=>?_
   rcases hsite i hi with he|⟨hid,hno,hf⟩
   · rw [he]
   rw [foundInFile,importedSymbolCandidates,uniqueSymbolIds_eq_nil,append_eq_nil_iff] at hf
   rw [hid,hno,hf.2]
   unfold namespaceCandidates
   split <;> rfl

structure SameFiles (snapshot snapshot' : WorkspaceSnapshot) : Prop where
 paths : snapshot'.normalizePath = snapshot.normalizePath
 files : snapshot'.filesByAbsPath = snapshot.filesByAbsPath

section
variable {snapshot snapshot' : WorkspaceSnapshot} {id : FileId} {facts : ExtractedFacts}
variable {imp : Import}

section
variable (h : SameFiles snapshot snapshot')
include h

theorem SameFiles.fileId :
 snapshot'.fileIdForAbsPath=snapshot.fileIdForAbsPath := by
 unfold WorkspaceSnapshot.fileIdForAbsPath
 rw [h.paths,h.files]

theorem SameFiles.resolvedImport :
 resolvedImportFileId snapshot'=resolvedImportFileId snapshot := by
 unfold resolvedImportFileId
 rw [h.fileId]

theorem SameFiles.scope (imports : List Import) :
 SourceScope.new snapshot' imports=SourceScope.new snapshot imports := by
 unfold SourceScope.new
 rw [h.resolvedImport]

end

theorem linkImport_toNode (hid:imp.sourceFileId=id)
 (h:imp.resolvedSymbolId=none) : (linkImport snapshot imp).toNode =
  .file ((resolvedImportFileId snapshot imp).getD id) :=
 congrArg EdgeView.toNode (linkImport_view hid h)

theorem linkImport_isImport (imp : Import) : (linkImport snapshot imp).isImport=true := by
 cases h : imp.isReexport <;> simp [linkImport,GraphEdge.isImport]

theorem fromEdges_links (hl:facts.Local id) :
 SourceScope.fromEdges snapshot' (facts.links snapshot id) =
  relinkScope snapshot id facts.imports := by
 unfold SourceScope.fromEdges ExtractedFacts.links linkFile relinkScope SourceScope.binding
 rw [foldl_append,foldl_append,foldl_map,foldl_map,foldl_map]
 -- the edges of calls and references add nothing
 have hsk:∀ {α : Type} (l : List α) (scope : SourceScope),l.foldl (fun scope _=>scope) scope
  = scope := fun l scope=>by induction l <;> simp_all
 refine (hsk facts.references _).trans ((hsk facts.callEdges _).trans ?_)
 refine foldl_ext _ _ _ fun scope i hi=>?_
 obtain ⟨hid,-,hsy⟩:=hl.import_unbound i hi
 simp only [linkImport_isImport,targetFileId,linkImport_toNode hid hsy]
 rfl

theorem relinkEdge_linkImport (h:SameFiles snapshot snapshot') (scope : SourceScope)
 (hsy:imp.resolvedSymbolId=none) :
 relinkEdge snapshot' scope id (linkImport snapshot imp)=linkImport snapshot imp := by
 cases hr : resolvedImportFileId snapshot imp with
 | some target =>
  have hres:(linkImport snapshot imp).resolution = .resolved:=by
   simp [linkImport,importTarget_unbound hsy,hr,resolutionOf]
  unfold relinkEdge
  rw [hres]
  cases (linkImport snapshot imp).kind <;> rfl
 | none =>
  have hpa:(imp.resolutionError.bind fun e=>e.parsed.bind fun r=>r.resolvedAbsPath).bind
   snapshot'.fileIdForAbsPath=none := by
   unfold resolvedImportFileId at hr
   rw [h.fileId]
   simp only [Option.orElse_eq_orElse,Option.orElse_eq_or,Option.or_eq_none_iff] at hr
   simpa [Option.bind_assoc] using hr.2.1
  have hp:relinkImportEdge snapshot' (linkImport snapshot imp) =
   linkImport snapshot imp := by
   unfold relinkImportEdge
   simp [linkImport,importPayload,hpa]
  unfold relinkEdge
  split
  · exact hp
  · exact hp
  · next hk _ => cases hre : imp.isReexport <;> simp [linkImport,hre] at hk
  · next hk _ => cases hre : imp.isReexport <;> simp [linkImport,hre] at hk
  · rfl

def CallEdge.edge (call : CallEdge) (resolution : SymbolResolution) : GraphEdge :=
 siteEdge .calls "call" call.sourceFileId call.callerSymbolId call.calleeDisplayName call.span
  resolution
  { Payload.blank with
    calleeDisplayName := some call.calleeDisplayName
    calleeQualifiedName := call.calleeQualifiedName
    link := some resolution.siteLink }

def Reference.edge (reference : Reference) (resolution : SymbolResolution) : GraphEdge :=
 siteEdge .references "reference" reference.sourceFileId reference.sourceSymbolId
  reference.targetName reference.span resolution
  { Payload.blank with
    targetName := some reference.targetName
    link := some resolution.siteLink }

theorem relinkEdge_call (scope : SourceScope) (call : CallEdge) (resolution : SymbolResolution) :
 relinkEdge snapshot scope id (call.edge resolution) =
  call.edge (if resolution.target.isSome then resolution
   else resolveSourceSymbol snapshot scope id (some call.calleeDisplayName)
    call.calleeQualifiedName "callee_symbol_not_found") := by
 cases hr : resolution.target with
 | some target => simp [CallEdge.edge,relinkEdge,siteEdge,resolutionOf,hr]
 | none =>
  generalize hre : resolveSourceSymbol snapshot scope id (some call.calleeDisplayName)
   call.calleeQualifiedName "callee_symbol_not_found" = again
  cases ha : again.target <;>
   simp [CallEdge.edge,relinkEdge,siteEdge,resolutionOf,confidenceOf,relinkCallEdge,relinkSite,hr,
    hre,ha]

theorem relinkEdge_reference (scope : SourceScope) (reference : Reference)
 (resolution : SymbolResolution) :
 relinkEdge snapshot scope id (reference.edge resolution) =
  reference.edge (if resolution.target.isSome then resolution
   else resolveSourceSymbol snapshot scope id (some reference.targetName) none
    "target_symbol_not_found") := by
 cases hr : resolution.target with
 | some target => simp [Reference.edge,relinkEdge,siteEdge,resolutionOf,hr]
 | none =>
  generalize hre : resolveSourceSymbol snapshot scope id (some reference.targetName) none
   "target_symbol_not_found" = again
  cases ha : again.target <;>
   simp [Reference.edge,relinkEdge,siteEdge,resolutionOf,confidenceOf,relinkReferenceEdge,
    relinkSite,hr,hre,ha]

end

section
variable (snapshot snapshot' : WorkspaceSnapshot) (id : FileId) (facts : ExtractedFacts)
 {call : CallEdge} {reference : Reference}

section
variable (name : String) (qualifiedName : Option String)

def relinkResolution (missing : String) :
 SymbolResolution :=
 if (denotes snapshot (.new snapshot facts.imports) id name qualifiedName).isSome then
  resolveSourceSymbol snapshot (.new snapshot facts.imports) id (some name) qualifiedName missing
 else
  resolveSourceSymbol snapshot' (relinkScope snapshot id facts.imports) id (some name)
   qualifiedName missing

/-- The symbol a name denotes, or else the one it denotes in the changed workspace when
 the unresolved imports are taken to lead to the file itself. -/
def denotesRelinked : Option SymbolId :=
 denotes snapshot (.new snapshot facts.imports) id name qualifiedName <|>
  denotes snapshot' (relinkScope snapshot id facts.imports) id name qualifiedName

/-- A name that denotes nothing has the same candidates when the unresolved imports are
 taken to lead to the file itself. -/
def NameRelinks : Prop :=
 denotes snapshot (.new snapshot facts.imports) id name qualifiedName = none → name ≠ "" →
  snapshot.symbolsInFile id name = [] →
  importedSymbolCandidates snapshot (relinkScope snapshot id facts.imports) name qualifiedName =
   importedSymbolCandidates snapshot (.new snapshot facts.imports) name qualifiedName

/-- A name that denoted a symbol still denotes it, and one that denoted nothing is not found in the
 file itself through an unresolved import. -/
structure NameKept : Prop where
 stays : ∀ target,denotes snapshot (.new snapshot facts.imports) id name qualifiedName =
   some target →
  denotes snapshot' (.new snapshot facts.imports) id name qualifiedName = some target
 unfound : denotes snapshot (.new snapshot facts.imports) id name qualifiedName = none →
  ∀ i ∈ facts.imports,resolvedImportFileId snapshot i = none →
   foundInFile snapshot id i name qualifiedName = [] ∧
   foundInFile snapshot' id i name qualifiedName = []

end

structure NamesRelink : Prop where
 calls : ∀ c ∈ facts.callEdges,
  NameRelinks snapshot id facts c.calleeDisplayName c.calleeQualifiedName
 references : ∀ r ∈ facts.references,NameRelinks snapshot id facts r.targetName none

structure NamesKept : Prop where
 calls : ∀ c ∈ facts.callEdges,
  NameKept snapshot snapshot' id facts c.calleeDisplayName c.calleeQualifiedName
 references : ∀ r ∈ facts.references,NameKept snapshot snapshot' id facts r.targetName none

variable {snapshot snapshot' id facts}

theorem relinkResolution_target (name : String) (qualifiedName : Option String)
 (missing : String) :
 (relinkResolution snapshot snapshot' id facts name qualifiedName missing).target =
  denotesRelinked snapshot snapshot' id facts name qualifiedName := by
 unfold relinkResolution denotesRelinked
 cases h : denotes snapshot (.new snapshot facts.imports) id name qualifiedName with
 | none => simp [resolveSourceSymbol_target]
 | some target => simp [resolveSourceSymbol_target,h]

theorem links_eq (hl:facts.Local id) (scope : SourceScope)
 (hsc:SourceScope.new snapshot facts.imports=scope) : facts.links snapshot id =
 facts.imports.map (linkImport snapshot) ++
  facts.callEdges.map (fun c=>c.edge (resolveSourceSymbol snapshot scope id
   (some c.calleeDisplayName) c.calleeQualifiedName "callee_symbol_not_found")) ++
  facts.references.map (fun r=>r.edge (resolveSourceSymbol snapshot scope id
   (some r.targetName) none "target_symbol_not_found")) := by
 subst hsc
 unfold ExtractedFacts.links linkFile
 simp only
 congr 1
 · congr 1
   refine map_congr_left fun c hc=>?_
   simp [linkCall,callResolution,(hl.call_unbound c hc).2,CallEdge.edge]
 · refine map_congr_left fun r hr=>?_
   simp [linkReference,referenceResolution,(hl.reference_unbound r hr).2,Reference.edge]

theorem relinkExistingEdges_links (hl:facts.Local id) (h:SameFiles snapshot snapshot') :
 relinkExistingEdges snapshot' id (facts.links snapshot id) =
  facts.imports.map (linkImport snapshot) ++
  facts.callEdges.map (fun c=>c.edge (relinkResolution snapshot snapshot' id facts
   c.calleeDisplayName c.calleeQualifiedName "callee_symbol_not_found")) ++
  facts.references.map (fun r=>r.edge (relinkResolution snapshot snapshot' id facts
   r.targetName none "target_symbol_not_found")) := by
 unfold relinkExistingEdges
 rw [fromEdges_links hl,links_eq hl _ rfl]
 simp only [map_append,map_map,Function.comp_def,relinkEdge_call,relinkEdge_reference,
  resolveSourceSymbol_target]
 congr 2
 exact map_congr_left fun i hi=>relinkEdge_linkImport h _ (hl.import_unbound i hi).2.2

theorem CallEdge.edge_view (hid:call.sourceFileId=id) (resolution : SymbolResolution) :
 (call.edge resolution).view=symbolView .calls id call.callerSymbolId resolution.target := by
 rw [CallEdge.edge,hid,siteEdge_view]

theorem Reference.edge_view (hid:reference.sourceFileId=id)
 (resolution : SymbolResolution) : (reference.edge resolution).view =
  symbolView .references id reference.sourceSymbolId resolution.target := by
 rw [Reference.edge,hid,siteEdge_view]

theorem edge_relinks_iff {edge : SymbolResolution → GraphEdge} {name : String}
 {qualifiedName : Option String} {missing : String}
 (hl:∀r,(edge r).payload.bind Payload.link=some r.siteLink)
 (hmi:missing ≠ "ambiguous_imported_symbol") :
 edge (relinkResolution snapshot snapshot id facts name qualifiedName missing) =
  edge (resolveSourceSymbol snapshot (.new snapshot facts.imports) id (some name)
   qualifiedName missing) ↔
  NameRelinks snapshot id facts name qualifiedName := by
 unfold relinkResolution NameRelinks
 cases hd : denotes snapshot (.new snapshot facts.imports) id name qualifiedName with
 | some target => simp
 | none =>
  simp only [Option.isSome_none,Bool.false_eq_true,if_false,forall_const]
  refine ⟨fun he=>candidates_eq_of_siteLink hmi hd (Option.some.inj ?_),
   fun hc=>congrArg edge (resolveSourceSymbol_congr hc)⟩
  rw [←hl,←hl,he]

theorem relink_back_iff (hl:facts.Local id) :
 relinkExistingEdges snapshot id (facts.links snapshot id)=facts.links snapshot id ↔
  NamesRelink snapshot id facts := by
 rw [relinkExistingEdges_links hl ⟨rfl,rfl⟩,links_eq hl _ rfl]
 constructor
 · intro h
   obtain ⟨h,hre⟩:=append_inj' h (by simp)
   obtain ⟨-,hca⟩:=append_inj' h (by simp)
   exact ⟨fun c hc=>(edge_relinks_iff (fun _=>rfl) (by decide)).mp
    (map_inj_left.mp hca c hc),fun r hr=>
    (edge_relinks_iff (fun _=>rfl) (by decide)).mp (map_inj_left.mp hre r hr)⟩
 · intro h
   congr 1
   · congr 1
     exact map_congr_left fun c hc=>
      (edge_relinks_iff (fun _=>rfl) (by decide)).mpr (h.calls c hc)
   · exact map_congr_left fun r hr=>
      (edge_relinks_iff (fun _=>rfl) (by decide)).mpr (h.references r hr)

section
variable {name : String} {qualifiedName : Option String}
 (h : NameKept snapshot snapshot' id facts name qualifiedName)
include h

theorem NameKept.relinks : NameRelinks snapshot id facts name qualifiedName :=
 fun hd _ _=>importedSymbolCandidates_relinkScope fun i hi hr=>(h.unfound hd i hi hr).1

theorem NameKept.denotesRelinked_eq :
 denotesRelinked snapshot snapshot' id facts name qualifiedName =
  denotes snapshot' (.new snapshot facts.imports) id name qualifiedName := by
 unfold denotesRelinked
 cases hd:denotes snapshot (.new snapshot facts.imports) id name qualifiedName with
 | some target => rw [h.stays target hd]; rfl
 | none =>
  have hca:importedSymbolCandidates snapshot' (relinkScope snapshot id facts.imports) name
   qualifiedName=_ :=
   importedSymbolCandidates_relinkScope fun i hi hr=>(h.unfound hd i hi hr).2
  unfold denotes
  rw [hca]
  rfl

end

theorem relink_afresh (hl:facts.Local id) (h:SameFiles snapshot snapshot')
 (hk:NamesKept snapshot snapshot' id facts) :
 linkSet (relinkExistingEdges snapshot' id (facts.links snapshot id)) =
  linkSet (facts.links snapshot' id) := by
 unfold linkSet
 rw [relinkExistingEdges_links hl h,links_eq hl _ (h.scope facts.imports)]
 simp only [map_append,map_map]
 congr 2
 · congr 1
   · refine map_congr_left fun i hi=>?_
     obtain ⟨hid,-,hsy⟩:=hl.import_unbound i hi
     simp only [Function.comp_apply,linkImport_view hid hsy,h.resolvedImport]
   · refine map_congr_left fun c hc=>?_
     simp only [Function.comp_apply,CallEdge.edge_view (hl.call_unbound c hc).1,
      relinkResolution_target,resolveSourceSymbol_target,(hk.calls c hc).denotesRelinked_eq]
 · refine map_congr_left fun r hr=>?_
   simp only [Function.comp_apply,Reference.edge_view (hl.reference_unbound r hr).1,
    relinkResolution_target,resolveSourceSymbol_target,(hk.references r hr).denotesRelinked_eq]

/-- Relinking the links of a file gives them back in the same workspace exactly when its names
 relink. Where its names are kept, it also gives the links of a fresh pass in a changed one. -/
theorem relinking_is_linking (hlocal : facts.Local id) (h : SameFiles snapshot snapshot') :
 (relinkExistingEdges snapshot id (facts.links snapshot id) = facts.links snapshot id ↔
  NamesRelink snapshot id facts) ∧
 (NamesKept snapshot snapshot' id facts →
  relinkExistingEdges snapshot id (facts.links snapshot id) = facts.links snapshot id ∧
  linkSet (relinkExistingEdges snapshot' id (facts.links snapshot id)) =
   linkSet (facts.links snapshot' id)) := by
 refine ⟨relink_back_iff hlocal,fun hk=>⟨(relink_back_iff hlocal).mpr ?_,
  relink_afresh hlocal h hk⟩⟩
 exact ⟨fun c hc=>(hk.calls c hc).relinks,fun r hr=>(hk.references r hr).relinks⟩

end

section

def importerId : FileId := ⟨1,normalizeRelPath ["a.ts"]⟩

def exporterId : FileId := ⟨1,normalizeRelPath ["b.ts"]⟩

def exportedFunction (id : FileId) (name : String) : Symbol :=
 ⟨id,.function,name,name,none,true,false,false,Span.ofBytes 0 10⟩

def pairFiles (symbols : List Symbol) : WorkspaceSnapshot where
 normalizePath := id
 filesByAbsPath := HashMap.collect [(["w","a.ts"],importerId),(["w","b.ts"],exporterId)]
 symbols := symbols

def callingImport (imported : String) (path : Option Path) : ExtractedFacts :=
 { ExtractedFacts.skipped with
   imports := [⟨importerId,"b",some imported,some "f",none,.esmNamed,false,false,none,
    none,Span.ofBytes 0 0,some ⟨some ⟨.resolved,.relativePathResolved,path⟩,none⟩⟩]
   callEdges := [⟨importerId,none,none,none,"f",Span.ofBytes 0 0⟩] }

theorem callingImport_local (imported : String) (path : Option Path) :
 (callingImport imported path).Local importerId := by
 constructor <;> simp [callingImport,ExtractedFacts.skipped]

def packageImport : ExtractedFacts := callingImport "g" none

def exporterImport : ExtractedFacts := callingImport "g" (some ["w","b.ts"])

def exporting (id : FileId) : WorkspaceSnapshot := pairFiles [exportedFunction id "g"]

/-- A call that becomes resolvable when `b.ts` exports its name is relinked as it is
 linked afresh. -/
theorem relinking_finds_new_export :
 relinkExistingEdges (exporting exporterId) importerId
  (exporterImport.links (pairFiles []) importerId) ≠
  exporterImport.links (pairFiles []) importerId ∧
 linkSet (relinkExistingEdges (exporting exporterId) importerId
  (exporterImport.links (pairFiles []) importerId)) =
  linkSet (exporterImport.links (exporting exporterId) importerId) := by
 have hf:SameFiles (pairFiles []) (exporting exporterId):=⟨rfl,rfl⟩
 have hresolved:∀ i ∈ exporterImport.imports,resolvedImportFileId (pairFiles []) i ≠ none:=by
  decide +kernel
 have hunknown:∀ c ∈ exporterImport.callEdges,denotes (pairFiles [])
  (.new (pairFiles []) exporterImport.imports) importerId c.calleeDisplayName
  c.calleeQualifiedName=none:=by decide +kernel
 have hreferences:exporterImport.references=[]:=rfl
 have hk:NamesKept (pairFiles []) (exporting exporterId) importerId exporterImport:=by
  refine ⟨fun c hc=>⟨fun target hd=>?_,fun _ i hi hr=>absurd hr (hresolved i hi)⟩,fun r hr=>?_⟩
  · exact absurd ((hunknown c hc).symm.trans hd) (Option.some_ne_none target).symm
  · exact absurd (hreferences ▸ hr) not_mem_nil
 have hlocal:exporterImport.Local importerId:=callingImport_local _ _
 have hrelinked:=(relinking_is_linking hlocal hf).2 hk
 exact ⟨by decide +kernel,hrelinked.2⟩

/-- An import from a package is bound to the importing file, whose own `g` the call is
 then taken for; and a call keeps the symbol that `b.ts` no longer has. -/
theorem relinking_departs :
 relinkExistingEdges (exporting importerId) importerId
  (packageImport.links (exporting importerId) importerId) ≠
  packageImport.links (exporting importerId) importerId ∧
 linkSet (relinkExistingEdges (pairFiles []) importerId
  (exporterImport.links (exporting exporterId) importerId)) ≠
  linkSet (exporterImport.links (pairFiles []) importerId) := by
 constructor
 · decide +kernel
 · decide +kernel

end

end DhKit.Indexer
