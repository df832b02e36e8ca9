import DhKit.IndexRuns

/-!
# What one step of a run commits

One inversion lemma for each writer of a run, and a run as the steps it committed.
-/
namespace DhKit.Indexer
open KeyedTables CommitRules WorklistSearch List

theorem mem_pushUnique {α : Type} [DecidableEq α] {l : List α} {a b : α} :
 b∈pushUnique l a ↔ b∈l ∨ b=a := by
 unfold pushUnique
 split_ifs with h
 · exact ⟨.inl,fun hb=>hb.elim id fun he=>he ▸ h⟩
 · simp

theorem mem_foldl_pushUnique {α : Type} [DecidableEq α] {l acc : List α} {b : α} :
 b∈l.foldl pushUnique acc ↔ b∈acc ∨ b∈l := by
 induction l generalizing acc with
 | nil => simp
 | cons a l ih =>
  rw [foldl_cons,ih,mem_pushUnique,mem_cons]
  tauto

variable {key : FileKey} {keys : List FileKey} {files : List File} {file : File} {u : Unit}

@[simp] theorem mem_collectKeys :
 key∈collectKeys keys ↔ key∈keys := by
 simp [collectKeys,mem_foldl_pushUnique]

@[simp] theorem mem_order {env : Env} {site : HashSite} :
 key∈env.order site keys ↔ key∈keys :=
 (env.order_perm site keys).mem_iff

theorem existingByKey_get (hn:(files.map fileKeyForFile).Nodup) :
 (existingByKey files).get key=some file ↔ file∈files ∧ fileKeyForFile file=key := by
 unfold existingByKey
 rw [HashMap.get_collect (by simpa [map_map,Function.comp_def] using hn)]
 simp only [mem_map,Prod.mk.injEq]
 constructor
 · rintro ⟨f,hf,rfl,rfl⟩
   exact ⟨hf,rfl⟩
 · rintro ⟨hf,rfl⟩
   exact ⟨file,hf,rfl,rfl⟩

theorem existingByKey_key (h:(existingByKey files).get key=some file) :
 file∈files ∧ fileKeyForFile file=key := by
 have := HashMap.mem_of_get_collect h
 simp only [mem_map] at this
 obtain ⟨f,hf,rfl,rfl⟩:=this
 exact ⟨hf,rfl⟩

structure Db.SameTables (db db' : Db) : Prop where
 files : db'.files = db.files
 symbols : db'.symbols = db.symbols
 chunks : db'.chunks = db.chunks
 edges : db'.edges = db.edges

theorem Db.SameTables.refl (db : Db) : db.SameTables db := ⟨rfl,rfl,rfl,rfl⟩

theorem Db.SameTables.trans {a b c : Db} (h:a.SameTables b) (h':b.SameTables c) :
 a.SameTables c :=
 ⟨h'.files.trans h.files,h'.symbols.trans h.symbols,h'.chunks.trans h.chunks,
  h'.edges.trans h.edges⟩

theorem saveState_yields {state : IndexState} {s t : Store}
 (h:Yields (saveState state) s u t) : s.db.SameTables t.db := by
 rw [yields_commit_ok h]
 exact ⟨rfl,rfl,rfl,rfl⟩

theorem upsertRun_yields {s t : Store} (h:Yields upsertRun s u t) : t.db=s.db :=
 (Except.ok.inj (yields_commit h)).symm

theorem ensureWorkspaceAndRoot_ok {db db' : Db} {root : RootId × Path}
 (h:db.ensureWorkspaceAndRoot root = .ok db') : db.SameTables db' := by
 unfold Db.ensureWorkspaceAndRoot at h
 split at h
 · cases h
   exact ⟨rfl,rfl,rfl,rfl⟩
 · cases h

namespace RunPlan

section
variable (env : Env) (plan : RunPlan) (planned : PlannedFile)

def outcome : ProcessOutcome :=
 processOutcome env plan.roots planned
  (contentHashForPlannedFile planned.candidate plan.hashed.hashes plan.existing)
  (plan.existing.get planned.key)

def reuses : Bool :=
 reusesEdges env plan.roots planned
  (contentHashForPlannedFile planned.candidate plan.hashed.hashes plan.existing)
  (plan.existing.get planned.key)

def edgesFor (db : Db) : List GraphEdge :=
 edgesToWrite env plan.roots plan.snapshot (plan.reuses env planned) planned.key
  (factsOf env plan.roots planned.candidate) db

def PlannedWrite (db db' : Db) : Prop :=
 db.Written db' (plan.outcome env planned).persistedFile
  (factsOf env plan.roots planned.candidate).symbols
  (factsOf env plan.roots planned.candidate).chunks
  (plan.edgesFor env planned db) (plan.existing.get planned.key).isSome

end

end RunPlan

section
variable {env : Env} {plan : RunPlan} {st st' : RunState} {s t : Store}
 {key : FileKey} {db db' : Db} {file : File} {level : InvalidationLevel} {message : String}
 {reason : FreshnessReason} {indexed : List FileKey} {rest : List File}
 {planned : PlannedFile} {edge : GraphEdge}

theorem indexPlanned_yields (h:Yields (indexPlanned env plan st planned) s st' t) :
 st'=recordOutcome st ⟨planned,s.db⟩ (plan.outcome env planned) ∧
  plan.PlannedWrite env planned s.db t.db := by
 simp only [indexPlanned,yields_bind] at h
 obtain ⟨_,_,⟨rfl,rfl⟩,outcome,u,h,rfl,rfl⟩:=h
 obtain ⟨rfl,hw⟩:=processAndWriteFile_yields _ _ _ _ _ h
 exact ⟨rfl,hw⟩

def HashFailedWrite (env : Env) (plan : RunPlan) (candidate : FileCandidate) (db db' : Db) :
 Prop :=
 ∃ message existing,plan.hashed.hashFailures.get (fileKeyForCandidate candidate) = some message ∧
  plan.existing.get (fileKeyForCandidate candidate) = some existing ∧
  db.Written db' (hashFailedRow env existing candidate message) [] [] [] true

theorem markHashFailed_yields {candidate : FileCandidate}
 (h:Yields (markHashFailed env plan st candidate) s st' t) :
 ((fileKeyForCandidate candidate∈st.indexed ∨
  plan.hashed.hashFailures.get (fileKeyForCandidate candidate)=none ∨
  plan.existing.get (fileKeyForCandidate candidate)=none) ∧ st'=st ∧ t=s) ∨
  (fileKeyForCandidate candidate ∉ st.indexed ∧
   st'=recordFailure st (fileKeyForCandidate candidate) ∧
   HashFailedWrite env plan candidate s.db t.db) := by
 unfold markHashFailed at h
 simp only at h
 split at h
 · next message existing hm he =>
   split_ifs at h with hi
   · simp only [yields_pure] at h
     exact .inl ⟨.inl hi,h.1.symm,h.2.symm⟩
   simp only [yields_bind] at h
   obtain ⟨_,u,hw,rfl,rfl⟩:=h
   exact .inr ⟨hi,rfl,message,existing,hm,he,
    Db.writeFileAtomically_ok (yields_commit hw)⟩
 · next hnone =>
   simp only [yields_pure] at h
   refine .inl ⟨.inr ?_,h.1.symm,h.2.symm⟩
   by_contra hc
   simp only [not_or,←Option.isSome_iff_ne_none,Option.isSome_iff_exists] at hc
   obtain ⟨⟨message,hm⟩,⟨existing,he⟩⟩:=hc
   exact hnone message existing hm he

theorem refreshQueued_yields (h:Yields (refreshQueued env plan st planned) s st' t) :
 ((planned.key∈st.indexed ∨ plan.existing.get planned.key=none) ∧ st'=st ∧ t=s) ∨
  (planned.key ∉ st.indexed ∧ st'=recordFailure st planned.key ∧
   HashFailedWrite env plan planned.candidate s.db t.db) ∨
  (planned.key ∉ st.indexed ∧
   st'=recordOutcome st ⟨planned,s.db⟩ (plan.outcome env planned) ∧
   plan.PlannedWrite env planned s.db t.db) := by
 unfold refreshQueued at h
 split_ifs at h with hi
 · simp only [yields_pure] at h
   exact .inl ⟨.inl hi,h.1.symm,h.2.symm⟩
 split at h
 · next message _ hm =>
   rcases markHashFailed_yields h with ⟨hc|hc|hc,h⟩|⟨-,h⟩
   · exact absurd hc hi
   · exact absurd (hc.symm.trans hm) (by simp)
   · exact .inl ⟨.inr hc,h⟩
   · exact .inr (.inl ⟨hi,h⟩)
 · exact .inr (.inr ⟨hi,indexPlanned_yields h⟩)

theorem deleteFile_yields {id : FileId} (h:Yields (deleteFile env plan st id) s st' t) :
 (plan.existing.get id=none ∧ st'=st ∧ t=s) ∨
  ∃existing,plan.existing.get id=some existing ∧
   st'={ st with counters := st.counters.register .deleted } ∧
   t.db=s.db.markDeletedFile existing env.now env.runIdMarker := by
 unfold deleteFile at h
 split at h
 · next hn =>
   simp only [yields_pure] at h
   exact .inl ⟨hn,h.1.symm,h.2.symm⟩
 · next existing he =>
   simp only [yields_bind] at h
   obtain ⟨_,u,hw,rfl,rfl⟩:=h
   exact .inr ⟨existing,he,rfl,yields_commit_ok hw⟩

/-- The rows the expansion may mark: live ones, or unscanned roots of it. -/
structure Markable (inp : ExpansionInput) (roots : List FileKey) (key : FileKey) (file : File) :
 Prop where
 existing : inp.existingByPath.get key = some file
 not_indexed : key ∉ inp.initialIndexed
 live_or_root : file.deletedAtUnixMs = none ∨ key ∈ roots ∧ inp.scannedByPath.get key = none

/-- A step of the expansion: a candidate joins the queue, or a row is marked. -/
inductive ExpansionStep (env : Env) (inp : ExpansionInput) (roots : List FileKey) :
 RefreshQueue × Db → RefreshQueue × Db → Prop
 | queued {q q' : RefreshQueue} {db : Db} (level : InvalidationLevel) (key : FileKey)
  (h : queueCandidateForRefresh inp level key q = some q') :
  ExpansionStep env inp roots (q,db) (q',db)
 | marked {q : RefreshQueue} {db db' : Db} (key : FileKey) (file : File) (message : String)
  (reason : FreshnessReason) (h : Markable inp roots key file)
  (hq : inp.scannedByPath.get key = none ∨ key ∈ q.queued)
  (hw : db.Written db' (notCurrentRow env file message reason) [] [] [] true) :
  ExpansionStep env inp roots (q,db)
   ({ q with counters := q.counters.register .notCurrent },db')

abbrev Expands (env : Env) (inp : ExpansionInput) (roots : List FileKey) :=
 Relation.ReflTransGen (ExpansionStep env inp roots)

section
variable {inp : ExpansionInput} {roots : List FileKey} {q q' : RefreshQueue}
 {skip : List FileKey} {existing : HashMap FileKey File} {c : ConfirmedChanges}
 {id : FileKey} {x y : RefreshQueue × Db}

theorem scanned_or_queued (hi:key ∉ inp.initialIndexed)
 (h:queueCandidateForRefresh inp level key q=none) :
 inp.scannedByPath.get key=none ∨ key∈q.queued := by
 unfold queueCandidateForRefresh at h
 split_ifs at h with hc
 · exact .inr (hc.resolve_left hi)
 · exact .inl (Option.map_eq_none_iff.mp h)

theorem liveImporter_eq_some (h:liveImporter existing edge=some key) :
 edge.kind = .imports ∧ ∃id file,edge.fromNode = .file id ∧ existing.get id=some file ∧
  file.deletedAtUnixMs=none ∧ fileKeyForFile file=key := by
 unfold liveImporter at h
 split_ifs at h with hk
 · split at h
   · next id hid =>
     split at h
     · next file hf =>
       split_ifs at h with hd
       · exact ⟨hk,id,file,hid,hf,by simpa using hd,by simpa using h⟩
     · cases h
   · cases h

theorem mem_importersOf :
 key∈importersOf db existing id ↔
  ∃e∈db.findIncomingEdges id 200000,liveImporter existing e=some key := by
 simp [importersOf]

theorem dependentSearch_found {fuel : Nat} {search : Worklist FileId}
 (h:key∈(dependentSearch db existing fuel search).found) :
 key∈search.found ∨
  ∃id file,existing.get id=some file ∧ file.deletedAtUnixMs=none ∧
   fileKeyForFile file=key := by
 refine (Worklist.mem_found_run h).imp_right ?_
 rintro ⟨id,hid⟩
 obtain ⟨edge,-,he⟩:=mem_importersOf.mp hid
 obtain ⟨-,id,file,-,hf,hd,hk⟩:=liveImporter_eq_some he
 exact ⟨id,file,hf,hd,hk⟩

theorem matchesFallback_live {importer : File}
 (h:matchesFallback db roots importer=true) : importer.deletedAtUnixMs=none := by
 simp only [matchesFallback,Bool.and_eq_true] at h
 simpa using h.1.1

theorem dependentKeys_live (h:key∈dependentKeys db existing roots) :
 ∃id file,existing.get id=some file ∧ file.deletedAtUnixMs=none ∧
  fileKeyForFile file=key := by
 simp only [dependentKeys,mem_collectKeys,mem_append,mem_map,mem_filter] at h
 rcases h with h|⟨file,⟨⟨⟨id,file'⟩,hm,rfl⟩,hf⟩,rfl⟩
 · exact (dependentSearch_found h).resolve_left (by simp [startSearch,Worklist.start])
 · exact ⟨id,_,HashMap.get_eq_some.mpr hm,matchesFallback_live hf,rfl⟩

theorem live_of_key (hkey:∀key file,existing.get key=some file → fileKeyForFile file=key)
 (hf:existing.get id=some file) (hd:file.deletedAtUnixMs=none)
 (hk:fileKeyForFile file=key) :
 ∀file',existing.get key=some file' → file'.deletedAtUnixMs=none := by
 intro file' hf'
 rw [←hk,hkey id file hf,hf] at hf'
 cases hf'
 exact hd

/-- A property of an expansion and the queue it starts with: each kind of step has it, and it is
kept when expansions follow one another. -/
structure Expanding (env : Env) (inp : ExpansionInput) (roots : List FileKey)
 (P : RefreshQueue → IndexM RefreshQueue → Prop) : Prop where
 skip : ∀ q,P q (pure q)
 queued : ∀ {level key q q'},queueCandidateForRefresh inp level key q = some q' → P q (pure q')
 marked : ∀ {key file q} (message reason),Markable inp roots key file →
  inp.scannedByPath.get key = none ∨ key ∈ q.queued → P q (markQueued env file message reason q)
 bind : ∀ {q x f},P q x → (∀ q',P q' (f q')) → P q (x >>= f)
 read : ∀ {α : Type} {g : Db → α} {f : α → IndexM RefreshQueue} {q},(∀ db,P q (f (g db))) →
  P q (readDb g >>= f)

namespace Expanding
variable {P : RefreshQueue → IndexM RefreshQueue → Prop} (h : Expanding env inp roots P)
include h

theorem foldlM {f : RefreshQueue → FileKey → IndexM RefreshQueue}
 (step : ∀key∈keys,∀q,P q (f q key)) (q : RefreshQueue) : P q (keys.foldlM f q) := by
 induction keys generalizing q with
 | nil => exact h.skip q
 | cons key keys ih =>
  exact h.bind (step key mem_cons_self q) (ih fun k hk=>step k (mem_cons_of_mem _ hk))

theorem queueOrMark (hi:key ∉ inp.initialIndexed) (hro:∀file,
  inp.existingByPath.get key=some file → file.deletedAtUnixMs=none ∨ key∈roots)
 (level : InvalidationLevel) (message : String) (reason : FreshnessReason) (q : RefreshQueue) :
 P q (queueOrMark env inp level message reason q key) := by
 unfold Indexer.queueOrMark
 split
 · next q' hq => exact h.queued hq
 split
 · next file he hs =>
   refine h.marked _ _ ⟨he,hi,?_⟩ (.inl hs)
   exact (hro file he).imp_right fun hr=>⟨hr,hs⟩
 · exact h.skip q

theorem refreshInScope (key : FileKey) (q : RefreshQueue) :
 P q (refreshInScope env inp q key) := by
 unfold Indexer.refreshInScope
 split
 · exact h.skip q
 · next existing he =>
   split_ifs with hc
   · exact h.skip q
   simp only [not_or,Option.not_isSome_iff_eq_none] at hc
   refine h.queueOrMark hc.2 (fun file hf=>Or.inl ?_) _ _ _ q
   rw [he] at hf
   cases hf
   exact hc.1

theorem refreshUnless (hr:∀file,inp.existingByPath.get key=some file →
  file.deletedAtUnixMs=none ∨ key∈roots) (skip : List FileKey) (level : InvalidationLevel)
 (message : String) (reason : FreshnessReason) (q : RefreshQueue) :
 P q (refreshUnless env inp skip level message reason q key) := by
 unfold Indexer.refreshUnless
 split_ifs with hc
 · exact h.skip q
 · exact h.queueOrMark (fun hi=>hc (.inr hi)) hr _ _ _ q

theorem refreshDependent (hl:∀file,inp.existingByPath.get key=some file → file.deletedAtUnixMs=none)
 (skip : List FileKey) (q : RefreshQueue) : P q (refreshDependent env inp skip q key) := by
 unfold Indexer.refreshDependent
 split_ifs with hc
 · exact h.skip q
 unfold queueOrMarkDependent
 split
 · next q' hq => exact h.queued hq
 · next hn =>
   have hi:key ∉ inp.initialIndexed:=fun hi=>hc (.inr hi)
   split
   · next file he =>
     exact h.marked _ _ ⟨he,hi,.inl (hl file he)⟩ (scanned_or_queued hi hn)
   · exact h.skip q

variable (hkey : ∀ key file,inp.existingByPath.get key = some file → fileKeyForFile file = key)
include hkey

theorem applyDependentInvalidation {publicApi deleted forced : List FileKey}
 (hr:∀key∈publicApi++deleted++forced,key∈roots) (q : RefreshQueue) :
 P q (applyDependentInvalidation env inp publicApi deleted forced q) := by
 refine h.bind (h.foldlM (fun key hk=>?_) q) fun q=>h.read fun db=>
  h.foldlM (fun key hk=>?_) q
 · exact h.refreshUnless (fun _ _=>Or.inr (hr key (by simpa using hk))) _ _ _ _
 · obtain ⟨id,file,hf,hd,hkf⟩:=dependentKeys_live (mem_order.mp hk)
   exact h.refreshDependent (live_of_key hkey hf hd hkf) _

theorem applyStructuralInvalidation {structural : List FileKey}
 (hr:∀key∈structural,key∈roots) (q : RefreshQueue) :
 P q (applyStructuralInvalidation env inp structural q) := by
 refine h.bind (h.foldlM (fun key hk=>?_) q) fun q=>h.read fun db=>
  h.foldlM (fun key hk=>?_) q
 · exact h.refreshUnless (fun _ _=>Or.inr (hr key (by simpa using hk))) _ _ _ _
 simp only [mem_order,mem_collectKeys,mem_flatMap,mem_importersOf] at hk
 obtain ⟨root,-,edge,-,he⟩:=hk
 obtain ⟨-,id,file,-,hf,hd,hkf⟩:=liveImporter_eq_some he
 exact h.refreshUnless (fun file hf'=>Or.inl (live_of_key hkey hf hd hkf file hf')) _ _ _ _

end Expanding

def ConfirmedChanges.allRoots (c : ConfirmedChanges) : List FileKey :=
 c.publicApiRoots++c.deletedKeys++c.forcedRoots++c.structuralRoots

theorem Expanding.applyConfirmedInvalidationExpansion
 {P : RefreshQueue → IndexM RefreshQueue → Prop} (h:Expanding env inp c.allRoots P)
 (hkey:∀key file,inp.existingByPath.get key=some file → fileKeyForFile file=key)
 (q : RefreshQueue) : P q (applyConfirmedInvalidationExpansion env inp c q) := by
 unfold Indexer.applyConfirmedInvalidationExpansion
 split_ifs
 · exact h.skip q
 refine h.bind ?_ fun q=>h.bind ?_ fun q=>?_
 · unfold expandResolutionScope
   split_ifs
   · exact h.foldlM (fun key _=>h.refreshInScope key) q
   · exact h.skip q
 · unfold expandDependents
   split_ifs
   · exact h.skip q
   · exact h.applyDependentInvalidation hkey (fun key hk=>mem_append_left _ hk) q
 · unfold expandStructural
   split_ifs
   · exact h.skip q
   · exact h.applyStructuralInvalidation hkey (fun key hk=>mem_append_right _ hk) q

theorem expanding_expands : Expanding env inp roots fun q x=>
 ∀s q' t,Yields x s q' t → Expands env inp roots (q,s.db) (q',t.db) where
 skip q s q' t h := by
  obtain ⟨rfl,rfl⟩:=yields_pure.mp h
  exact .refl
 queued hq s q' t h := by
  obtain ⟨rfl,rfl⟩:=yields_pure.mp h
  exact .single (.queued _ _ hq)
 marked message reason hm hq s q' t h := by
  simp only [markQueued,yields_bind] at h
  obtain ⟨_,u,hw,rfl,rfl⟩:=h
  exact .single (.marked _ _ message reason hm hq (Db.writeFileAtomically_ok (yields_commit hw)))
 bind hx hf s q' t h := by
  obtain ⟨q1,s1,h1,h2⟩:=yields_bind.mp h
  exact (hx s q1 s1 h1).trans (hf q1 s1 q' t h2)
 read hf s q' t h := by
  simp only [yields_bind] at h
  obtain ⟨_,_,⟨rfl,rfl⟩,h⟩:=h
  exact hf s.db s q' t h

theorem applyConfirmedInvalidationExpansion_expands
 (hkey:∀key file,inp.existingByPath.get key=some file → fileKeyForFile file=key)
 (h:Yields (applyConfirmedInvalidationExpansion env inp c q) s q' t) :
 Expands env inp c.allRoots (q,s.db) (q',t.db) :=
 expanding_expands.applyConfirmedInvalidationExpansion hkey q s q' t h

theorem queueCandidateForRefresh_eq_some (h:queueCandidateForRefresh inp level key q=some q') :
 key ∉ inp.initialIndexed ∧ key ∉ q.queued ∧ ∃candidate,
  inp.scannedByPath.get key=some candidate ∧
  q'={ q with queue := q.queue++[⟨candidate,level⟩],queued := pushUnique q.queued key } := by
 unfold queueCandidateForRefresh at h
 split_ifs at h with hc
 simp only [Option.map_eq_some_iff] at h
 obtain ⟨candidate,hs,rfl⟩:=h
 exact ⟨fun hi=>hc (.inl hi),fun hq=>hc (.inr hq),candidate,hs,rfl⟩

theorem Expands.queue_scanned (h:Expands env inp roots x y)
 (hx:∀p∈x.1.queue,p.key ∉ inp.initialIndexed ∧
  ∃key,inp.scannedByPath.get key=some p.candidate)
 (hkey:∀key c,inp.scannedByPath.get key=some c → fileKeyForCandidate c=key) :
 ∀p∈y.1.queue,p.key ∉ inp.initialIndexed ∧
  ∃key,inp.scannedByPath.get key=some p.candidate := by
 induction h with
 | refl => exact hx
 | tail _ hst ih =>
  cases hst with
  | queued level key hq =>
   obtain ⟨hi,-,candidate,hs,rfl⟩:=queueCandidateForRefresh_eq_some hq
   intro p hp
   rcases mem_append.mp hp with hp|hp
   · exact ih p hp
   · rw [mem_singleton.mp hp]
     have hk:PlannedFile.key ⟨candidate,level⟩=key:=hkey key candidate hs
     exact ⟨hk ▸ hi,key,hs⟩
  | marked key file message reason hm hq hw => exact ih

theorem Expands.queued_mem (h:Expands env inp roots x y)
 (hkey:∀key c,inp.scannedByPath.get key=some c → fileKeyForCandidate c=key)
 (hx:∀key∈x.1.queued,key∈x.1.queue.map PlannedFile.key) :
 ∀key∈y.1.queued,key∈y.1.queue.map PlannedFile.key := by
 induction h with
 | refl => exact hx
 | tail _ hst ih =>
  cases hst with
  | queued level key hq =>
   obtain ⟨-,-,candidate,hs,rfl⟩:=queueCandidateForRefresh_eq_some hq
   have hk:PlannedFile.key ⟨candidate,level⟩=key:=hkey key candidate hs
   intro k hm
   rw [map_append,mem_append,map_singleton,mem_singleton,hk]
   exact (mem_pushUnique.mp hm).imp_left (ih k)
  | marked key file message reason hm hq hw => exact ih

end

@[simp] theorem retainedRow_key (file : File) :
 fileKeyForFile (retainedRow env file)=fileKeyForFile file := rfl

/-- The loop of `refresh_unchanged_files` part-way: the rows still ahead are as they
 were, the rows behind are retained unless the loop skips them. -/
structure RetainedSoFar (env : Env) (indexed : List FileKey) (db : Db) (rest : List File)
 (db' : Db) : Prop where
 rest_rows : ∀ f ∈ rest,f ∈ db.files.rows
 rest_nodup : (rest.map fileKeyForFile).Nodup
 files : ∀ f,f ∈ db'.files.rows ↔ ∃ g ∈ db.files.rows,
  f = if skipsRetention indexed g ∨ g ∈ rest then g else retainedRow env g
 symbols : db'.symbols = db.symbols
 chunks : db'.chunks = db.chunks
 edges : db'.edges = db.edges
 workspaceRoot : db'.workspaceRoot = db.workspaceRoot
 roots : db'.roots = db.roots

theorem RetainedSoFar.skip (h:RetainedSoFar env indexed db (file::rest) db')
 (hs:skipsRetention indexed file) :
 RetainedSoFar env indexed db rest db' := by
 refine ⟨fun f hf=>h.rest_rows f (mem_cons_of_mem _ hf),
  (nodup_cons.mp h.rest_nodup).2,fun f=>?_,h.symbols,h.chunks,h.edges,
  h.workspaceRoot,h.roots⟩
 rw [h.files f]
 refine exists_congr fun g=>and_congr_right fun _=>?_
 have : (skipsRetention indexed g=true ∨ g∈file::rest) ↔
  (skipsRetention indexed g=true ∨ g∈rest) := by
  constructor
  · rintro (hg|hg)
    · exact .inl hg
    · rcases mem_cons.mp hg with rfl|hg
      · exact .inl hs
      · exact .inr hg
  · exact Or.imp_right (mem_cons_of_mem _)
 simp only [this]

theorem RetainedSoFar.retain (h:RetainedSoFar env indexed db (file::rest) db')
 (hs:¬skipsRetention indexed file) :
 RetainedSoFar env indexed db rest (db'.upsertFile (retainedRow env file)) := by
 obtain ⟨hfr,hn⟩:=nodup_cons.mp h.rest_nodup
 have hfi:file∈db.files.rows:=h.rest_rows file mem_cons_self
 have hr:file ∉ rest:=fun hm=>hfr (mem_map.mpr ⟨file,hm,rfl⟩)
 refine ⟨fun f hf=>h.rest_rows f (mem_cons_of_mem _ hf),hn,fun f=>?_,h.symbols,
  h.chunks,h.edges,h.workspaceRoot,h.roots⟩
 change f∈(db'.files.upsert (retainedRow env file)).rows ↔ _
 rw [Table.mem_upsert,h.files f,retainedRow_key]
 constructor
 · rintro (rfl|⟨⟨g,hg,rfl⟩,hk⟩)
   · exact ⟨file,hfi,by simp [hs,hr]⟩
   refine ⟨g,hg,?_⟩
   have hgf:g≠file:=by
    rintro rfl
    simp at hk
   simp [hgf]
 · rintro ⟨g,hg,rfl⟩
   by_cases hgf : g=file
   · subst hgf
     exact .inl (by simp [hs,hr])
   · refine .inr ⟨⟨g,hg,by simp [hgf]⟩,fun hk=>hgf (db.files.row_unique hg hfi ?_)⟩
     split_ifs at hk <;> exact hk

theorem RetainedSoFar.start (indexed : List FileKey) (db : Db) :
 RetainedSoFar env indexed db db.listFilesByWorkspace db := by
 refine ⟨fun f hf=>Db.mem_listFilesByWorkspace.mp hf,db.nodup_keys_listFilesByWorkspace,
  fun f=>?_,rfl,rfl,rfl,rfl,rfl⟩
 simp only [Db.mem_listFilesByWorkspace]
 constructor
 · intro hf
   exact ⟨f,hf,by simp [hf]⟩
 · rintro ⟨g,hg,rfl⟩
   simp [hg]

theorem retainUnchanged_retained {c c' : FreshnessCounters}
 (hI:RetainedSoFar env indexed db (file::rest) s.db)
 (h:Yields (retainUnchanged env indexed c file) s c' t) :
 RetainedSoFar env indexed db rest t.db := by
 unfold retainUnchanged at h
 split_ifs at h with hs
 · simp only [yields_pure] at h
   obtain ⟨rfl,rfl⟩:=h
   exact hI.skip hs
 simp only [yields_bind] at h
 obtain ⟨_,v,hw,rfl,rfl⟩:=h
 rw [yields_commit_ok hw]
 exact hI.retain hs

theorem refreshUnchangedFiles_retained {counters counters' : FreshnessCounters}
 (h:Yields (refreshUnchangedFiles env indexed counters) s counters' t) :
 RetainedSoFar env indexed s.db [] t.db := by
 simp only [refreshUnchangedFiles,yields_bind] at h
 obtain ⟨files,_,⟨rfl,rfl⟩,h⟩:=h
 exact foldlM_induct _ (fun rest _ u=>RetainedSoFar env indexed s.db rest u.db) _
  (fun _ _ _ _ _ _ _ hI hst=>retainUnchanged_retained hI hst) (.start indexed s.db) h

structure Db.SameFacts (db db' : Db) : Prop where
 files : db'.files = db.files
 symbols : db'.symbols = db.symbols
 chunks : db'.chunks = db.chunks

theorem Db.SameFacts.refl (db : Db) : db.SameFacts db := ⟨rfl,rfl,rfl⟩

theorem Db.SameFacts.trans {a b c : Db} (h:a.SameFacts b) (h':b.SameFacts c) :
 a.SameFacts c :=
 ⟨h'.files.trans h.files,h'.symbols.trans h.symbols,h'.chunks.trans h.chunks⟩

def rowUnderSource (edge : GraphEdge) : List EdgeRow :=
 match edge.fromNode with
 | .file id => Db.ownedRows id [edge]
 | .symbol _ => []
 | .chunk _ => []

theorem insertUnderSource_ok (h:db.insertUnderSource edge = .ok db') :
 db.SameFacts db' ∧ db'.edges=db.edges++rowUnderSource edge := by
 unfold Db.insertUnderSource at h
 unfold rowUnderSource
 cases hn : edge.fromNode with
 | file id =>
  simp only [hn] at h
  cases hi : db.insertEdges [edge] id with
  | none =>
   rw [hi] at h
   cases h
  | some db1 =>
   rw [hi] at h
   cases h
   obtain ⟨he,hf,hs,hc,-⟩:=Db.insertEdges_eq_some hi
   exact ⟨⟨hf,hs,hc⟩,he⟩
 | symbol id | chunk id =>
  simp only [hn] at h
  cases h
  exact ⟨.refl _,(append_nil _).symm⟩

def sourceRows (edges : List GraphEdge) : List EdgeRow := edges.flatMap rowUnderSource

theorem foldlM_insertUnderSource {edges : List GraphEdge}
 (h:edges.foldlM Db.insertUnderSource db = .ok db') :
 db.SameFacts db' ∧ db'.edges=db.edges++sourceRows edges := by
 induction edges generalizing db with
 | nil =>
  cases h
  exact ⟨.refl _,by simp [sourceRows]⟩
 | cons e edges ih =>
  rw [foldlM_cons] at h
  cases hi : db.insertUnderSource e with
  | error m =>
   rw [hi] at h
   cases h
  | ok db1 =>
   rw [hi] at h
   obtain ⟨hs,he⟩:=insertUnderSource_ok hi
   obtain ⟨hs',he'⟩:=ih h
   exact ⟨hs.trans hs',by rw [he',he,append_assoc]; rfl⟩

theorem foldl_deleteGraphEdgesForSourceFile (ids : List FileId) (db : Db) :
 db.SameFacts (ids.foldl Db.deleteGraphEdgesForSourceFile db) ∧
  (ids.foldl Db.deleteGraphEdgesForSourceFile db).edges =
   db.edges.filter fun r=>ids.all fun id=>!Db.startsInFile id r := by
 induction ids generalizing db with
 | nil => exact ⟨.refl _,by simp⟩
 | cons id ids ih =>
  obtain ⟨hs,he⟩:=ih (db.deleteGraphEdgesForSourceFile id)
  refine ⟨⟨hs.files,hs.symbols,hs.chunks⟩,?_⟩
  rw [foldl_cons,he]
  simp [Db.deleteGraphEdgesForSourceFile,Db.filterEdges,Bool.and_comm]

theorem relinkContractChangedFiles_ok {changed contractChanged : List FileId}
 (h:db.relinkContractChangedFiles changed contractChanged = .ok db') :
 db.SameFacts db' ∧
  db'.edges=(db.edges.filter fun r=>contractChanged.all fun id=>!Db.startsInFile id r) ++
   sourceRows (db.contractImportEdges changed contractChanged) := by
 obtain ⟨hs,he⟩:=foldlM_insertUnderSource h
 obtain ⟨hs',he'⟩:=foldl_deleteGraphEdgesForSourceFile contractChanged db
 exact ⟨hs'.trans hs,by rw [he,he']⟩

theorem foldlM_replaceEdges {entries : List (FileId × List GraphEdge)}
 (hn:(entries.map Prod.fst).Nodup)
 (h:entries.foldlM (fun db entry=>
  (db.filterEdges fun r=>!decide (r.sourceFileId=entry.1)).insertEdges entry.2 entry.1) db
   = some db') :
 db.SameFacts db' ∧ ∀r,r∈db'.edges ↔
  (r∈db.edges ∧ ∀e∈entries,r.sourceFileId≠e.1) ∨
   ∃e∈entries,r∈Db.ownedRows e.1 e.2 := by
 induction entries generalizing db with
 | nil =>
  cases h
  exact ⟨.refl _,by simp⟩
 | cons entry entries ih =>
  simp only [foldlM_cons,Option.bind_eq_bind,Option.bind_eq_some_iff] at h
  obtain ⟨db1,hi,h⟩:=h
  obtain ⟨hfr,hn⟩:=nodup_cons.mp hn
  obtain ⟨he,hf,hsy,hc,-⟩:=Db.insertEdges_eq_some hi
  obtain ⟨hs',he'⟩:=ih hn h
  refine ⟨.trans ⟨hf,hsy,hc⟩ hs',fun r=>?_⟩
  rw [he' r,he]
  simp only [Db.filterEdges,mem_append,mem_filter,Bool.not_eq_true',decide_eq_false_iff_not,
   mem_cons,forall_eq_or_imp,exists_eq_or_imp]
  constructor
  · rintro (⟨⟨hr,hne⟩|hr,hal⟩|hr)
    · exact .inl ⟨hr,hne,hal⟩
    · exact .inr (.inl hr)
    · exact .inr (.inr hr)
  · rintro (⟨hr,hne,hal⟩|hr|hr)
    · exact .inl ⟨.inl ⟨hr,hne⟩,hal⟩
    · refine .inl ⟨.inr hr,fun e hem heq=>hfr ?_⟩
      obtain ⟨_,-,rfl⟩:=Db.mem_ownedRows.mp hr
      exact mem_map.mpr ⟨e,hem,heq.symm⟩
    · exact .inr hr

theorem linkWorkspace_some {disk : Disk} {root : Path}
 {rootPaths : HashMap RootId Path} (h:db.linkWorkspace disk root rootPaths=some db') :
 db.SameFacts db' ∧ ∀r,r∈db'.edges ↔
  (r∈db.edges ∧ ∀f∈db.files.rows,f.deletedAtUnixMs=none →
   r.sourceFileId≠fileKeyForFile f) ∨
  ∃f∈db.files.rows,f.deletedAtUnixMs=none ∧
   r∈Db.ownedRows (fileKeyForFile f) (relinkExistingEdges
    (WorkspaceSnapshot.new disk root rootPaths db.listFilesByWorkspace
     db.findSymbolsByWorkspace) (fileKeyForFile f)
    (db.findEdgesByFile (fileKeyForFile f))) := by
 have hn:(((db.listFilesByWorkspace.filter fun f=>f.deletedAtUnixMs.isNone).map fun f=>
  (fileKeyForFile f,relinkExistingEdges
   (WorkspaceSnapshot.new disk root rootPaths db.listFilesByWorkspace
    db.findSymbolsByWorkspace) (fileKeyForFile f)
   (db.findEdgesByFile (fileKeyForFile f)))).map Prod.fst).Nodup := by
  rw [map_map]
  exact db.nodup_keys_listFilesByWorkspace.sublist (filter_sublist.map fileKeyForFile)
 obtain ⟨hs,he⟩:=foldlM_replaceEdges hn h
 refine ⟨hs,fun r=>?_⟩
 rw [he r]
 simp only [mem_map,mem_filter,Db.mem_listFilesByWorkspace,Option.isNone_iff_eq_none]
 constructor
 · rintro (⟨hr,hal⟩|⟨_,⟨f,⟨hf,hd⟩,rfl⟩,hr⟩)
   · exact .inl ⟨hr,fun f hf hd=>hal _ ⟨f,⟨hf,hd⟩,rfl⟩⟩
   · exact .inr ⟨f,hf,hd,hr⟩
 · rintro (⟨hr,hal⟩|⟨f,hf,hd,hr⟩)
   · refine .inl ⟨hr,?_⟩
     rintro _ ⟨f,⟨hf,hd⟩,rfl⟩
     exact hal f hf hd
   · exact .inr ⟨_,⟨f,⟨hf,hd⟩,rfl⟩,hr⟩

theorem relinkRun_yields (h:Yields (relinkRun env plan st) s u t) :
 t.db=s.db ∨
 (plan.dirty.toDelete=[] ∧ st.contractChanged.rows≠[] ∧
  s.db.relinkContractChangedFiles
   (env.order .relinkChanged (st.changedFiles.rows.map Prod.fst))
   (env.order .relinkContract (st.contractChanged.rows.map Prod.fst)) = .ok t.db) ∨
 (¬(st.indexed=[] ∧ plan.dirty.toDelete=[]) ∧ contentOnlyIncremental plan st=false ∧
  ¬(plan.dirty.toDelete=[] ∧ st.contractChanged.rows≠[]) ∧
  s.db.linkWorkspace env.disk plan.roots.workspaceRoot plan.roots.rootPaths=some t.db) := by
 unfold relinkRun at h
 split_ifs at h with h1 h2 h3
 · simp only [yields_pure] at h
   exact .inl (congrArg Store.db h.2.symm)
 · simp only [yields_pure] at h
   exact .inl (congrArg Store.db h.2.symm)
 · exact .inr (.inl ⟨h3.1,h3.2,yields_commit h⟩)
 have hl:=yields_commit h
 split at hl
 · next db hdb =>
   cases hl
   exact .inr (.inr ⟨h1,by simpa using h2,h3,hdb⟩)
 · cases hl

theorem relinkRun_sameFacts (h:Yields (relinkRun env plan st) s u t) :
 s.db.SameFacts t.db := by
 rcases relinkRun_yields h with h|⟨-,-,h⟩|⟨-,-,-,h⟩
 · rw [h]
   exact .refl _
 · exact (relinkContractChangedFiles_ok h).1
 · exact (linkWorkspace_some h).1

end
end DhKit.Indexer
