import DhKit.IndexRowConsistency

/-!
# Recovery from failed reads and parses

Which of the rows that were marked not current become current when every scanned file reads and
parses again.
-/
namespace DhKit.Indexer
open KeyedTables CommitRules

def readsClean (env : Env) (roots : RunRoots) (c : FileCandidate) : Bool :=
 match extractCandidate env roots c with
 | .ok facts => !facts.hasErrors && decide (facts.parseStatus≠.parsedWithErrors)
 | .error _ => false

variable {roots : RunRoots} {c : FileCandidate} {env : Env} {facts : ExtractedFacts}

theorem readsClean_iff :
 readsClean env roots c=true ↔ ∃facts,extractCandidate env roots c = .ok facts ∧
  facts.hasErrors=false ∧ facts.parseStatus≠.parsedWithErrors := by
 unfold readsClean
 cases extractCandidate env roots c with
 | ok facts => simp
 | error failure => simp

section
variable (db : Db) (env : Env) (roots : RunRoots) (c : FileCandidate)

/-- The row of a scanned file is current: refreshed or retained, parsed unless its
 language has no adapter, with the facts its content yields. -/
structure Db.CurrentFor (file : File) : Prop where
 row : db.files.find (fileKeyForCandidate c) = some file
 live : file.deletedAtUnixMs = none
 state : file.freshnessState = .refreshedCurrent ∨ file.freshnessState = .retainedCurrent
 parseStatus : file.parseStatus = if c.language = .unknown then .skipped else .parsed
 symbols : db.findSymbolsByFile (fileKeyForCandidate c) = (factsOf env roots c).symbols
 chunks : db.findChunksByFile (fileKeyForCandidate c) = (factsOf env roots c).chunks

def Db.CurrentAt : Prop :=
 ∃ file,db.CurrentFor env roots c file

def presentHash : Option String :=
 (env.disk.readFile c.absPath).toOption.map env.blake3.hex

def outdated (file : File) (c : FileCandidate) : Bool :=
 metadataChanged file c && decide (presentHash env c≠some file.contentHash)

end

def RunPlan.KeysDistinct (plan : RunPlan) : Prop :=
 ∀ c ∈ plan.candidates,∀ c' ∈ plan.candidates,
  fileKeyForCandidate c = fileKeyForCandidate c' → c = c'

instance (plan : RunPlan) : Decidable plan.KeysDistinct :=
 inferInstanceAs (Decidable (∀ c ∈ plan.candidates,∀ c' ∈ plan.candidates,
  fileKeyForCandidate c = fileKeyForCandidate c' → c = c'))

def RunPlan.Recoverable (plan : RunPlan) (env : Env) (db : Db) : Prop :=
 ∀ c ∈ plan.candidates,∀ file,db.files.find (fileKeyForCandidate c) = some file →
  file.deletedAtUnixMs = none → outdated env file c = true ∨ db.CurrentAt env plan.roots c

section
variable {disk : Disk} {blake3 : Blake3} {path : Path} {content : String}
 {hashed : Bool} {result : HashCandidatesResult} {key : FileKey}

theorem openFile_of_readFile (h:disk.readFile path = .ok content) :
 disk.openFile path = .ok () := by
 unfold Disk.readFile at h
 unfold Disk.openFile
 cases hf : disk.entries.find path with
 | none =>
  rw [hf] at h
  cases h
 | some entry =>
  cases ha : entry.access with
  | readable => simp [ha]
  | readFails err | openFails err =>
   simp only [hf,ha] at h
   cases h

theorem readFile_of_extractCandidate (h:extractCandidate env roots c = .ok facts) :
 ∃content,env.disk.readFile c.absPath = .ok content := by
 unfold extractCandidate at h
 split at h
 · cases h
 · next content hc => exact ⟨content,hc⟩

theorem hashCandidate_isSome (h:(result.hashes.get key).isSome) :
 ((hashCandidate blake3 disk hashed result c).hashes.get key).isSome := by
 unfold hashCandidate
 split_ifs
 · cases disk.readFile c.absPath with
   | ok content =>
    simp only [HashMap.get_upsert]
    split_ifs
    · rfl
    · exact h
   | error err => exact h
 · cases disk.openFile c.absPath <;> exact h

theorem hashCandidate_failure_isSome (h:(result.hashFailures.get key).isSome) :
 ((hashCandidate blake3 disk hashed result c).hashFailures.get key).isSome := by
 have hse:∀err,(HashMap.get (result.hashFailures.upsert
  (fileKeyForCandidate c,hashReadMessage c err)) key).isSome := by
  intro err
  rw [HashMap.get_upsert]
  split_ifs
  · rfl
  · exact h
 unfold hashCandidate
 split_ifs
 · cases disk.readFile c.absPath with
   | ok content => exact h
   | error err => exact hse err
 · cases disk.openFile c.absPath with
   | ok _ => exact h
   | error err => exact hse err

theorem foldl_establishes {α β : Type} {f : β → α → β} {P : β → Prop} {l : List α} {a : α}
 (ha:a∈l) (hse:∀b,P (f b a)) (hk:∀b c,P b → P (f b c)) (b : β) :
 P (l.foldl f b) := by
 suffices H : ∀l : List α,∀b,a∈l ∨ P b → P (l.foldl f b) from H l b (.inl ha)
 intro l
 induction l with
 | nil => exact fun b h=>h.resolve_left (by simp)
 | cons c l ih =>
  intro b h
  refine ih _ ?_
  rcases h with h|h
  · rcases List.mem_cons.mp h with rfl|h
    · exact .inr (hse b)
    · exact .inl h
  · exact .inr (hk b c h)

section
variable {candidates : List FileCandidate} {existingFiles : List File} {forceFull : Bool}
 {touched : List FileKey} {c : FileCandidate} (hc : c ∈ candidates)
 (hh : shouldHash (existingByKey existingFiles) forceFull touched c)
include hc hh

theorem hashIncrementalCandidates_isSome (hr:disk.readFile c.absPath = .ok content) :
 ((hashIncrementalCandidates blake3 disk candidates existingFiles forceFull touched).hashes.get
  (fileKeyForCandidate c)).isSome :=
 foldl_establishes (P := fun r : HashCandidatesResult=>
  (r.hashes.get (fileKeyForCandidate c)).isSome) hc
  (fun result=>by simp [hashCandidate,hh,hr,HashMap.get_upsert])
  (fun _ _ h=>hashCandidate_isSome h) _

theorem hashIncrementalCandidates_failure {err : String}
 (hr:disk.readFile c.absPath = .error err) :
 ((hashIncrementalCandidates blake3 disk candidates existingFiles forceFull
  touched).hashFailures.get (fileKeyForCandidate c)).isSome :=
 foldl_establishes (P := fun r : HashCandidatesResult=>
  (r.hashFailures.get (fileKeyForCandidate c)).isSome) hc
  (fun result=>by simp [hashCandidate,hh,hr,HashMap.get_upsert])
  (fun _ _ h=>hashCandidate_failure_isSome h) _

end

end

section
variable {env : Env} {req : IndexWorkspaceRequest} {db db' : Db}
 {fault : Option (Nat × Stop)} {report : IndexReport} {t : Store}

theorem requestPlan_no_failures (hread:∀c∈(requestPlan env req db).candidates,∃content,
  env.disk.readFile c.absPath = .ok content) (key : FileKey) :
 (requestPlan env req db).hashed.hashFailures.get key=none := by
 cases h : (requestPlan env req db).hashed.hashFailures.get key with
 | none => rfl
 | some message =>
  obtain ⟨c,hc,-,err,-,her⟩:=hashIncrementalCandidates_entries.failure_of key message h
  obtain ⟨content,hco⟩:=hread c hc
  split_ifs at her
  · rw [hco] at her
    cases her
  · rw [openFile_of_readFile hco] at her
    cases her

theorem requestPlan_planned (hi:req.forceFull=false)
 (hdi:(requestPlan env req db).KeysDistinct)
 (hc:c∈(requestPlan env req db).candidates) {content : String}
 (hr:env.disk.readFile c.absPath = .ok content)
 (hrow:∀file,db.files.find (fileKeyForCandidate c)=some file →
  file.deletedAtUnixMs=none → outdated env file c=true) :
 ∃p∈(requestPlan env req db).dirty.toIndex,p.key=fileKeyForCandidate c := by
 have hex:∀file,(existingByKey db.listFilesByWorkspace).get (fileKeyForCandidate c) =
  some file ↔ db.files.find (fileKeyForCandidate c)=some file := by
  intro file
  rw [existing_listFiles,Table.find_eq_some]
 have hha:shouldHash (existingByKey db.listFilesByWorkspace) req.forceFull [] c:=by
  unfold shouldHash
  cases he : (existingByKey db.listFilesByWorkspace).get (fileKeyForCandidate c) with
  | none => simp
  | some file =>
   have hme:metadataChanged file c:=by
    cases hd : file.deletedAtUnixMs with
    | none => exact (Bool.and_eq_true_iff.mp (hrow file ((hex file).mp he) hd)).1
    | some deletedAt => simp [metadataChanged,hd]
   simp [hme]
 have hso:((requestPlan env req db).hashed.hashes.get (fileKeyForCandidate c)).isSome:=
  hashIncrementalCandidates_isSome hc hha hr
 obtain ⟨hash,hh⟩:=Option.isSome_iff_exists.mp hso
 have hha:hash=env.blake3.hex content:=by
  obtain ⟨c',hc',hk,-,content',hr',rfl⟩:=
   hashIncrementalCandidates_entries.hash_of _ _ hh
  obtain rfl := hdi c' hc' c hc hk
  rw [hr] at hr'
  cases hr'
  rfl
 have hl:∃level,planCandidate c
  ((existingByKey db.listFilesByWorkspace).get (fileKeyForCandidate c)) hash req.forceFull
   (decide (fileKeyForCandidate c∈([] : List FileKey)))=some level := by
  unfold planCandidate
  rw [hi]
  cases he : (existingByKey db.listFilesByWorkspace).get (fileKeyForCandidate c) with
  | none => exact ⟨_,rfl⟩
  | some file =>
   cases hd : file.deletedAtUnixMs with
   | some deletedAt => exact ⟨_,by simp [hd]; rfl⟩
   | none =>
    have hne:file.contentHash≠hash:=by
     have hp:=of_decide_eq_true (Bool.and_eq_true_iff.mp (hrow file ((hex file).mp he) hd)).2
     exact fun heq=>hp (by simp [presentHash,hr,Except.toOption,heq,hha])
    simp only [Bool.false_eq_true,if_false,hd,Option.isSome_none,hne]
    split_ifs
    · exact ⟨_,rfl⟩
    · exact ⟨_,rfl⟩
 obtain ⟨level,hl⟩:=hl
 refine ⟨⟨c,level⟩,?_,rfl⟩
 have hdir:(requestPlan env req db).dirty=buildDirtySet (env.order .toDelete)
  (requestPlan env req db).candidates (requestPlan env req db).hashed.hashes
  db.listFilesByWorkspace req.forceFull [] := by
  refine if_neg fun hem=>?_
  have : (requestPlan env req db).hashed.hashes.rows=[] := hem.1
  rw [HashMap.isSome_get_iff,this] at hso
  simp at hso
 rw [hdir]
 exact mem_buildDirtySet_toIndex.mpr ⟨hc,hash,hh,hl⟩

theorem parseStatus_of_clean (h:extractCandidate env roots c = .ok facts)
 (hne:facts.parseStatus≠.parsedWithErrors) :
 facts.parseStatus=if c.language = .unknown then .skipped else .parsed := by
 unfold extractCandidate at h
 split at h
 · cases h
 split at h
 · cases h
 next hx =>
 cases h
 unfold extractFileFacts at hx
 split_ifs at hx with hu
 · cases hx
   simp [hu,ExtractedFacts.skipped]
 split at hx
 · cases hx
 · next parsed _ =>
   cases hx
   by_cases he : parsed.hasErrors=true ∨ parsed.diagnostics≠[]
   · exact absurd (if_pos he) hne
   · rw [if_neg hu]
     exact if_neg he

theorem Extracted.currentAt {plan : RunPlan} {p : PlannedFile} (h:Extracted env plan db p)
 (hcl:readsClean env plan.roots p.candidate=true) :
 db.CurrentAt env plan.roots p.candidate := by
 obtain ⟨facts,hx,her,hne⟩:=readsClean_iff.mp hcl
 refine ⟨_,h.row,processOutcome_deletedAt ..,.inl ?_,?_,h.symbols,h.chunks⟩
 · simp [RunPlan.outcome,processOutcome,hx,extractedOutcome,extractedRow,her]
 · rw [←parseStatus_of_clean hx hne]
   simp [RunPlan.outcome,processOutcome,hx,extractedOutcome,extractedRow]

theorem Db.CurrentAt.congr (h:db.CurrentAt env roots c)
 (hs:db.SameAt db' (fileKeyForCandidate c)) : db'.CurrentAt env roots c := by
 obtain ⟨file,h⟩:=h
 exact ⟨file,hs.row.trans h.row,h.live,h.state,h.parseStatus,hs.symbols.trans h.symbols,
  hs.chunks.trans h.chunks⟩

theorem currentAt_retained_iff {indexed : List FileKey} (hi:fileKeyForCandidate c ∉ indexed)
 (hrow:db'.files.find (fileKeyForCandidate c) =
  (db.files.find (fileKeyForCandidate c)).map (rowAfterRetention env indexed))
 (hs:db'.findSymbolsByFile (fileKeyForCandidate c) =
  db.findSymbolsByFile (fileKeyForCandidate c))
 (hc:db'.findChunksByFile (fileKeyForCandidate c) =
  db.findChunksByFile (fileKeyForCandidate c)) :
 db'.CurrentAt env roots c ↔ db.CurrentAt env roots c := by
 constructor
 · rintro ⟨file,h⟩
   have hf:=h.row
   rw [hrow,Option.map_eq_some_iff] at hf
   obtain ⟨g,hg,rfl⟩:=hf
   unfold rowAfterRetention at h
   split_ifs at h with hsk
   · exact ⟨g,hg,h.live,h.state,h.parseStatus,hs ▸ h.symbols,hc ▸ h.chunks⟩
   · simp only [skipsRetention] at hsk
     refine ⟨g,hg,h.live,?_,h.parseStatus,hs ▸ h.symbols,hc ▸ h.chunks⟩
     cases hst : g.freshnessState <;> simp_all
 · rintro ⟨g,h⟩
   obtain ⟨-,hk⟩:=(Table.find_eq_some _).mp h.row
   have hsk:skipsRetention indexed g=false:=by
    rcases h.state with hst|hst <;> simp [skipsRetention,h.live,hk,hi,hst]
   refine ⟨retainedRow env g,?_,h.live,.inr rfl,h.parseStatus,hs.trans h.symbols,
    hc.trans h.chunks⟩
   rw [hrow,h.row,Option.map_some,rowAfterRetention,if_neg (by simp [hsk])]

theorem indexWorkspace_currentAt (hcl:∀c∈(requestPlan env req db).candidates,
  readsClean env (requestPlan env req db).roots c=true)
 (hdi:(requestPlan env req db).KeysDistinct)
 (h:Yields (indexWorkspace env req) ⟨db,fault⟩ report t)
 (hc:c∈(requestPlan env req db).candidates) :
 ((∃p∈(requestPlan env req db).dirty.toIndex,p.key=fileKeyForCandidate c) →
  fileKeyForCandidate c∈report.indexed) ∧
 (t.db.CurrentAt env (requestPlan env req db).roots c ↔
  fileKeyForCandidate c∈report.indexed ∨
   db.CurrentAt env (requestPlan env req db).roots c) := by
 have hpl:=requestPlan_for env req db
 obtain ⟨-,s1,st,t1,hs1,hr,ht1,rfl⟩:=indexWorkspace_yields h
 obtain ⟨mid,hse,hre⟩:=runWorkspacePlan_yields hr
 have hfa:=settledWorkspace_fates hpl
  (fun c hc c' hc' hk _=>hdi c hc c' hc' hk) hs1 hse
 have hsa:=((relinkRun_sameFacts hre).sameAt (fileKeyForCandidate c)).trans (ht1.sameAt _)
 have hsc:fileKeyForCandidate c∈(requestPlan env req db).scannedKeys:=
  List.mem_map.mpr ⟨c,hc,rfl⟩
 have hread:∀c∈(requestPlan env req db).candidates,∃content,
  env.disk.readFile c.absPath = .ok content := by
  intro c hc
  obtain ⟨facts,hx,-⟩:=readsClean_iff.mp (hcl c hc)
  exact readFile_of_extractCandidate hx
 refine ⟨?_,?_⟩
 · rintro ⟨p,hp,hk⟩
   exact hk ▸ hfa.planned p hp
 change _ ↔ fileKeyForCandidate c∈st.indexed ∨ _
 by_cases hi : fileKeyForCandidate c∈st.indexed
 · refine ⟨fun _=>Or.inl hi,fun _=>?_⟩
   rcases hfa.indexed _ hsc hi with ⟨p,hk,hp⟩|⟨hf,-⟩
   · obtain rfl := hdi p.candidate hp.scanned c hc hk
     exact (hp.currentAt (hcl _ hc)).congr hsa
   · rw [requestPlan_no_failures hread] at hf
     cases hf
 · rw [or_iff_right hi]
   exact currentAt_retained_iff hi (hsa.row.trans (hfa.row _ hsc hi))
    (hsa.symbols.trans (hfa.symbols _ hsc hi))
    (hsa.chunks.trans (hfa.chunks _ hsc hi))

/-- Over files that all read clean, an incremental run that finds their rows
 recoverable leaves all of them current. Whenever it leaves all of them current,
 those it did not index were current before. -/
theorem indexWorkspace_recovers (hinc : req.forceFull = false)
 (hclean : ∀ c ∈ (requestPlan env req db).candidates,
  readsClean env (requestPlan env req db).roots c = true)
 (hdistinct : (requestPlan env req db).KeysDistinct)
 (h : Yields (indexWorkspace env req) ⟨db,fault⟩ report t) :
 ((requestPlan env req db).Recoverable env db → ∀ c ∈ (requestPlan env req db).candidates,
  t.db.CurrentAt env (requestPlan env req db).roots c) ∧
 ((∀ c ∈ (requestPlan env req db).candidates,
  t.db.CurrentAt env (requestPlan env req db).roots c) →
  ∀ c ∈ (requestPlan env req db).candidates,fileKeyForCandidate c ∉ report.indexed →
   db.CurrentAt env (requestPlan env req db).roots c) := by
 constructor
 · intro hrec c hc
   obtain ⟨hp,hif⟩:=indexWorkspace_currentAt hclean hdistinct h hc
   refine hif.mpr ?_
   by_cases hcu : db.CurrentAt env (requestPlan env req db).roots c
   · exact .inr hcu
   obtain ⟨facts,hx,-⟩:=readsClean_iff.mp (hclean c hc)
   obtain ⟨content,hr⟩:=readFile_of_extractCandidate hx
   exact .inl (hp (requestPlan_planned hinc hdistinct hc hr fun file hf hd=>
    (hrec c hc file hf hd).resolve_right hcu))
 · intro hal c hc hi
   exact ((indexWorkspace_currentAt hclean hdistinct h hc).2.mp (hal c hc)).resolve_left hi

end

section

def rewordedParser : Parser :=
 .ofTable [("f",{ SourceSketch.blank with symbols := [("f",0,10)] }),
  ("g",{ SourceSketch.blank with symbols := [("g",0,10)] })] []

def fileWith (mtimeUnixMs : Int) (content : String) (access : Access) : Env :=
 .plain rewordedParser (.ofFiles ⟨[⟨["w","a.ts"],10,mtimeUnixMs,content,access⟩],by simp⟩)

def openIndexed : Db :=
 (Call.indexWorkspace (fileWith 1 "f" .readable) wholeWorkspace).result .empty

def lockedFile : Env := fileWith 2 "f" (.readFails "locked")

def lockedIndexed : Db := (Call.indexWorkspace lockedFile wholeWorkspace).result openIndexed

def rewrittenFile : Env := fileWith 3 "g" .readable

theorem rewritten_recovers : (∃ f ∈ lockedIndexed.files.rows,f.freshnessState = .notCurrent) ∧
 ∃ db',(Call.indexWorkspace rewrittenFile wholeWorkspace).Returns lockedIndexed db' ∧
  ∀ c ∈ (requestPlan rewrittenFile wholeWorkspace lockedIndexed).candidates,
   db'.CurrentAt rewrittenFile
    (requestPlan rewrittenFile wholeWorkspace lockedIndexed).roots c := by
 have hok:(Call.indexWorkspace rewrittenFile wholeWorkspace).succeeds lockedIndexed=true:=by
  decide +kernel
 obtain ⟨report,t,h,-⟩:=Call.returns_result hok
 have hr:(∃f∈lockedIndexed.files.rows,f.freshnessState = .notCurrent) ∧
  (requestPlan rewrittenFile wholeWorkspace lockedIndexed).KeysDistinct ∧
  ∀c∈(requestPlan rewrittenFile wholeWorkspace lockedIndexed).candidates,
   readsClean rewrittenFile
    (requestPlan rewrittenFile wholeWorkspace lockedIndexed).roots c=true ∧
   ∀f∈lockedIndexed.files.rows,outdated rewrittenFile f c=true := by
  decide +kernel
 refine ⟨hr.1,t.db,⟨report,t,h,rfl⟩,(indexWorkspace_recovers rfl
  (fun c hc=>(hr.2.2 c hc).1) hr.2.1 h).1 fun c hc f hf _=>Or.inl ?_⟩
 exact (hr.2.2 c hc).2 f ((Table.find_eq_some _).mp hf).1

def unlockedFile : Env := fileWith 2 "f" .readable

def unlockedIndexed : Db := (Call.indexWorkspace unlockedFile wholeWorkspace).result lockedIndexed

/-- A file that a run could not read for hashing stays not current after it can be
 read again with the size and time that run saw. -/
theorem unlocked_not_current :
 (Call.indexWorkspace (fileWith 1 "f" .readable) wholeWorkspace).Returns .empty openIndexed ∧
 (Call.indexWorkspace lockedFile wholeWorkspace).Returns openIndexed lockedIndexed ∧
 (Call.indexWorkspace unlockedFile wholeWorkspace).Returns lockedIndexed unlockedIndexed ∧
 (∀ c ∈ (requestPlan unlockedFile wholeWorkspace lockedIndexed).candidates,
  readsClean unlockedFile
   (requestPlan unlockedFile wholeWorkspace lockedIndexed).roots c = true) ∧
 ¬ ∀ c ∈ (requestPlan unlockedFile wholeWorkspace lockedIndexed).candidates,
  unlockedIndexed.CurrentAt unlockedFile
   (requestPlan unlockedFile wholeWorkspace lockedIndexed).roots c := by
 have hrow:(∀c∈(requestPlan unlockedFile wholeWorkspace lockedIndexed).candidates,
  readsClean unlockedFile
   (requestPlan unlockedFile wholeWorkspace lockedIndexed).roots c=true) ∧
  ∃c∈(requestPlan unlockedFile wholeWorkspace lockedIndexed).candidates,
   ∃f∈unlockedIndexed.files.rows,fileKeyForFile f=fileKeyForCandidate c ∧
    f.freshnessState = .notCurrent := by decide +kernel
 refine ⟨Call.returns_result (by decide +kernel),Call.returns_result (by decide +kernel),
  Call.returns_result (by decide +kernel),hrow.1,fun h=>?_⟩
 obtain ⟨c,hc,f,hf,hk,hst⟩:=hrow.2
 obtain ⟨g,hg⟩:=h c hc
 obtain ⟨hgm,hgk⟩:=(Table.find_eq_some _).mp hg.row
 obtain rfl := unlockedIndexed.files.row_unique hf hgm (hk.trans hgk.symm)
 rcases hg.state with h|h <;> simp [hst] at h

end
end DhKit.Indexer
