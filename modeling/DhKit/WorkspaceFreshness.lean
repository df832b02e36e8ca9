import DhKit.ContextPlanner
import DhKit.SeparatedText

/-!
# Workspace freshness

`checkWorkspaceFreshness` compares a digest of the whole listing and lists the changed files from
the files that are there now.
-/
namespace DhKit.Context
open SeparatedText List

/-- Two files of a workspace have different paths, and no name has a line break. -/
structure Workspace where
 tree : List (String × FileNode)
 distinct : ((walkEntries "" tree).map ScannedFile.path).Nodup
 oneLine : ∀ file ∈ walkEntries "" tree,'\n' ∉ file.path.toList

structure StoredFingerprint where
 fingerprint : String
 files : List String
 fileFingerprints : List (String × String)

inductive FreshnessStatus where
 | firstRun | fresh | changed
deriving DecidableEq

structure WorkspaceFreshnessReport where
 status : FreshnessStatus
 workspaceFingerprint : String
 previousFingerprint : Option String
 indexedFiles : Nat
 changedFiles : List String

def fileFingerprint (file : ScannedFile) : String := s!"{file.size}:{file.mtimeUs / 1000}"

section
variable (digest : String → String) (workspace : Workspace)

def listFiles : List ScannedFile := sortedFiles workspace.tree

/-- What `writePrior` stores. -/
def storedFingerprint : StoredFingerprint where
 fingerprint := digest (fingerprintText workspace.tree)
 files := (listFiles workspace).map ScannedFile.path
 fileFingerprints := (listFiles workspace).map fun file => (file.path,fileFingerprint file)

def changedFiles (prior : StoredFingerprint) : List String :=
 (((listFiles workspace).filter fun file => file.path ∉ prior.files ∨
  prior.fileFingerprints.lookup file.path≠some (fileFingerprint file)).map
   ScannedFile.path).take 50

def checkWorkspaceFreshness (prior : Option StoredFingerprint) (update : Bool) :
 WorkspaceFreshnessReport × Option StoredFingerprint :=
 let current := digest (fingerprintText workspace.tree)
 let status := match prior with
  | none => .firstRun
  | some prior => if prior.fingerprint = current then .fresh else .changed
 ({ status
    workspaceFingerprint := current
    previousFingerprint := prior.map StoredFingerprint.fingerprint
    indexedFiles := (listFiles workspace).length
    changedFiles := match prior with
     | some prior => if status = .changed then changedFiles workspace prior else []
     | none => [] },
  if update then some (storedFingerprint digest workspace) else prior)

/-- Path, size and whole milliseconds of a file. -/
def ScannedFile.key (file : ScannedFile) : String × Nat × Int :=
 (file.path,file.size,file.mtimeUs/1000)

/-- What a workspace has at a path. -/
def Workspace.at (path : String) : Option (Nat × Int) :=
 ((listFiles workspace).find? fun file => file.path = path).map fun file => file.key.2

end

section
variable {digest : String → String} {a b : Workspace} {path : String}

/-- No character is a surrogate, so the first unit tells the two kinds of code apart. -/
theorem utf16Code_append_inj {c d : Char} {u v : List Nat} (h:utf16Code c++u=utf16Code d++v) :
 c=d ∧ u=v := by
 have hc:c.toNat < 0xD800 ∨ 0xDFFF < c.toNat ∧ c.toNat < 0x110000:=c.valid
 have hd:d.toNat < 0xD800 ∨ 0xDFFF < d.toNat ∧ d.toNat < 0x110000:=d.valid
 rw [←Char.toNat_inj]
 unfold utf16Code at h
 split_ifs at h
 all_goals
  simp only [cons_append,nil_append,cons.injEq] at h
 · exact h
 · omega
 · omega
 · exact ⟨by omega,h.2.2⟩

theorem utf16Units_injective : Function.Injective utf16Units := by
 intro x y h
 refine String.toList_inj.mp ?_
 unfold utf16Units at h
 generalize x.toList=cs at h ⊢
 generalize y.toList=ds at h ⊢
 have hne:∀c,utf16Code c≠[]:=fun c=>by unfold utf16Code; split_ifs <;> simp
 induction cs generalizing ds with
 | nil =>
   cases ds with
   | nil => rfl
   | cons d ds => simp [flatMap_cons,hne] at h
 | cons c cs ih =>
   cases ds with
   | nil => simp [flatMap_cons,hne] at h
   | cons d ds =>
     rw [flatMap_cons,flatMap_cons] at h
     obtain ⟨rfl,hrest⟩:=utf16Code_append_inj h
     rw [ih ds hrest]

theorem mem_listFiles {file : ScannedFile} : file∈listFiles a ↔ file∈walkEntries "" a.tree :=
 (perm_insertionSort _ _).mem_iff

theorem nodup_paths : ((listFiles a).map ScannedFile.path).Nodup :=
 ((perm_insertionSort _ _).map _).nodup_iff.mpr a.distinct

theorem at_eq_some {entry : Nat × Int} :
 a.at path=some entry ↔ (path,entry)∈(listFiles a).map ScannedFile.key := by
 unfold Workspace.at
 rw [Option.map_eq_some_iff,mem_map]
 constructor
 · rintro ⟨file,hfi,rfl⟩
   have hp:file.path=path:=by simpa using find?_some hfi
   exact ⟨file,mem_of_find?_eq_some hfi,by rw [←hp]; rfl⟩
 · rintro ⟨file,hme,hk⟩
   have hp:file.path=path:=congrArg Prod.fst hk
   obtain ⟨found,hf⟩ : ∃found,(listFiles a).find? (fun file=>file.path=path) =
    some found :=
    Option.isSome_iff_exists.mp (find?_isSome.mpr ⟨file,hme,by simp [hp]⟩)
   have hsa:found.path=path:=by simpa using find?_some hf
   have heq:=inj_on_of_nodup_map nodup_paths (mem_of_find?_eq_some hf) hme
    (hsa.trans hp.symm)
   exact ⟨found,hf,by rw [heq,hk]⟩

theorem at_ne_none : a.at path≠none ↔ path∈(listFiles a).map ScannedFile.path := by
 simp [Workspace.at]

theorem keys_eq_iff :
 (listFiles a).map ScannedFile.key=(listFiles b).map ScannedFile.key ↔
  ∀path,a.at path=b.at path := by
 constructor
 · intro heq path
   refine Option.ext fun entry=>?_
   rw [at_eq_some,at_eq_some,heq]
 intro h
 have hn:∀w : Workspace,((listFiles w).map ScannedFile.key).Nodup:=fun w=>
  Nodup.of_map Prod.fst (by simpa [ScannedFile.key,Function.comp_def] using nodup_paths)
 have hso:∀w : Workspace,((listFiles w).map ScannedFile.key).Pairwise
  fun x y=>utf16Units x.1 ≤ utf16Units y.1 := by
  intro w
  rw [pairwise_map]
  exact pairwise_insertionSort (fun f g : ScannedFile=>utf16Units f.path ≤ utf16Units g.path) _
 have hme:∀x,x∈(listFiles a).map ScannedFile.key ↔
  x∈(listFiles b).map ScannedFile.key := by
  intro ⟨path,entry⟩
  rw [←at_eq_some,←at_eq_some,h]
 refine Perm.eq_of_pairwise (fun x y hx hy hxy hyx=>?_) (hso a) (hso b)
  ((perm_ext_iff_of_nodup (hn a) (hn b)).mpr hme)
 have hx:=at_eq_some.mpr ((hme x).mp hx)
 have hy:=at_eq_some.mpr hy
 have hp:=utf16Units_injective (le_antisymm hxy hyx)
 rw [hp,hy] at hx
 exact Prod.ext hp (Option.some.inj hx).symm

def line (key : String × Nat × Int) : List Char :=
 (key.1.toList ++ ':' :: (toString key.2.1).toList) ++ ':' :: (toString key.2.2).toList

theorem line_injective : Function.Injective line := by
 intro x y h
 obtain ⟨hf,hms⟩:=last_separator_inj (not_mem_intText (by decide) (by decide) _)
  (not_mem_intText (by decide) (by decide) _) h
 obtain ⟨hp,hsi⟩:=last_separator_inj (not_mem_natText (by decide) _)
  (not_mem_natText (by decide) _) hf
 exact Prod.ext (String.toList_inj.mp hp) (Prod.ext
  (natText_injective (String.toList_inj.mp hsi)) (intText_injective (String.toList_inj.mp hms)))

theorem toList_fingerprintText : (fingerprintText a.tree).toList =
 joined '\n' (((listFiles a).map ScannedFile.key).map line) := by
 unfold fingerprintText joined listFiles
 rw [String.toList_join,flatMap_map,flatMap_map,flatMap_map]
 refine flatMap_congr fun file _=>?_
 have htext:∀text : String,toString text=text:=fun _=>rfl
 simp [line,ScannedFile.key,htext]

theorem fingerprintText_eq_iff : fingerprintText a.tree=fingerprintText b.tree ↔
 ∀path,a.at path=b.at path := by
 have hl:∀w : Workspace,∀u∈((listFiles w).map ScannedFile.key).map line,'\n' ∉ u := by
  intro w u hu
  simp only [mem_map] at hu
  obtain ⟨_,⟨file,hf,rfl⟩,rfl⟩:=hu
  have hp:=w.oneLine file (mem_listFiles.mp hf)
  have hsi:=not_mem_natText (c := '\n') (by decide) file.size
  have hms:=not_mem_intText (c := '\n') (by decide) (by decide) (file.mtimeUs / 1000)
  simp only [line,ScannedFile.key,mem_append,mem_cons,not_or]
  exact ⟨⟨hp,by decide,hsi⟩,by decide,hms⟩
 rw [←keys_eq_iff,←String.toList_inj,toList_fingerprintText,toList_fingerprintText]
 refine ⟨fun h=>line_injective.list_map (joined_inj (hl a) (hl b) h),fun h=>by rw [h]⟩

theorem fileFingerprint_eq_iff {file other : ScannedFile} :
 fileFingerprint file=fileFingerprint other ↔ file.key.2=other.key.2 := by
 have hl:∀f : ScannedFile,line ("",f.key.2) = ':' :: (fileFingerprint f).toList := by
  have htext:∀text : String,toString text=text:=fun _=>rfl
  simp [line,fileFingerprint,ScannedFile.key,htext]
 constructor
 · intro h
   have hsa:=line_injective
    ((hl file).trans ((congrArg _ (congrArg _ h)).trans (hl other).symm))
   exact (Prod.mk.inj hsa).2
 · intro h
   have hsa:line ("",file.key.2)=line ("",other.key.2) := by rw [h]
   rw [hl,hl,cons.injEq] at hsa
   exact String.toList_inj.mp hsa.2

theorem lookup_stored : (storedFingerprint digest a).fileFingerprints.lookup path =
 ((listFiles a).find? fun file=>file.path=path).map fileFingerprint := by
 unfold storedFingerprint
 induction listFiles a with
 | nil => rfl
 | cons file files ih =>
  by_cases hp : file.path=path
  · simp [hp]
  · simpa [hp,lookup_cons,beq_false_of_ne (Ne.symm hp)] using ih

def differingPaths (before after : Workspace) : List String :=
 ((listFiles before).map ScannedFile.path).filter (fun path => after.at path = none) ++
  ((listFiles after).map ScannedFile.path).filter fun path => before.at path≠after.at path

theorem changedFiles_eq : changedFiles b (storedFingerprint digest a) =
 (((listFiles b).map ScannedFile.path).filter fun path=>a.at path≠b.at path).take 50 := by
 unfold changedFiles
 rw [filter_map]
 congr 2
 refine filter_congr fun file hfi=>?_
 have hb:b.at file.path=some file.key.2:=at_eq_some.mpr (mem_map_of_mem hfi)
 simp only [Function.comp_apply,decide_eq_decide]
 rw [lookup_stored,hb,Workspace.at]
 cases hf : (listFiles a).find? fun other=>other.path=file.path with
 | none => simp
 | some other =>
  have ho:file.path∈(storedFingerprint digest a).files:=
   mem_map.mpr ⟨other,mem_of_find?_eq_some hf,by simpa using find?_some hf⟩
  simp [ho,fileFingerprint_eq_iff]

/-- What a report on the second workspace says, with the fingerprint of the first one stored. -/
structure ReportsChange (before after : Workspace) (report : WorkspaceFreshnessReport) : Prop where
 fresh_iff : report.status = .fresh ↔ ∀ path,before.at path = after.at path
 changed : (¬ ∀ path,before.at path = after.at path) → report.status = .changed ∧
  report.changedFiles.length = min 50 (differingPaths before after).length ∧
  report.changedFiles.Nodup ∧ ∀ path ∈ report.changedFiles,before.at path≠after.at path

theorem reportsChange_iff (hdigest : Function.Injective digest) (before after : Workspace)
 (update : Bool) : ReportsChange before after
  (checkWorkspaceFreshness digest after (some (storedFingerprint digest before)) update).1 ↔
  (∀ path,before.at path≠none → after.at path≠none) ∨
   50 ≤ (((listFiles after).map ScannedFile.path).filter fun path =>
    before.at path≠after.at path).length := by
 have hdi:(storedFingerprint digest before).fingerprint =
  digest (fingerprintText after.tree) ↔ ∀path,before.at path=after.at path := by
  rw [←fingerprintText_eq_iff]
  exact hdigest.eq_iff
 by_cases hsa : ∀path,before.at path=after.at path
 · have hfr:=hdi.mpr hsa
   refine iff_of_true ⟨by simp [checkWorkspaceFreshness,hfr,hsa],fun h=>absurd hsa h⟩ ?_
   exact .inl fun path h=>hsa path ▸ h
 have hch:=mt hdi.mp hsa
 have hf:(checkWorkspaceFreshness digest after (some (storedFingerprint digest before))
  update).1.changedFiles=_ := (by simp [checkWorkspaceFreshness,hch] :
   _=changedFiles after (storedFingerprint digest before)).trans changedFiles_eq
 have hstatus:(checkWorkspaceFreshness digest after (some (storedFingerprint digest before))
  update).1.status = .changed := by simp [checkWorkspaceFreshness,hch]
 have hre:((listFiles before).map ScannedFile.path).filter
  (fun path=>after.at path=none)=[] ↔
   ∀path,before.at path≠none → after.at path≠none := by
  simp [filter_eq_nil_iff,at_ne_none]
 rw [←hre,←length_eq_zero_iff]
 generalize hr : ((listFiles before).map ScannedFile.path).filter
  (fun path=>after.at path=none)=removed
 generalize hc : (((listFiles after).map ScannedFile.path).filter fun path=>
  before.at path≠after.at path)=changed at hf ⊢
 have hl:(differingPaths before after).length=removed.length+changed.length:=by
  rw [differingPaths,hr,hc,length_append]
 constructor
 · intro h
   obtain ⟨-,hco,-,-⟩:=h.changed hsa
   rw [hf,hl,length_take] at hco
   omega
 · intro h
   refine ⟨by simp [hstatus,hsa],fun _=>⟨hstatus,?_,?_,?_⟩⟩
   · rw [hf,hl,length_take]
     omega
   · rw [hf,←hc]
     exact (nodup_paths.filter _).sublist (take_sublist _ _)
   · intro path hme
     rw [hf,←hc] at hme
     exact of_decide_eq_true (mem_filter.mp (mem_of_mem_take hme)).2

def noFiles : Workspace := ⟨[],by simp [walkEntries],by simp [walkEntries]⟩

def oneFile : Workspace :=
 ⟨[("a.ts",.file 1 0)],by simp [walkEntries,FileNode.walk],by simp [walkEntries,FileNode.walk]⟩

theorem reportsChange_added : ReportsChange noFiles oneFile
 (checkWorkspaceFreshness id oneFile (some (storedFingerprint id noFiles)) false).1 :=
 (reportsChange_iff Function.injective_id noFiles oneFile false).mpr (.inl fun _ h=>absurd rfl h)

theorem removed_not_reportsChange : ¬ ReportsChange oneFile noFiles
 (checkWorkspaceFreshness id noFiles (some (storedFingerprint id oneFile)) false).1 := by
 intro h
 have hch:¬∀path,oneFile.at path=noFiles.at path:=
  fun hsa=>absurd (hsa "a.ts") (by decide)
 exact absurd (h.changed hch).2.1 (by decide)

end
end DhKit.Context
