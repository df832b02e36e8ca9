import DhKit.FileEdits

/-!
# Failed patches

`executeApplyPatchTool` applies the operations of a patch one after the other, each on the files
that the ones before it left.
-/
namespace DhKit.FileTools
open CommitRules KeyedTables LinkedFiles PosixPaths List

section
variable {cwd : WorkingDirectory} {repoRoot : String} {disk after : Disk} {α : Type} {u : Unit}

@[simp] theorem stops_throwing {x : Except ToolError α} :
 Stops (throwing x) disk after ↔ (∃e,x = .error e) ∧ disk=after := by
 cases x with
 | ok b => simp [throwing]
 | error e => simp [throwing]

@[simp] theorem stops_call {x : Commit Disk Fault α} :
 Stops (call x) disk after ↔ Stops x disk after := by
 unfold Stops call
 rcases x disk with ⟨fault|b,next⟩ <;> simp

@[simp] theorem stops_read {f : FileSystem → Except Fault α} :
 Stops (Disk.read f) disk after ↔ (∃fault,f disk.files = .error fault) ∧ disk=after := by
 simp [Stops,Disk.read]

@[simp] theorem stops_diskChange {f : FileSystem → Except Fault (Path × FileSystem)} :
 Stops (Disk.change f) disk after ↔ (∃fault,f disk.files = .error fault) ∧ disk=after := by
 unfold Stops Disk.change
 rcases f disk.files with fault|⟨place,files⟩ <;> simp

/-- The same files with the same contents. -/
def SameFiles (fs fs' : FileSystem) : Prop :=
 ∀ place content,fs.lookup place = some (.file content) ↔ fs'.lookup place = some (.file content)

theorem sameFiles_mkdir {fs fs' : FileSystem} {path place : Path}
 (h:fs.mkdir path = .ok (place,fs')) : SameFiles fs fs' := by
 unfold FileSystem.mkdir at h
 split at h
 · cases h
 split_ifs at h with hf
 cases h
 intro other content
 rw [FileSystem.lookup_put]
 split_ifs with hp
 · simp [hp,hf.2.2]
 · exact Iff.rfl

theorem keeps_makeFolder (fs : FileSystem) (path : Path) :
 Keeps (fun disk=>SameFiles fs disk.files) (Disk.makeFolder path) := by
 intro disk h
 rcases makeFolder_cases path disk with hsa|⟨place,files,hma,hr⟩
 · rw [hsa]
   exact h
 · rw [hr]
   exact fun place content=>(h place content).trans (sameFiles_mkdir hma place content)

theorem keeps_mkdirAll (fs : FileSystem) (names : List String) :
 Keeps (fun disk=>SameFiles fs disk.files) (Disk.mkdirAll names) := by
 induction names with
 | nil => exact Keeps.pure ()
 | cons name above ih =>
  refine Keeps.bind (Keeps.query _) fun lacks=>?_
  cases lacks with
  | true => exact Keeps.bind ih fun _=>keeps_makeFolder fs _
  | false => exact keeps_makeFolder fs _

/-- An operation that fails leaves the files alone. It may have made folders. -/
theorem sameFiles_of_stops {operation : PatchOperation}
 (h:Stops (applyOperation cwd repoRoot operation) disk after) :
 SameFiles disk.files after.files := by
 cases operation with
 | add filePath addedLines =>
  simp only [applyOperation,stops_bind,stops_throwing,yields_throwing,existsSync,stops_query,
   yields_query,false_or] at h
  rcases h with ⟨-,rfl⟩|⟨resolved,_,⟨-,rfl⟩,_,_,⟨rfl,rfl⟩,h⟩
  · exact fun _ _=>Iff.rfl
  split_ifs at h with hth
  · cases stops_fail.mp h
    exact fun _ _=>Iff.rfl
  simp only [mkdirAround,writeFileSync,stops_bind,stops_call,yields_call,stops_diskChange,
   stops_pure,and_false,exists_false,or_false] at h
  rcases h with h|⟨_,_,hma,-,rfl⟩
  · exact (keeps_mkdirAll disk.files _).stops (fun _ _=>Iff.rfl) h
  · exact (keeps_mkdirAll disk.files _).yields (fun _ _=>Iff.rfl) hma
 | delete filePath | update filePath hunks =>
  simp only [applyOperation,readFileSync,writeFileSync,unlinkSync,stops_bind,stops_throwing,
   yields_throwing,stops_call,yields_call,stops_read,yields_read,stops_diskChange,stops_pure,
   and_false,exists_false,or_false] at h
  obtain rfl : disk=after := by grind
  exact fun _ _=>Iff.rfl

/-- An update that writes the text that the file at the place has. -/
def Idle (cwd : WorkingDirectory) (repoRoot : String) (files : FileSystem) (place : Path) :
 PatchOperation → Prop
 | .update filePath hunks => ∃ resolved content,
  resolveRepoPath cwd repoRoot filePath = .ok resolved ∧
  files.locate resolved.absolutePath = .ok place ∧
  files.lookup place = some (.file content) ∧
  applyUpdateHunks content hunks resolved.relativePath = .ok content
 | .add _ _ | .delete _ => False

theorem writeFile_same {fs : FileSystem} {path place : Path} {content : String}
 (hp:fs.locate path = .ok place) (hl:fs.lookup place=some (.file content)) :
 fs.writeFile path content = .ok (place,fs) := by
 obtain ⟨fs',hw⟩ : ∃fs',fs.writeFile path content = .ok (place,fs'):=
  writeFile_of_place hp (by simp [hl])
 unfold FileSystem.writeFile at hw ⊢
 rw [hp] at hw ⊢
 dsimp only at hw ⊢
 split_ifs at hw ⊢ with hf
 have hr:fs.entries.upsert (place,.file content)=fs.entries:=by
  obtain ⟨before,after,hb,ha⟩:=
   Table.rows_upsert_of_mem (a:=(place,Entry.file content)) (HashMap.get_eq_some.mp hl) rfl
  exact Table.ext_rows (ha.trans hb.symm)
 rcases fs with ⟨entries,hroot,hfolder⟩
 simpa [FileSystem.put] using hr

theorem yields_of_idle {place : Path} {operation : PatchOperation}
 (h:Idle cwd repoRoot disk.files place operation) :
 ∃summary,Yields (applyOperation cwd repoRoot operation) disk summary
  ⟨disk.files,disk.touched++[place]⟩ := by
 cases operation with
 | add filePath addedLines | delete filePath => exact h.elim
 | update filePath hunks =>
  obtain ⟨resolved,content,hr,hp,hl,hh⟩:=h
  have hw:disk.files.writeFile resolved.absolutePath content = .ok (place,disk.files):=
   writeFile_same hp hl
  have hread:=readFile_eq_ok.mpr ⟨place,hp,hl⟩
  simp [applyOperation,readFileSync,writeFileSync,hr,hread,hh,hw]

/-- On the files as they are, only idle updates come before an operation that fails. -/
def FailsUnapplied (cwd : WorkingDirectory) (repoRoot : String) :
 List PatchOperation → Disk → Prop
 | [],_ => True
 | operation::operations,disk =>
  (∃ after,Stops (applyOperation cwd repoRoot operation) disk after) ∨
  ∃ place,Idle cwd repoRoot disk.files place operation ∧
   FailsUnapplied cwd repoRoot operations ⟨disk.files,disk.touched++[place]⟩

/-- An operation that is not an idle update is applied, and a later one fails. -/
inductive AppliedBeforeFailure (cwd : WorkingDirectory) (repoRoot : String) (after : Disk) :
 List PatchOperation → Disk → Prop
 | here {operation : PatchOperation} {operations : List PatchOperation} {disk next : Disk}
  {summary : DiffSummary} : (∀ place,¬ Idle cwd repoRoot disk.files place operation) →
  Yields (applyOperation cwd repoRoot operation) disk summary next →
  Stops (applyOperations cwd repoRoot operations) next after →
  AppliedBeforeFailure cwd repoRoot after (operation::operations) disk
 | later {operation : PatchOperation} {operations : List PatchOperation} {disk : Disk}
  {place : Path} : Idle cwd repoRoot disk.files place operation →
  AppliedBeforeFailure cwd repoRoot after operations ⟨disk.files,disk.touched++[place]⟩ →
  AppliedBeforeFailure cwd repoRoot after (operation::operations) disk

theorem stops_cons {operation : PatchOperation} {operations : List PatchOperation} :
 Stops (applyOperations cwd repoRoot (operation::operations)) disk after ↔
  Stops (applyOperation cwd repoRoot operation) disk after ∨
  ∃summary next,Yields (applyOperation cwd repoRoot operation) disk summary next ∧
   Stops (applyOperations cwd repoRoot operations) next after := by
 simp [applyOperations]

theorem sameFiles_of_failsUnapplied {operations : List PatchOperation}
 (h:FailsUnapplied cwd repoRoot operations disk)
 (hs:Stops (applyOperations cwd repoRoot operations) disk after) :
 SameFiles disk.files after.files := by
 induction operations generalizing disk with
 | nil => simp [applyOperations] at hs
 | cons operation operations ih =>
  rcases stops_cons.mp hs with hs|⟨summary,next,hy,hs⟩
  · exact sameFiles_of_stops hs
  rcases h with ⟨stopped,hst⟩|⟨place,hi,h⟩
  · obtain ⟨e,he⟩:=hst
    cases hy.symm.trans he
  obtain ⟨summary',hy'⟩:=yields_of_idle hi
  cases hy.symm.trans hy'
  have hf:=ih h hs
  exact hf

theorem appliedBeforeFailure {operations : List PatchOperation}
 (h:¬FailsUnapplied cwd repoRoot operations disk)
 (hs:Stops (applyOperations cwd repoRoot operations) disk after) :
 AppliedBeforeFailure cwd repoRoot after operations disk := by
 induction operations generalizing disk with
 | nil => exact absurd trivial h
 | cons operation operations ih =>
  obtain ⟨hst,hi⟩:=not_or.mp h
  rcases stops_cons.mp hs with hs|⟨summary,next,hy,hs⟩
  · exact absurd ⟨after,hs⟩ hst
  by_cases hid:∃place,Idle cwd repoRoot disk.files place operation
  · obtain ⟨place,hid⟩:=hid
    obtain ⟨summary',hy'⟩:=yields_of_idle hid
    cases hy.symm.trans hy'
    exact .later hid (ih (fun hf=>hi ⟨place,hid,hf⟩) hs)
  · exact .here (not_exists.mp hid) hy hs

/-- A patch that fails leaves every file as it was. -/
def AllOrNothing (cwd : WorkingDirectory) (repoRoot patch : String) (disk : Disk) : Prop :=
 ∀ after,Stops (executeApplyPatchTool cwd repoRoot patch) disk after →
  SameFiles disk.files after.files

/-- The second operation fails because the file that it deletes is not there. -/
def halfPatch : String :=
 "*** Begin Patch\n*** Delete File: a\n*** Delete File: b\n*** End Patch"

end

end DhKit.FileTools
