import Mathlib.Data.Set.Finite.Basic
import DhKit.FileTools
import DhKit.SeparatedText

/-!
# Where the file tools write

The check of a requested path reads names only: it accepts what lies below the repository root by
its names, unless the first name below it begins with two dots.
-/
namespace DhKit.FileTools
open CommitRules KeyedTables LinkedFiles PosixPaths TextPatterns List

section
variable {cwd : WorkingDirectory} {repoRoot requested : String} {names : List String}

structure Below (names : List String) : Prop where
 isName : ∀ name ∈ names,IsName name
 first : ∀ name ∈ names.head?,¬ StartsWith ".." name

theorem startsWith_intercalate (name : String) (names : List String) :
 StartsWith ".." ("/".intercalate (name :: names)) ↔ StartsWith ".." name := by
 unfold StartsWith
 rw [String.toList_intercalate]
 cases names with
 | nil => simp
 | cons next names =>
  exact SeparatedText.prefix_append_cons_iff (by decide)

theorem isAbsolute_intercalate {name : String} (h:IsName name) (names : List String) :
 isAbsolute ("/".intercalate (name :: names))=false := by
 have hch:name.toList≠[]:=by simpa using h.nonempty
 have hh:∀more,(name.toList ++ more).head? ≠ some '/' := by
  intro more
  rw [head?_append_of_ne_nil _ hch]
  intro hslash
  exact h.noSlash (mem_of_mem_head? hslash)
 unfold isAbsolute
 rw [String.toList_intercalate]
 cases names with
 | nil =>
  have ho:=hh []
  rw [append_nil] at ho
  rw [map_cons,map_nil,intercalate_singleton]
  exact decide_eq_false ho
 | cons next names =>
  exact decide_eq_false (hh _)

theorem isName_repository (cwd : WorkingDirectory) (repoRoot : String) :
 ∀name∈cwd.repository repoRoot,IsName name :=
 isName_resolve cwd.names repoRoot

def Refused (cwd : WorkingDirectory) (repoRoot requested : String) : Prop :=
 StartsWith ".." (relative (cwd.repository repoRoot)
  (resolve (cwd.repository repoRoot) requested)) ∨
 isAbsolute (relative (cwd.repository repoRoot) (resolve (cwd.repository repoRoot) requested))

theorem resolveRepoPath_of_refused (h:Refused cwd repoRoot requested) :
 resolveRepoPath cwd repoRoot requested =
  .error (.message ("Path '" ++ requested ++ "' is outside the repository.")) :=
 if_pos h

theorem resolveRepoPath_of_not_refused (h:¬Refused cwd repoRoot requested) :
 ∃resolved,resolveRepoPath cwd repoRoot requested = .ok resolved ∧
  resolved.absolutePath=resolve (cwd.repository repoRoot) requested :=
 ⟨_,if_neg h,rfl⟩

theorem not_refused_iff : ¬Refused cwd repoRoot requested ↔ ∃names,Below names ∧
  resolve (cwd.repository repoRoot) requested=cwd.repository repoRoot++names := by
 constructor
 swap
 · rintro ⟨names,hb,hsa⟩
   rw [Refused,hsa,relative,relativeNames_append]
   cases names with
   | nil => decide
   | cons name names =>
    rw [startsWith_intercalate,isAbsolute_intercalate (hb.isName name mem_cons_self)]
    simpa using hb.first name rfl
 intro hba
 have hn:=isName_resolve (isName_repository cwd repoRoot) requested
 rw [Refused,not_or] at hba
 by_cases hp : cwd.repository repoRoot <+: resolve (cwd.repository repoRoot) requested
 · obtain ⟨names,hsa⟩:=hp
   rw [←hsa] at hn hba
   refine ⟨names,⟨fun name hme=>hn name (by simp [hme]),?_⟩,hsa.symm⟩
   intro first hf
   cases names with
   | nil => cases hf
   | cons name names =>
    cases hf
    rw [relative,relativeNames_append,startsWith_intercalate] at hba
    exact hba.1
 · obtain ⟨names,hn⟩:= relativeNames_of_not_prefix hp
   rw [relative,hn,startsWith_intercalate] at hba
   exact absurd (by decide) hba.1

theorem resolveRepoPath_eq_ok {resolved : ResolvedRepoPath}
 (h:resolveRepoPath cwd repoRoot requested = .ok resolved) :
 ¬Refused cwd repoRoot requested ∧
  resolved.absolutePath=resolve (cwd.repository repoRoot) requested := by
 by_cases hr : Refused cwd repoRoot requested
 · rw [resolveRepoPath_of_refused hr] at h
   cases h
 obtain ⟨other,ho,hp⟩:=resolveRepoPath_of_not_refused hr
 rw [ho] at h
 cases h
 exact ⟨hr,hp⟩

end

section
variable {cwd : WorkingDirectory} {repoRoot : String} {root : Path} {fs : FileSystem}
 {names : List String} {name : String} {place goal : Path}

theorem IsName.steps (h:IsName name) : FileSystem.Steps name :=
 ⟨h.nonempty,h.notDot,h.notDots⟩

theorem Below.of_append {more : List String} (h:Below (names++more)) : Below names := by
 constructor
 · intro name hme
   exact h.isName name (mem_append_left _ hme)
 · intro name hf
   apply h.first name
   cases names with
   | nil => cases hf
   | cons first rest => exact hf

section
variable (cwd : WorkingDirectory) (repoRoot : String) (root : Path) (fs : FileSystem)

/-- The repository root leads to the directory `root`. -/
structure Rooted :
 Prop where
 located : fs.locate (cwd.repository repoRoot) = .ok root
 directory : fs.lookup root = some .directory

/-- Every symbolic link that an accepted path names leads to a place inside the root, or nowhere. -/
def LinksStay : Prop :=
 ∀ requested place target goal,¬ Refused cwd repoRoot requested →
  fs.locateEntry (resolve (cwd.repository repoRoot) requested) = .ok place →
  fs.lookup place = some (.link target) →
  fs.locate (resolve (cwd.repository repoRoot) requested) = .ok goal → root <+: goal

end

theorem LinksStay.below (h:LinksStay cwd repoRoot root fs) (hb:Below names)
 {target : String}
 (hp:fs.locateEntry (cwd.repository repoRoot++names) = .ok place)
 (hl:fs.lookup place=some (.link target))
 (hgo:fs.locate (cwd.repository repoRoot++names) = .ok goal) : root <+: goal := by
 have hn:∀name∈cwd.repository repoRoot++names,IsName name:=by
  intro name hme
  rcases mem_append.mp hme with hroot|hb'
  · exact isName_repository cwd repoRoot name hroot
  · exact hb.isName name hb'
 have htext:resolve (cwd.repository repoRoot) (render (cwd.repository repoRoot++names)) =
  cwd.repository repoRoot++names := resolve_render hn
 apply h (render (cwd.repository repoRoot++names)) place target goal
 · exact not_refused_iff.mpr ⟨names,hb,htext⟩
 · rw [htext]
   exact hp
 · exact hl
 · rw [htext]
   exact hgo

section
variable (hroot : Rooted cwd repoRoot root fs) (hstay : LinksStay cwd repoRoot root fs)
include hroot hstay

theorem locate_inside (hb:Below names) (hgo:fs.locate (cwd.repository repoRoot++names) = .ok goal) :
 root <+: goal := by
 -- along the names: each leads into the directory before it, or is a link
 induction names using List.reverseRecOn generalizing goal with
 | nil =>
  rw [append_nil,hroot.located] at hgo
  cases hgo
  exact prefix_rfl
 | append_singleton names name ih =>
  have hn:=hb.isName name (by simp)
  rw [←append_assoc] at hgo
  obtain ⟨folder,hf,hdi,hp⟩:=FileSystem.locate_concat (IsName.steps hn)
   hgo
  have hi:=ih hb.of_append hf
  by_cases hl : ∃target,fs.lookup (folder++[name])=some (.link target)
  · obtain ⟨target,hl⟩:=hl
    apply hstay.below hb _ hl
    · rw [←append_assoc]
      exact hgo
    · rw [←append_assoc]
      exact FileSystem.locateEntry_concat.mpr ⟨folder,hf,hdi,rfl⟩
  · rw [hp fun target h=>hl ⟨target,h⟩]
    exact hi.trans (prefix_append _ _)

theorem locateEntry_inside (hb:Below (names++[name]))
 (hp:fs.locateEntry (cwd.repository repoRoot++names++[name]) = .ok place) :
 root <+: place := by
 obtain ⟨folder,hf,-,rfl⟩:=FileSystem.locateEntry_concat.mp hp
 exact (locate_inside hroot hstay hb.of_append hf).trans (prefix_append _ _)

end

end

section
variable {cwd : WorkingDirectory} {repoRoot : String} {root : Path} {disk : Disk}
 {names : List String}
 {content : String} {α β : Type} {x : Commit Disk Fault α} {f : α → Tool β}

structure Confined (cwd : WorkingDirectory) (repoRoot : String) (root : Path)
 (before after : Disk) : Prop where
 inside : ∀ place ∈ after.touched,place ∈ before.touched ∨ root <+: place
 rooted : Rooted cwd repoRoot root after.files

theorem Confined.refl (hroot:Rooted cwd repoRoot root disk.files) :
 Confined cwd repoRoot root disk disk :=
 ⟨fun _ hme=>.inl hme,hroot⟩

theorem Confined.trans {first second third : Disk} (h:Confined cwd repoRoot root first second)
 (h':Confined cwd repoRoot root second third) : Confined cwd repoRoot root first third := by
 refine ⟨fun place hme=>?_,h'.rooted⟩
 rcases h'.inside place hme with ho|hn
 · exact h.inside place ho
 · exact .inr hn

def Reads (x : Tool α) : Prop := ∀ disk,(x disk).2 = disk

theorem reads_pure (a : α) : Reads (pure a : Tool α) := fun _=>rfl

theorem reads_throwing (x : Except ToolError α) : Reads (throwing x) := by
 intro disk
 cases x <;> rfl

theorem reads_readFileSync (path : Path) : Reads (readFileSync path) := by
 intro disk
 unfold readFileSync call Disk.read
 dsimp only
 cases disk.files.readFile path <;> rfl

theorem confined_after_read {x : Tool α} (hsa:(x disk).2=disk)
 (hroot:Rooted cwd repoRoot root disk.files)
 (h:∀a,x disk=(.ok a,disk) → Confined cwd repoRoot root disk (f a disk).2) :
 Confined cwd repoRoot root disk ((x >>= f) disk).2 := by
 rcases hr : x disk with ⟨result,after⟩
 rw [hr] at hsa
 subst hsa
 cases result with
 | ok a =>
  rw [bind_of_ok hr]
  exact h a hr
 | error e =>
  rw [bind_of_error hr]
  exact .refl hroot

theorem Confined.then_read {x : Tool α}
 (h:Confined cwd repoRoot root disk (x disk).2) (hf:∀a,Reads (f a)) :
 Confined cwd repoRoot root disk ((x >>= f) disk).2 := by
 rcases hr : x disk with ⟨result,after⟩
 rw [hr] at h
 cases result with
 | ok a =>
  rw [bind_of_ok hr,hf a after]
  exact h
 | error e =>
  rw [bind_of_error hr]
  exact h

theorem readFileSync_eq_ok {path : Path} (h:readFileSync path disk=(.ok content,disk)) :
 disk.files.readFile path = .ok content := by
 unfold readFileSync call Disk.read at h
 cases hread : disk.files.readFile path with
 | error fault => simp [hread] at h
 | ok text => simpa [hread] using h

theorem Rooted.keep {fs fs' : FileSystem} (h:Rooted cwd repoRoot root fs)
 (hk:fs.KeepsFolders fs') : Rooted cwd repoRoot root fs' :=
 ⟨hk.locate h.located h.directory,hk.directory _ h.directory⟩

section
variable (hroot : Rooted cwd repoRoot root disk.files)
include hroot

theorem confined_change {f : FileSystem → Except Fault (Path × FileSystem)}
 (h:∀place files,f disk.files = .ok (place,files) →
  root <+: place ∧ Rooted cwd repoRoot root files) :
 Confined cwd repoRoot root disk (call (Disk.change f) disk).2 := by
 unfold call Disk.change
 cases hru : f disk.files with
 | error fault => exact .refl hroot
 | ok result =>
  obtain ⟨hi,hr⟩:=h result.1 result.2 hru
  refine ⟨fun place hme=>?_,hr⟩
  rcases mem_append.mp hme with ho|hn
  · exact .inl ho
  · rw [mem_singleton.mp hn]
    exact .inr hi

theorem confined_writeFileSync (hstay:LinksStay cwd repoRoot root disk.files) (hb:Below names) :
 Confined cwd repoRoot root disk
  (writeFileSync (cwd.repository repoRoot++names) content disk).2 := by
 apply confined_change hroot
 intro place files hwr
 obtain ⟨hp,hk,-⟩:=writeFile_eq_ok hwr
 exact ⟨locate_inside hroot hstay hb hp,hroot.keep hk⟩

theorem confined_unlinkSync (hstay:LinksStay cwd repoRoot root disk.files) (hb:Below names)
 (hread:disk.files.readFile (cwd.repository repoRoot++names) = .ok content) :
 Confined cwd repoRoot root disk (unlinkSync (cwd.repository repoRoot++names) disk).2 := by
 rcases eq_nil_or_concat' names with rfl|⟨above,name,rfl⟩
 · -- the root itself is a directory and cannot be read
   obtain ⟨place,hp,hf⟩:=readFile_eq_ok.mp hread
   rw [append_nil,hroot.located] at hp
   cases hp
   rw [hroot.directory] at hf
   cases hf
 · rw [←append_assoc] at hread ⊢
   apply confined_change hroot
   intro place files hu
   obtain ⟨hp,hk⟩:=unlink_eq_ok hread hu
   exact ⟨locateEntry_inside hroot hstay hb hp,hroot.keep hk⟩

end

theorem call_disk : (call x disk).2=(x disk).2 := by
 unfold call
 split <;> simp_all

theorem call_of_ok {a : α} {after : Disk}
 (h:x disk=(.ok a,after)) : call x disk=(.ok a,after) := by
 rw [call,h]

theorem confined_mkdir_write {k : Unit → Tool β} (hk:∀u,Reads (k u))
 (hroot:Rooted cwd repoRoot root disk.files)
 (hstay:LinksStay cwd repoRoot root disk.files) (hb:Below names) (hn:names≠[]) :
 Confined cwd repoRoot root disk ((mkdirAround (cwd.repository repoRoot++names) >>= fun _=>
  writeFileSync (cwd.repository repoRoot++names) content >>= k) disk).2 := by
 obtain ⟨above,name,rfl⟩:=(eq_nil_or_concat' names).resolve_left hn
 have hna:=IsName.steps (hb.isName name (by simp))
 have hst:∀name∈cwd.repository repoRoot,FileSystem.Steps name:=
  fun name hme=>IsName.steps (isName_repository cwd repoRoot name hme)
 have hab:∀name∈above,FileSystem.Steps name:=
  fun name hme=>IsName.steps (hb.of_append.isName name hme)
 have har:mkdirAround (cwd.repository repoRoot++(above++[name])) =
  call (Disk.mkdirAll (cwd.repository repoRoot++above).reverse) := by
  rw [mkdirAround,←append_assoc,dropLast_concat]
 rw [har]
 rcases mkdirAll_cases hroot.located hroot.directory hst hab disk.touched with
  hsa | ⟨files,made,hru,hmad⟩
 · refine confined_after_read (call_disk.trans hsa) hroot fun u _=>?_
   exact (confined_writeFileSync hroot hstay hb).then_read hk
 have hca:call (Disk.mkdirAll (cwd.repository repoRoot++above).reverse) disk =
  (.ok (),⟨files,disk.touched++made⟩) := call_of_ok hru
 obtain ⟨outer,inner,folder,hsp,ho,hf,hp,hnew,hdi,hfr⟩:=
  hmad.route
 obtain ⟨hl,hkept⟩:=hmad.keeps _ _ hroot.located hroot.directory
 have hr:Rooted cwd repoRoot root files:=⟨hl,hkept⟩
 have hi:root <+: folder:=by
  apply locate_inside hroot hstay _ ho
  rw [append_assoc,append_cancel_left_eq] at hsp
  rw [hsp] at hb
  exact hb.of_append.of_append
 have hma:Confined cwd repoRoot root disk ⟨files,disk.touched++made⟩:=by
  refine ⟨fun place hme=>?_,hr⟩
  rcases mem_append.mp hme with hol|hnew
  · exact .inl hol
  · exact .inr (hi.trans (hp place hnew))
 rw [bind_of_ok hca]
 refine hma.trans (Confined.then_read ?_ hk)
 apply confined_change hr
 intro place files' hwr
 obtain ⟨hpl,hke,-⟩:=writeFile_eq_ok hwr
 refine ⟨?_,hr.keep hke⟩
 have hpla:∀target,files.lookup (folder++inner++[name])≠some (.link target):=by
  rw [hfr name]
  exact nofun
 have hgo:=FileSystem.locate_extend hnew hdi hna hpla
 rw [append_assoc,hpl] at hgo
 cases hgo
 rw [append_assoc]
 exact hi.trans (prefix_append _ _)

end

section
variable {cwd : WorkingDirectory} {repoRoot : String} {root : Path} {disk : Disk}

theorem not_stat_root (hroot:Rooted cwd repoRoot root disk.files) {names : List String}
 (h:disk.files.stat (cwd.repository repoRoot++names)≠some .directory) : names≠[] := by
 rintro rfl
 apply h
 simp [FileSystem.stat,hroot.located,hroot.directory]

theorem stat_of_readFile {path : Path} {content : String}
 (h:disk.files.readFile path = .ok content) : disk.files.stat path=some (.file content) := by
 obtain ⟨place,hp,hf⟩:=readFile_eq_ok.mp h
 simp [FileSystem.stat,hp,hf]

theorem contentBefore_eq (path : Path) (disk : Disk) :
 contentBefore path disk =
  if (disk.files.stat path).isSome then readFileSync path disk else (.ok "",disk) := by
 change (if (disk.files.stat path).isSome=true then readFileSync path else pure "" : Tool String)
  disk=_
 split_ifs <;> rfl

theorem reads_contentBefore (path : Path) : Reads (contentBefore path) := by
 intro disk
 rw [contentBefore_eq]
 split_ifs
 · exact reads_readFileSync path disk
 · rfl

theorem stat_of_contentBefore {path : Path} {before : String}
 (h:contentBefore path disk=(.ok before,disk)) :
 disk.files.stat path≠some .directory := by
 intro hdi
 rw [contentBefore_eq,hdi] at h
 have hf:=stat_of_readFile (readFileSync_eq_ok h)
 rw [hdi] at hf
 cases hf

section
variable (hroot : Rooted cwd repoRoot root disk.files)
include hroot

theorem confined_resolved {α : Type} {requested : String} {f : ResolvedRepoPath → Tool α}
 (h:∀names relativePath,Below names →
  Confined cwd repoRoot root disk (f ⟨cwd.repository repoRoot++names,relativePath⟩ disk).2) :
 Confined cwd repoRoot root disk
  ((throwing (resolveRepoPath cwd repoRoot requested) >>= f) disk).2 := by
 refine confined_after_read (reads_throwing _ disk) hroot fun resolved hru=>?_
 cases hr : resolveRepoPath cwd repoRoot requested with
 | error e =>
  rw [hr] at hru
  cases hru
 | ok other =>
  rw [hr] at hru
  cases hru
  obtain ⟨hre,hp⟩:=resolveRepoPath_eq_ok hr
  obtain ⟨names,hb,hsa⟩:=not_refused_iff.mp hre
  obtain ⟨absolutePath,relativePath⟩:=resolved
  rw [hsa] at hp
  dsimp only at hp
  rw [hp]
  exact h names relativePath hb

section
variable (hstay : LinksStay cwd repoRoot root disk.files)
include hstay

theorem confined_applyOperation (operation : PatchOperation) :
 Confined cwd repoRoot root disk (applyOperation cwd repoRoot operation disk).2 := by
 cases operation with
 | add filePath addedLines =>
  refine confined_resolved hroot fun names relativePath hb=>?_
  refine confined_after_read rfl hroot fun found hf=>?_
  cases found with
  | true => exact .refl hroot
  | false =>
   have hst:disk.files.stat (cwd.repository repoRoot++names)≠some .directory:=by
    intro hdi
    have hquery:((disk.files.stat (cwd.repository repoRoot++names)).isSome)=false:=by
     simpa [existsSync,query] using hf
    simp [hdi] at hquery
   exact confined_mkdir_write (fun _=>reads_pure _) hroot hstay hb (not_stat_root hroot hst)
 | delete filePath =>
  refine confined_resolved hroot fun names relativePath hb=>?_
  refine confined_after_read (reads_readFileSync _ disk) hroot fun before hread=>?_
  exact (confined_unlinkSync hroot hstay hb (readFileSync_eq_ok hread)).then_read
   fun _=>reads_pure _
 | update filePath hunks =>
  refine confined_resolved hroot fun names relativePath hb=>?_
  refine confined_after_read (reads_readFileSync _ disk) hroot fun before hread=>?_
  refine confined_after_read (reads_throwing _ disk) hroot fun after haf=>?_
  exact (confined_writeFileSync hroot hstay hb).then_read fun _=>reads_pure _

theorem confined_executeEditTool (input : EditInput) :
 Confined cwd repoRoot root disk (executeEditTool cwd repoRoot input disk).2 := by
 refine confined_resolved hroot fun names relativePath hb=>?_
 refine confined_after_read (reads_readFileSync _ disk) hroot fun original hread=>?_
 by_cases hf : Contains input.oldText original
 · rw [if_pos hf]
   exact (confined_writeFileSync hroot hstay hb).then_read fun _=>reads_pure _
 · rw [if_neg hf]
   exact .refl hroot

theorem confined_executeWriteTool (input : WriteInput) :
 Confined cwd repoRoot root disk (executeWriteTool cwd repoRoot input disk).2 := by
 refine confined_resolved hroot fun names relativePath hb=>?_
 refine confined_after_read (reads_contentBefore _ disk) hroot fun before hbe=>?_
 have hn:=not_stat_root hroot (stat_of_contentBefore hbe)
 by_cases hdi : input.createDirs=true
 · simp only [hdi,if_true]
   exact confined_mkdir_write (fun _=>reads_pure _) hroot hstay hb hn
 · simp only [hdi]
   exact (confined_writeFileSync hroot hstay hb).then_read fun _=>reads_pure _

end

end

end

section
variable {cwd : WorkingDirectory} {repoRoot : String} {root : Path} {fs : FileSystem} {disk : Disk}

inductive ToolCall where
 | write (input : WriteInput)
 | edit (input : EditInput)
 | applyPatch (patch : String)

namespace ToolCall

def execute (cwd : WorkingDirectory) (repoRoot : String) (disk : Disk) : ToolCall → Disk
 | write input => (executeWriteTool cwd repoRoot input disk).2
 | edit input => (executeEditTool cwd repoRoot input disk).2
 | applyPatch patch => (executeApplyPatchTool cwd repoRoot patch disk).2

def StaysInside (cwd : WorkingDirectory) (repoRoot : String) (root : Path) (fs : FileSystem)
 (call : ToolCall) : Prop :=
 ∀ place ∈ (call.execute cwd repoRoot ⟨fs,[]⟩).touched,root <+: place

def Single : ToolCall → Prop
 | write _ => True
 | edit _ => True
 | applyPatch patch => ∀ operations,parseApplyPatch patch = .ok operations → operations.length ≤ 1

end ToolCall

def OperationsFind (cwd : WorkingDirectory) (repoRoot : String) (P : FileSystem → Prop) :
 List PatchOperation → Disk → Prop
 | [],_ => True
 | operation::operations,disk => P disk.files ∧
  ∀ summary after,applyOperation cwd repoRoot operation disk = (.ok summary,after) →
   OperationsFind cwd repoRoot P operations after

def ToolCall.Finds (cwd : WorkingDirectory) (repoRoot : String) (P : FileSystem → Prop)
 (fs : FileSystem) : ToolCall → Prop
 | write _ => P fs
 | edit _ => P fs
 | applyPatch patch => ∀ operations,parseApplyPatch patch = .ok operations →
  OperationsFind cwd repoRoot P operations ⟨fs,[]⟩

theorem confined_applyOperations {operations : List PatchOperation}
 (hroot:Rooted cwd repoRoot root disk.files)
 (hstay:OperationsFind cwd repoRoot (LinksStay cwd repoRoot root) operations disk) :
 Confined cwd repoRoot root disk (applyOperations cwd repoRoot operations disk).2 := by
 induction operations generalizing disk with
 | nil => exact .refl hroot
 | cons operation operations ih =>
  have hf:=confined_applyOperation hroot hstay.1 operation
  rcases hr : applyOperation cwd repoRoot operation disk with ⟨result,after⟩
  rw [hr] at hf
  cases result with
  | error e =>
   rw [applyOperations,bind_of_error hr]
   exact hf
  | ok summary =>
   rw [applyOperations,bind_of_ok hr]
   refine hf.trans (Confined.then_read ?_ fun _=>reads_pure _)
   exact ih hf.rooted (hstay.2 summary after hr)

theorem confined_execute (hroot:Rooted cwd repoRoot root fs) (call : ToolCall)
 (hstay:call.Finds cwd repoRoot (LinksStay cwd repoRoot root) fs) :
 Confined cwd repoRoot root ⟨fs,[]⟩ (call.execute cwd repoRoot ⟨fs,[]⟩) := by
 cases call with
 | write input => exact @confined_executeWriteTool cwd repoRoot root ⟨fs,[]⟩ hroot hstay input
 | edit input => exact @confined_executeEditTool cwd repoRoot root ⟨fs,[]⟩ hroot hstay input
 | applyPatch patch =>
  refine confined_after_read (reads_throwing _ _) hroot fun operations hr=>?_
  refine Confined.then_read (confined_applyOperations hroot ?_) fun _=>reads_pure _
  apply hstay
  cases hp : parseApplyPatch patch with
  | error e =>
   rw [hp] at hr
   cases hr
  | ok parsed =>
   rw [hp] at hr
   cases hr
   rfl

theorem ToolCall.StaysInside.of_finds (hroot:Rooted cwd repoRoot root fs) {call : ToolCall}
 (hstay:call.Finds cwd repoRoot (LinksStay cwd repoRoot root) fs) :
 call.StaysInside cwd repoRoot root fs := by
 intro place hme
 rcases (confined_execute hroot call hstay).inside place hme with hnone|hi
 · cases hnone
 · exact hi

theorem ToolCall.Single.finds {P : FileSystem → Prop} {call : ToolCall} (hsi:call.Single)
 (h:P fs) : call.Finds cwd repoRoot P fs := by
 cases call with
 | write input => exact h
 | edit input => exact h
 | applyPatch patch =>
  intro operations hp
  have hl:=hsi operations hp
  cases operations with
  | nil => trivial
  | cons operation operations =>
   cases operations with
   | nil => exact ⟨h,fun _ _ _=>trivial⟩
   | cons second operations => simp at hl

end

section
variable {cwd : WorkingDirectory} {repoRoot requested : String} {root goal : Path}
 {fs : FileSystem}

theorem executeWriteTool_touched (hr:¬Refused cwd repoRoot requested)
 (hgo:fs.locate (resolve (cwd.repository repoRoot) requested) = .ok goal)
 (hf:fs.lookup goal≠some .directory) :
 (executeWriteTool cwd repoRoot ⟨requested,"",false⟩ ⟨fs,[]⟩).2.touched=[goal] := by
 obtain ⟨resolved,hre,hp⟩:=resolveRepoPath_of_not_refused hr
 have hb :
   ∃before,contentBefore resolved.absolutePath ⟨fs,[]⟩=(.ok before,⟨fs,[]⟩) := by
  rw [contentBefore_eq,hp]
  simp only [FileSystem.stat,hgo]
  cases hen : fs.lookup goal with
  | none => exact ⟨"",rfl⟩
  | some entry =>
   cases entry with
   | directory => exact absurd hen hf
   | link target => exact absurd hen ((FileSystem.locate_spec hgo).2 target)
   | file content =>
    have hread:fs.readFile (resolve (cwd.repository repoRoot) requested) = .ok content:=
     readFile_eq_ok.mpr ⟨goal,hgo,hen⟩
    exact ⟨content,call_of_ok (by rw [Disk.read,hread])⟩
 obtain ⟨before,hb⟩:=hb
 obtain ⟨files,hwr⟩:=writeFile_of_place hgo hf
 have hwritten:writeFileSync resolved.absolutePath "" ⟨fs,[]⟩=(.ok (),⟨files,[goal]⟩) := by
  apply call_of_ok
  rw [Disk.change,hp,hwr]
  rfl
 have hth:throwing (resolveRepoPath cwd repoRoot requested) ⟨fs,[]⟩ =
  (.ok resolved,⟨fs,[]⟩) := by
  rw [hre]
  rfl
 rw [executeWriteTool,bind_of_ok hth,bind_of_ok hb]
 simp only [Bool.false_eq_true,if_false]
 rw [bind_of_ok hwritten]
 rfl

theorem exists_free_name (fs : FileSystem) (folder : Path) :
 ∃name,IsName name ∧ ¬StartsWith ".." name ∧ fs.lookup (folder ++ [name])=none := by
 let candidate (n : Nat) : Path := folder ++ [String.ofList (List.replicate (n + 1) 'x')]
 have hi:Function.Injective candidate:=by
  intro n m hsa
  have hl:=congrArg List.length
   (String.ofList_injective (append_singleton_inj.mp hsa).2)
  simpa using hl
 obtain ⟨place,⟨n,rfl⟩,hf⟩:=
  (Set.infinite_range_of_injective hi).exists_notMem_finset
  (fs.entries.rows.map Prod.fst).toFinset
 refine ⟨String.ofList (List.replicate (n + 1) 'x'),⟨?_,?_,?_,?_⟩,?_,?_⟩
 · intro h
   simpa using congrArg String.toList h
 · intro h
   simpa [replicate_succ] using congrArg String.toList h
 · intro h
   simpa [replicate_succ] using congrArg String.toList h
 · simp
 · simp [StartsWith,replicate_succ]
 · rw [mem_toFinset,←HashMap.isSome_get_iff] at hf
   exact Option.not_isSome_iff_eq_none.mp hf

theorem linksStay_of_single (hroot:Rooted cwd repoRoot root fs)
 (h:∀call : ToolCall,call.Single → call.StaysInside cwd repoRoot root fs) :
 LinksStay cwd repoRoot root fs := by
 intro requested place target goal hr hpl hl hgo
 by_cases hfi : fs.lookup goal=some .directory
 swap
 · have hst:=h (.write ⟨requested,"",false⟩) trivial
   apply hst goal
   rw [ToolCall.execute,executeWriteTool_touched hr hgo hfi]
   exact mem_singleton.mpr rfl
 -- the link leads to a directory: a new file there would lie outside
 by_cases htext : requested = ""
 · subst htext
   have hse:resolve (cwd.repository repoRoot) "" = cwd.repository repoRoot := rfl
   rw [hse,hroot.located] at hgo
   cases hgo
   exact prefix_rfl
 obtain ⟨name,hn,hdo,hfr⟩:=exists_free_name fs goal
 have hch:resolve (cwd.repository repoRoot) (requested ++ "/" ++ name) =
  resolve (cwd.repository repoRoot) requested++[name] := resolve_child hn htext
 have hr':¬Refused cwd repoRoot (requested ++ "/" ++ name) := by
  obtain ⟨names,hb,hsa⟩:=not_refused_iff.mp hr
  apply not_refused_iff.mpr
  refine ⟨names++[name],⟨?_,?_⟩,?_⟩
  · intro other hme
    rcases mem_append.mp hme with ho|hnew
    · exact hb.isName other ho
    · rw [mem_singleton.mp hnew]
      exact hn
  · intro first hf
    cases names with
    | nil =>
     cases hf
     exact hdo
    | cons other names => exact hb.first first hf
  · rw [hch,hsa,append_assoc]
 have hp:∀target,fs.lookup (goal++[name])≠some (.link target):=by simp [hfr]
 have hgo':fs.locate (resolve (cwd.repository repoRoot) (requested ++ "/" ++ name)) =
  .ok (goal++[name]) := by
  rw [hch]
  exact FileSystem.locate_extend hgo hfi (IsName.steps hn) hp
 have hst:=h (.write ⟨requested ++ "/" ++ name,"",false⟩) trivial
 have hi:root <+: goal++[name]:=by
  apply hst
  rw [ToolCall.execute,executeWriteTool_touched hr' hgo' (by simp [hfr])]
  exact mem_singleton.mpr rfl
 rcases prefix_concat_iff.mp hi with hsa|hpr
 · have hdi:=hroot.directory
   rw [hsa,hfr] at hdi
   cases hdi
 · exact hpr

end

section
variable {cwd : WorkingDirectory} {repoRoot : String} {root : Path} {fs : FileSystem}

theorem accepted_iff {requested first : String} {rest : List String}
 (h:resolve (cwd.repository repoRoot) requested=cwd.repository repoRoot++first::rest) :
 (∃resolved,resolveRepoPath cwd repoRoot requested = .ok resolved) ↔
  ¬StartsWith ".." first := by
 constructor
 · rintro ⟨resolved,hr⟩
   obtain ⟨names,hb,hsa⟩:=not_refused_iff.mp (resolveRepoPath_eq_ok hr).1
   rw [h,append_cancel_left_eq] at hsa
   exact hb.first first (by rw [←hsa]; rfl)
 intro hf
 have hn:=isName_resolve (isName_repository cwd repoRoot) requested
 rw [h] at hn
 have hb:Below (first::rest):=by
  constructor
  · intro name hme
    exact hn name (mem_append_right _ hme)
  · intro name hh
    cases hh
    exact hf
 obtain ⟨resolved,hr,-⟩:=
  resolveRepoPath_of_not_refused (not_refused_iff.mpr ⟨_,hb,h⟩)
 exact ⟨resolved,hr⟩

/-- The calls of one operation stay inside the root exactly if no link that an accepted path names
leads out of it, every call stays inside it if its operations find file systems of that kind, and
the accepted paths below the root are those whose first name does not begin with two dots. -/
theorem file_tools_confined_iff (hroot : Rooted cwd repoRoot root fs) :
 ((∀ call : ToolCall,call.Single → call.StaysInside cwd repoRoot root fs) ↔
  LinksStay cwd repoRoot root fs) ∧
 (∀ call : ToolCall,call.Finds cwd repoRoot (LinksStay cwd repoRoot root) fs →
  call.StaysInside cwd repoRoot root fs) ∧
 ∀ requested first rest,
  resolve (cwd.repository repoRoot) requested = cwd.repository repoRoot++first::rest →
  ((∃ resolved,resolveRepoPath cwd repoRoot requested = .ok resolved) ↔
   ¬ StartsWith ".." first) := by
 refine ⟨⟨linksStay_of_single hroot,?_⟩,?_,?_⟩
 · intro hstay call hsi
   exact .of_finds hroot (hsi.finds hstay)
 · intro call hf
   exact .of_finds hroot hf
 · intro requested first rest h
   exact accepted_iff h

def bareFiles : FileSystem where
 entries := Table.empty.upsert ([],.directory)
 root_directory := by decide
 folder_directory := by
  intro folder name entry h
  rw [HashMap.get_upsert,if_neg (by simp)] at h
  cases h

def repoFiles : FileSystem :=
 bareFiles.put ["repo"] .directory (by decide) (by decide) (by decide)

def linkedFiles : FileSystem :=
 let folders := repoFiles.put ["etc"]
  .directory (by decide) (by decide) (by decide)
 folders.put ["repo","out"] (.link "/etc") (by decide) (by decide) (by decide)

def rootProcess : WorkingDirectory := ⟨[],by simp⟩

theorem linkedFiles_rooted : Rooted rootProcess "/repo" ["repo"] linkedFiles :=
 ⟨by decide,by decide⟩

theorem file_tools_confined_iff_linked :
 Rooted rootProcess "/repo" ["repo"] linkedFiles ∧
  ((∃ resolved,resolveRepoPath rootProcess "/repo" "src/a.ts" = .ok resolved) ↔
   ¬ StartsWith ".." "src") :=
 ⟨linkedFiles_rooted,
  (file_tools_confined_iff linkedFiles_rooted).2.2 "src/a.ts" "src" ["a.ts"] (by decide)⟩

/-- A write through the link makes a file in the other directory, and a file of the repository
whose name begins with two dots is refused. -/
theorem file_tools_leave_repository :
 ((ToolCall.write ⟨"out/passwd","x",false⟩).execute rootProcess "/repo"
  ⟨linkedFiles,[]⟩).touched = [["etc","passwd"]] ∧
  ¬ ["repo"] <+: ["etc","passwd"] ∧
  resolve (rootProcess.repository "/repo") "..env" = ["repo","..env"] ∧
  resolveRepoPath rootProcess "/repo" "..env" =
   .error (.message "Path '..env' is outside the repository.") := by
 refine ⟨?_,?_,?_,?_⟩ <;> decide +kernel

end

end DhKit.FileTools
