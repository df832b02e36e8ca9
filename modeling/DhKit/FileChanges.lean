import DhKit.CommitRules
import DhKit.LinkedFiles

/-!
# Changes of a file system with links

A computation that changes files keeps a record of the places it touched.
-/
namespace DhKit.LinkedFiles
open CommitRules KeyedTables PosixPaths List

structure Disk where
 files : FileSystem
 /-- The places of the entries that were made, changed or removed. -/
 touched : List Path

namespace Disk

def read {α : Type} (call : FileSystem → Except Fault α) : Commit Disk Fault α := fun disk =>
 (call disk.files,disk)

def change (call : FileSystem → Except Fault (Path × FileSystem)) : Commit Disk Fault Unit :=
 fun disk =>
  match call disk.files with
  | .ok (place,files) => (.ok (),⟨files,disk.touched++[place]⟩)
  | .error fault => (.error fault,disk)

def makeFolder (path : Path) : Commit Disk Fault Unit := fun disk =>
 match disk.files.mkdir path with
 | .ok (place,files) => (.ok (),⟨files,disk.touched++[place]⟩)
 | .error fault =>
  if fault = .alreadyThere ∧ disk.files.stat path = some .directory then (.ok (),disk)
  else (.error fault,disk)

def lacksFolder (path : Path) (disk : Disk) : Bool :=
 match disk.files.locateEntry path with
 | .error .missing => true
 | _ => false

/-- Make a folder and the missing ones around it. The names are given from the last one on. -/
def mkdirAll : List String → Commit Disk Fault Unit
 | [] => pure ()
 | name::above => do
  if ← query (lacksFolder (name::above).reverse) then
   mkdirAll above
  makeFolder (name::above).reverse

end Disk

section
variable {fs fs' : FileSystem} {path folder place : Path} {name content : String}

theorem mkdir_eq_ok (h:fs.mkdir (path++[name]) = .ok (place,fs')) :
 ∃folder,fs.locate path = .ok folder ∧ fs.lookup folder=some .directory ∧
  place=folder++[name] ∧ fs.lookup place=none ∧ fs.KeepsFolders fs' ∧
  ∀other,fs'.lookup other=if other=place then some .directory else fs.lookup other := by
 unfold FileSystem.mkdir at h
 split at h
 · cases h
 · next hp =>
   split_ifs at h with hfr
   cases h
   obtain ⟨folder,hpa,hf,rfl⟩:=FileSystem.locateEntry_concat.mp hp
   refine ⟨folder,hpa,hf,rfl,hfr.2.2,?_,FileSystem.lookup_put _ _ _⟩
   apply FileSystem.keepsFolders_put
   simp [hfr.2.2]

theorem mkdir_of_free (hpa:fs.locate path = .ok folder)
 (hf:fs.lookup folder=some .directory) (hfr:fs.lookup (folder++[name])=none) :
 ∃fs',fs.mkdir (path++[name]) = .ok (folder++[name],fs') := by
 have hp:fs.locateEntry (path++[name]) = .ok (folder++[name]):=
  FileSystem.locateEntry_concat.mpr ⟨folder,hpa,hf,rfl⟩
 unfold FileSystem.mkdir
 rw [hp]
 have hok:folder++[name]≠[] ∧ fs.lookup (folder++[name]).dropLast=some .directory ∧
  fs.lookup (folder++[name])=none := by
  rw [dropLast_concat]
  exact ⟨by simp,hf,hfr⟩
 exact ⟨_,dif_pos hok⟩

theorem writeFile_eq_ok (h:fs.writeFile path content = .ok (place,fs')) :
 fs.locate path = .ok place ∧ fs.KeepsFolders fs' ∧
  ∀other,fs'.lookup other=if other=place then some (.file content) else fs.lookup other := by
 unfold FileSystem.writeFile at h
 split at h
 · cases h
 · next hp =>
   split_ifs at h with hf
   cases h
   exact ⟨hp,FileSystem.keepsFolders_put _ _ _ (FileSystem.locate_spec hp).2,
    FileSystem.lookup_put _ _ _⟩

theorem writeFile_of_place (hp:fs.locate path = .ok place)
 (hen:fs.lookup place≠some .directory) :
 ∃fs',fs.writeFile path content = .ok (place,fs') := by
 unfold FileSystem.writeFile
 rw [hp]
 have hroot:place≠[]:=by
  rintro rfl
  exact hen fs.root_directory
 exact ⟨_,dif_pos ⟨hroot,(FileSystem.locate_spec hp).1,hen⟩⟩

theorem readFile_eq_ok :
 fs.readFile path = .ok content ↔
  ∃place,fs.locate path = .ok place ∧ fs.lookup place=some (.file content) := by
 unfold FileSystem.readFile
 cases hp : fs.locate path with
 | error fault => simp
 | ok place =>
  simp only [Except.ok.injEq,exists_eq_left']
  cases hen : fs.lookup place with
  | none => simp
  | some entry => cases entry <;> simp

theorem unlink_eq_ok (hread:fs.readFile (path++[name]) = .ok content)
 (h:fs.unlink (path++[name]) = .ok (place,fs')) :
 fs.locateEntry (path++[name]) = .ok place ∧ fs.KeepsFolders fs' := by
 unfold FileSystem.unlink at h
 split at h
 · cases h
 · next hp =>
   split_ifs at h with hdi hmi
   cases h
   refine ⟨hp,?_⟩
   obtain ⟨folder,hpa,hfo,rfl⟩:=FileSystem.locateEntry_concat.mp hp
   obtain ⟨file,hfi,hco⟩:=readFile_eq_ok.mp hread
   apply FileSystem.keepsFolders_erase
   obtain ⟨middle,left,hf,-,hl⟩:=
    (FileSystem.locate_iff.mp hfi).split (cons_ne_nil _ _) fs.root_directory
   rw [(FileSystem.locate_iff.mp hpa).unique hf]
   exact ⟨left,file,content,hl,hco⟩

end

section
variable {fs files : FileSystem} {base root path : Path} {name : String} {touched made : List Path}
 {disk : Disk} {place : Path}

/-- Folders were made below a directory that the path leads through behind `base`, and the path
now leads to a new folder. -/
structure MadeFolders (fs : FileSystem) (base path : Path) (files : FileSystem)
 (made : List Path) : Prop where
 route : ∃ above below folder,path = base++above++below ∧
  fs.locate (base++above) = .ok folder ∧ fs.lookup folder = some .directory ∧
  (∀ place ∈ made,folder <+: place) ∧ files.locate path = .ok (folder++below) ∧
  files.lookup (folder++below) = some .directory ∧
  ∀ name,files.lookup (folder++below++[name]) = none
 keeps : ∀ path place,fs.locate path = .ok place → fs.lookup place = some .directory →
  files.locate path = .ok place ∧ files.lookup place = some .directory

theorem makeFolder_cases (path : Path) (disk : Disk) :
 (Disk.makeFolder path disk).2=disk ∨
  ∃place files,disk.files.mkdir path = .ok (place,files) ∧
   Disk.makeFolder path disk=(.ok (),⟨files,disk.touched++[place]⟩) := by
 unfold Disk.makeFolder
 cases disk.files.mkdir path with
 | ok made => exact .inr ⟨made.1,made.2,rfl,rfl⟩
 | error fault =>
  left
  dsimp only
  split_ifs <;> rfl

theorem makeFolder_of_ok (h:disk.files.mkdir path = .ok (place,files)) :
 Disk.makeFolder path disk=(.ok (),⟨files,disk.touched++[place]⟩) := by
 unfold Disk.makeFolder
 rw [h]

theorem MadeFolders.one (hsteps:FileSystem.Steps name)
 (h:fs.mkdir (base++path++[name]) = .ok (place,files)) :
 MadeFolders fs base (base++path++[name]) files [place] := by
 obtain ⟨folder,hpa,hf,rfl,hnone,hk,hl⟩:=mkdir_eq_ok h
 have hf':=hk.directory _ hf
 refine ⟨⟨path,[name],folder,rfl,hpa,hf,?_,?_,?_,?_⟩,?_⟩
 · simp
 · apply FileSystem.locate_extend (hk.locate hpa hf) hf' hsteps
   simp [hl]
 · simp [hl]
 · intro child
   rw [hl,if_neg (by simp)]
   by_contra hso
   obtain ⟨entry,hen⟩:=Option.ne_none_iff_exists'.mp hso
   rw [FileSystem.folder_of_lookup hen] at hnone
   cases hnone
 · intro path place hp hdi
   exact ⟨hk.locate hp hdi,hk.directory _ hdi⟩

theorem MadeFolders.next (h:MadeFolders fs base path files made)
 (hsteps:FileSystem.Steps name) :
 ∃place files',files.mkdir (path++[name]) = .ok (place,files') ∧
  MadeFolders fs base (path++[name]) files' (made++[place]) := by
 obtain ⟨above,below,folder,hpa,hab,hf,hmad,hp,hdi,hfr⟩:=h.route
 obtain ⟨files',hma⟩:=mkdir_of_free hp hdi (hfr name)
 refine ⟨_,files',hma,?_⟩
 obtain ⟨folder',hp',hf',hsa,hnone,hk,hl⟩:=mkdir_eq_ok hma
 have hdi':=hk.directory _ hdi
 refine ⟨⟨above,below++[name],folder,?_,hab,hf,?_,?_,?_,?_⟩,?_⟩
 · rw [hpa]
   simp
 · intro place hme
   rcases mem_append.mp hme with ho|hn
   · exact hmad place ho
   · rw [mem_singleton.mp hn,append_assoc]
     exact prefix_append _ _
 · rw [←append_assoc]
   apply FileSystem.locate_extend (hk.locate hp hdi) hdi' hsteps
   simp [hl]
 · simp [hl]
 · intro child
   rw [←append_assoc,hl,if_neg (by simp)]
   by_contra hso
   obtain ⟨entry,hen⟩:=Option.ne_none_iff_exists'.mp hso
   rw [FileSystem.folder_of_lookup hen] at hnone
   cases hnone
 · intro path place ho ho'
   obtain ⟨hn,hn'⟩:=h.keeps path place ho ho'
   exact ⟨hk.locate hn hn',hk.directory _ hn'⟩

theorem mkdirAll_concat (path : Path) (name : String) (disk : Disk) :
 Disk.mkdirAll (path++[name]).reverse disk =
  if Disk.lacksFolder (path++[name]) disk then
   (Disk.mkdirAll path.reverse >>= fun _=>Disk.makeFolder (path++[name])) disk
  else Disk.makeFolder (path++[name]) disk := by
 rw [reverse_append,reverse_singleton,singleton_append,Disk.mkdirAll,reverse_cons,reverse_reverse]
 change (if Disk.lacksFolder (path++[name]) disk=true then _ else _ : Commit Disk Fault Unit)
  disk=_
 split_ifs <;> rfl

theorem makeFolder_of_lacks (h:Disk.lacksFolder path disk=true) :
 Disk.makeFolder path disk=(.error .missing,disk) := by
 unfold Disk.lacksFolder at h
 split at h
 · next hen => simp [Disk.makeFolder,FileSystem.mkdir,hen]
 · cases h

section
variable (hbase : fs.locate base = .ok root) (hroot : fs.lookup root = some .directory)
 (hsteps : ∀ name ∈ base,FileSystem.Steps name)
include hbase hroot hsteps

theorem mkdirAll_of_directory :
 (Disk.mkdirAll base.reverse ⟨fs,touched⟩).2=⟨fs,touched⟩ := by
 rcases eq_nil_or_concat' base with rfl|⟨path,name,rfl⟩
 · rfl
 have hn:=hsteps name (by simp)
 obtain ⟨folder,hf,hdi,hp⟩:=FileSystem.locate_concat hn hbase
 have hen:fs.locateEntry (path++[name]) = .ok (folder++[name]):=
  FileSystem.locateEntry_concat.mpr ⟨folder,hf,hdi,rfl⟩
 have hl:Disk.lacksFolder (path++[name]) ⟨fs,touched⟩=false:=by
  simp [Disk.lacksFolder,hen]
 rw [mkdirAll_concat,hl]
 rcases makeFolder_cases (path++[name]) ⟨fs,touched⟩ with hsa|⟨place,files,hok,-⟩
 · exact hsa
 obtain ⟨folder',hf',-,rfl,hnone,-⟩:=mkdir_eq_ok hok
 rw [hf] at hf'
 cases hf'
 rw [hp (by simp [hnone]),hnone] at hroot
 cases hroot

theorem mkdirAll_cases (hp:∀name∈path,FileSystem.Steps name) (touched : List Path) :
 (Disk.mkdirAll (base++path).reverse ⟨fs,touched⟩).2=⟨fs,touched⟩ ∨
  ∃files made,Disk.mkdirAll (base++path).reverse ⟨fs,touched⟩ =
   (.ok (),⟨files,touched++made⟩) ∧ MadeFolders fs base (base++path) files made := by
 -- along the names behind the base: the walk stops going up at the latest there
 induction path using List.reverseRecOn with
 | nil =>
  left
  rw [append_nil]
  exact mkdirAll_of_directory hbase hroot hsteps
 | append_singleton path name ih =>
  have hn:=hp name (by simp)
  rw [←append_assoc,mkdirAll_concat]
  by_cases hl : Disk.lacksFolder (base++path++[name]) ⟨fs,touched⟩=true
  · rw [if_pos hl]
    change (Commit.bind _ _ _).2=_ ∨ ∃files made,Commit.bind _ _ _=_ ∧ _
    unfold Commit.bind
    rcases ih fun name hme=>hp name (by simp [hme]) with hsa|⟨files,made,hr,hma⟩
    · left
      rcases hr : Disk.mkdirAll (base++path).reverse ⟨fs,touched⟩ with ⟨result,disk⟩
      rw [hr] at hsa
      subst hsa
      cases result with
      | error fault => rfl
      | ok _ => exact congrArg Prod.snd (makeFolder_of_lacks hl)
    · right
      obtain ⟨place,files',hnex,hma'⟩:=hma.next hn
      refine ⟨files',made++[place],?_,hma'⟩
      rw [hr]
      dsimp only
      rw [makeFolder_of_ok hnex,append_assoc]
  · rw [if_neg hl]
    rcases makeFolder_cases (base++path++[name]) ⟨fs,touched⟩ with
     hsa | ⟨place,files,hok,hr⟩
    · exact .inl hsa
    · exact .inr ⟨files,[place],hr,.one hn hok⟩

end

end

end DhKit.LinkedFiles
