import DhKit.KeyedTables
import DhKit.PosixPaths

/-!
# File systems with symbolic links

Every entry has one real path.
-/
namespace DhKit.LinkedFiles
open KeyedTables PosixPaths List

abbrev Path := List String

inductive Entry where
 | file (content : String)
 | directory
 | link (target : String)
 deriving DecidableEq

inductive Fault where
 | missing
 | notDirectory
 | tooManyLinks
 | isDirectory
 | alreadyThere
 deriving DecidableEq

structure FileSystem where
 entries : HashMap Path Entry
 root_directory : entries.get [] = some .directory
 folder_directory : ∀ folder name entry,entries.get (folder++[name]) = some entry →
  entries.get folder = some .directory

namespace FileSystem

section
variable (fs : FileSystem)

section
variable (path : Path)

def lookup : Option Entry := fs.entries.get path

/-- Walk from a real folder; `follow` goes on behind a link. -/
def walkNames (follow : Path → List String → Except Fault Path) :
 Path → List String → Except Fault Path
 | folder,[] => .ok folder
 | folder,part::todo =>
  if part = "" ∨ part = "." then walkNames follow folder todo
  else if part = ".." then walkNames follow folder.dropLast todo
  else
   match fs.lookup (folder++[part]) with
   | none => if todo = [] then .ok (folder++[part]) else .error .missing
   | some (.file _) => if todo = [] then .ok (folder++[part]) else .error .notDirectory
   | some .directory => walkNames follow (folder++[part]) todo
   | some (.link target) => follow (if isAbsolute target then [] else folder)
    (parts target++todo)

def walk : Nat → Path → List String → Except Fault Path
 | 0 => fs.walkNames fun _ _ => .error .tooManyLinks
 | links+1 => fs.walkNames (walk links)

def maxLinks : Nat := 40

def locate : Except Fault Path := fs.walk maxLinks [] path

/-- The place of the entry that a path names, itself not followed. -/
def locateEntry : Except Fault Path :=
 match path.getLast? with
 | none => .ok []
 | some name =>
  match fs.locate path.dropLast with
  | .error fault => .error fault
  | .ok folder =>
   match fs.lookup folder with
   | some .directory => .ok (folder++[name])
   | some _ => .error .notDirectory
   | none => .error .missing

def stat : Option Entry :=
 match fs.locate path with
 | .ok place => fs.lookup place
 | .error _ => none

def put (place : Path) (entry : Entry) (hplace : place≠[])
 (hfolder : fs.lookup place.dropLast = some .directory)
 (hentry : fs.lookup place≠some .directory) : FileSystem where
 entries := fs.entries.upsert (place,entry)
 root_directory := by
  rw [HashMap.get_upsert,if_neg hplace.symm]
  exact fs.root_directory
 folder_directory := by
  intro folder name found hfound
  rw [HashMap.get_upsert] at hfound
  have hold : fs.entries.get folder = some .directory := by
   by_cases hsame : folder++[name] = place
   · rw [← hsame,dropLast_concat] at hfolder
     exact hfolder
   · rw [if_neg hsame] at hfound
     exact fs.folder_directory folder name found hfound
  have hother : folder≠place := by
   rintro rfl
   exact hentry hold
  rw [HashMap.get_upsert,if_neg hother]
  exact hold

def erase (place : Path) (hentry : fs.lookup place≠some .directory) : FileSystem where
 entries := fs.entries.deleteWhere fun row => row.1 = place
 root_directory := by
  have hplace : ([] : Path)≠place := by
   rintro rfl
   exact hentry fs.root_directory
  rw [HashMap.get_deleteKey,if_neg hplace]
  exact fs.root_directory
 folder_directory := by
  intro folder name found hfound
  rw [HashMap.get_deleteKey] at hfound ⊢
  split_ifs at hfound with hname
  have hold := fs.folder_directory folder name found hfound
  have hother : folder≠place := by
   rintro rfl
   exact hentry hold
  rw [if_neg hother]
  exact hold

def readFile : Except Fault String :=
 match fs.locate path with
 | .error fault => .error fault
 | .ok place =>
  match fs.lookup place with
  | some (.file content) => .ok content
  | some _ => .error .isDirectory
  | none => .error .missing

/-- Write a file, also through a link as the last name. The place is returned too. -/
def writeFile (content : String) : Except Fault (Path × FileSystem) :=
 match fs.locate path with
 | .error fault => .error fault
 | .ok place =>
  if h : place≠[] ∧ fs.lookup place.dropLast = some .directory ∧
   fs.lookup place≠some .directory then
   .ok (place,fs.put place (.file content) h.1 h.2.1 h.2.2)
  else .error .isDirectory

def mkdir : Except Fault (Path × FileSystem) :=
 match fs.locateEntry path with
 | .error fault => .error fault
 | .ok place =>
  if h : place≠[] ∧ fs.lookup place.dropLast = some .directory ∧ fs.lookup place = none then
   .ok (place,fs.put place .directory h.1 h.2.1 (by rw [h.2.2]; exact nofun))
  else .error .alreadyThere

/-- Remove the entry that a path names, a link and not what it leads to. -/
def unlink : Except Fault (Path × FileSystem) :=
 match fs.locateEntry path with
 | .error fault => .error fault
 | .ok place =>
  if h : fs.lookup place = some .directory then .error .isDirectory
  else if fs.lookup place = none then .error .missing
  else .ok (place,fs.erase place h)

end

end

def Steps (part : String) : Prop := part ≠ "" ∧ part ≠ "." ∧ part ≠ ".."

/-- The walks that succeed, with a bound on the links they follow. -/
inductive Walks (fs : FileSystem) : Nat → Path → List String → Path → Prop
 | done {links folder} : Walks fs links folder [] folder
 | skip {links folder part todo place} : part = "" ∨ part = "." →
  Walks fs links folder todo place → Walks fs links folder (part::todo) place
 | up {links todo place} {folder : Path} :
  Walks fs links folder.dropLast todo place → Walks fs links folder (".." :: todo) place
 | last {links folder part} : Steps part → fs.lookup (folder++[part])≠some .directory →
  (∀ target,fs.lookup (folder++[part])≠some (.link target)) →
  Walks fs links folder [part] (folder++[part])
 | down {links folder part todo place} : Steps part →
  fs.lookup (folder++[part]) = some .directory →
  Walks fs links (folder++[part]) todo place → Walks fs links folder (part::todo) place
 | follow {links folder part todo target place} : Steps part →
  fs.lookup (folder++[part]) = some (.link target) →
  Walks fs links (if isAbsolute target then [] else folder) (parts target++todo) place →
  Walks fs (links+1) folder (part::todo) place

section
variable {fs : FileSystem} {links : Nat} {folder place : Path} {part : String}
 {todo : List String} {follow : Path → List String → Except Fault Path}

theorem walkNames_of_steps (hst:Steps part) :
 fs.walkNames follow folder (part::todo) =
  match fs.lookup (folder++[part]) with
  | none => if todo=[] then .ok (folder++[part]) else .error .missing
  | some (.file _) => if todo=[] then .ok (folder++[part]) else .error .notDirectory
  | some .directory => fs.walkNames follow (folder++[part]) todo
  | some (.link target) => follow (if isAbsolute target then [] else folder)
   (parts target++todo) := by
 have hsk:¬(part = "" ∨ part = ".") := by
  rintro (h|h)
  · exact hst.1 h
  · exact hst.2.1 h
 rw [walkNames,if_neg hsk,if_neg hst.2.2]

theorem walks_of_walkNames (hf:∀folder part todo target place,Steps part →
  fs.lookup (folder++[part])=some (.link target) →
  follow (if isAbsolute target then [] else folder) (parts target++todo) = .ok place →
  Walks fs links folder (part::todo) place)
 (h:fs.walkNames follow folder todo = .ok place) : Walks fs links folder todo place := by
 induction todo generalizing folder with
 | nil =>
  cases h
  exact .done
 | cons part todo ih =>
  by_cases hsk : part = "" ∨ part = "."
  · rw [walkNames,if_pos hsk] at h
    exact .skip hsk (ih h)
  by_cases hup : part = ".."
  · rw [walkNames,if_neg hsk,if_pos hup] at h
    rw [hup]
    exact .up (ih h)
  have hst:Steps part:=⟨fun h=>hsk (.inl h),fun h=>hsk (.inr h),hup⟩
  rw [walkNames_of_steps hst] at h
  split at h
  · next hnone =>
    split_ifs at h with hto
    cases h
    rw [hto]
    apply Walks.last hst <;> simp [hnone]
  · next hfi =>
    split_ifs at h with hto
    cases h
    rw [hto]
    apply Walks.last hst <;> simp [hfi]
  · next hdi => exact .down hst hdi (ih h)
  · next hl => exact hf _ _ _ _ _ hst hl h

theorem walk_iff : fs.walk links folder todo = .ok place ↔ Walks fs links folder todo place := by
 constructor
 · intro h
   induction links generalizing folder todo place with
   | zero =>
    apply walks_of_walkNames _ h
    intro folder part todo target place hst hl hnone
    cases hnone
   | succ links ih =>
    apply walks_of_walkNames _ h
    intro folder part todo target place hst hl hf
    exact .follow hst hl (ih hf)
 · intro h
   induction h with
   | @done links folder => cases links <;> rfl
   | @skip links folder part todo place hsk hwa ih =>
    cases links <;> rw [walk,walkNames,if_pos hsk] <;> exact ih
   | @up links todo place folder hwa ih =>
    cases links <;> rw [walk,walkNames,if_neg (by decide),if_pos rfl] <;> exact ih
   | @last links folder part hst hdi hl =>
    have hen:∀follow,fs.walkNames follow folder [part] = .ok (folder++[part]):=by
     intro follow
     rw [walkNames_of_steps hst]
     split
     · rfl
     · rfl
     · next h => exact absurd h hdi
     · next target h => exact absurd h (hl target)
    cases links <;> exact hen _
   | @down links folder part todo place hst hdi hwa ih =>
    cases links <;> rw [walk,walkNames_of_steps hst,hdi] <;> exact ih
   | @follow links folder part todo target place hst hl hwa ih =>
    rw [walk,walkNames_of_steps hst,hl]
    exact ih

end

section
variable {fs : FileSystem} {links : Nat} {folder place : Path} {part : String}
 {todo : List String} {more : List String}

theorem folder_of_lookup {name : String} {entry : Entry}
 (h:fs.lookup (folder++[name])=some entry) : fs.lookup folder=some .directory :=
 fs.folder_directory folder name entry h

theorem lookup_dropLast (h:fs.lookup folder=some .directory) :
 fs.lookup folder.dropLast=some .directory := by
 induction folder using List.reverseRecOn with
 | nil => exact h
 | append_singleton folder name =>
  rw [dropLast_concat]
  exact folder_of_lookup h

theorem lookup_start (h:fs.lookup folder=some .directory) (target : String) :
 fs.lookup (if isAbsolute target then [] else folder)=some .directory := by
 split
 · exact fs.root_directory
 · exact h

section
variable (h : Walks fs links folder todo place) {links' : Nat}
include h

theorem Walks.place_spec (hfolder:fs.lookup folder=some .directory) :
 fs.lookup place.dropLast=some .directory ∧ ∀target,fs.lookup place≠some (.link target) := by
 induction h with
 | done => exact ⟨lookup_dropLast hfolder,by simp [hfolder]⟩
 | skip _ _ ih => exact ih hfolder
 | up _ ih => exact ih (lookup_dropLast hfolder)
 | last _ _ hl =>
  rw [dropLast_concat]
  exact ⟨hfolder,hl⟩
 | down _ hdi _ ih => exact ih hdi
 | follow _ _ _ ih => exact ih (lookup_start hfolder _)

theorem Walks.mono (hle:links ≤ links') :
 Walks fs links' folder todo place := by
 induction h generalizing links' with
 | done => exact .done
 | skip hsk _ ih => exact .skip hsk (ih hle)
 | up _ ih => exact .up (ih hle)
 | last hst hdi hl => exact .last hst hdi hl
 | down hst hdi _ ih => exact .down hst hdi (ih hle)
 | follow hst hl _ ih =>
  obtain ⟨more,rfl⟩:=Nat.exists_eq_add_of_lt hle
  exact .follow hst hl (ih (Nat.le_add_right _ more))

theorem Walks.unique {place' : Path}
 (h':Walks fs links' folder todo place') : place=place' := by
 have hwa:=walk_iff.mpr (h.mono (le_max_left links links'))
 have hwa':=walk_iff.mpr (h'.mono (le_max_right links links'))
 exact Except.ok.inj (hwa.symm.trans hwa')

theorem Walks.append (hplace:fs.lookup place=some .directory) :
 ∃left,∀more goal,
  Walks fs left place more goal → Walks fs links folder (todo++more) goal := by
 induction h with
 | @done links folder => exact ⟨links,fun _ _ h=>h⟩
 | skip hsk _ ih =>
  obtain ⟨left,hl⟩:=ih hplace
  exact ⟨left,fun more goal h=>.skip hsk (hl more goal h)⟩
 | up _ ih =>
  obtain ⟨left,hl⟩:=ih hplace
  exact ⟨left,fun more goal h=>.up (hl more goal h)⟩
 | last _ hother _ => exact absurd hplace hother
 | down hst hdi _ ih =>
  obtain ⟨left,hl⟩:=ih hplace
  exact ⟨left,fun more goal h=>.down hst hdi (hl more goal h)⟩
 | follow hst hli _ ih =>
  obtain ⟨left,hl⟩:=ih hplace
  refine ⟨left,fun more goal h=>.follow hst hli ?_⟩
  have hal:=hl more goal h
  rw [append_assoc] at hal
  exact hal

end

theorem Walks.split_here (h:Walks fs links folder more place)
 (hfolder:fs.lookup folder=some .directory) :
 ∃middle left,Walks fs links folder [] middle ∧ fs.lookup middle=some .directory ∧
  Walks fs left middle more place :=
 ⟨folder,links,.done,hfolder,h⟩

theorem Walks.split (h:Walks fs links folder (todo++more) place)
 (hmo:more≠[]) (hfolder:fs.lookup folder=some .directory) :
 ∃middle left,Walks fs links folder todo middle ∧ fs.lookup middle=some .directory ∧
  Walks fs left middle more place := by
 generalize hal : todo++more=all at h
 induction h generalizing todo with
 | done => exact absurd (append_eq_nil_iff.mp hal).2 hmo
 | skip hsk hwa ih =>
  rcases append_eq_cons_iff.mp hal with ⟨rfl,rfl⟩|⟨todo,rfl,rfl⟩
  · exact split_here (.skip hsk hwa) hfolder
  · obtain ⟨middle,left,hf,hmi,hl⟩:=ih hfolder rfl
    exact ⟨middle,left,.skip hsk hf,hmi,hl⟩
 | up hwa ih =>
  rcases append_eq_cons_iff.mp hal with ⟨rfl,rfl⟩|⟨todo,rfl,rfl⟩
  · exact split_here (.up hwa) hfolder
  · obtain ⟨middle,left,hf,hmi,hl⟩:=ih (lookup_dropLast hfolder) rfl
    exact ⟨middle,left,.up hf,hmi,hl⟩
 | last hst hdi hli =>
  rcases append_eq_cons_iff.mp hal with ⟨rfl,rfl⟩|⟨todo,rfl,hr⟩
  · exact split_here (.last hst hdi hli) hfolder
  · exact absurd (append_eq_nil_iff.mp hr.symm).2 hmo
 | down hst hdi hwa ih =>
  rcases append_eq_cons_iff.mp hal with ⟨rfl,rfl⟩|⟨todo,rfl,rfl⟩
  · exact split_here (.down hst hdi hwa) hfolder
  · obtain ⟨middle,left,hf,hmi,hl⟩:=ih hdi rfl
    exact ⟨middle,left,.down hst hdi hf,hmi,hl⟩
 | follow hst hli hwa ih =>
  rcases append_eq_cons_iff.mp hal with ⟨rfl,rfl⟩|⟨todo,rfl,rfl⟩
  · exact split_here (.follow hst hli hwa) hfolder
  · obtain ⟨middle,left,hf,hmi,hl⟩:=
     ih (lookup_start hfolder _) (append_assoc _ _ _)
    exact ⟨middle,left,.follow hst hli hf,hmi,hl⟩

end

section
variable {fs fs' : FileSystem} {path folder place : Path} {name : String}
 {entry : Entry} {links : Nat} {todo : List String}

theorem locate_iff : fs.locate path = .ok place ↔ Walks fs maxLinks [] path place := walk_iff

theorem locate_spec (h:fs.locate path = .ok place) :
 fs.lookup place.dropLast=some .directory ∧ ∀target,fs.lookup place≠some (.link target) :=
 (locate_iff.mp h).place_spec fs.root_directory

theorem locateEntry_concat :
 fs.locateEntry (path++[name]) = .ok place ↔
  ∃folder,fs.locate path = .ok folder ∧ fs.lookup folder=some .directory ∧
   place=folder++[name] := by
 simp only [locateEntry,dropLast_concat]
 cases fs.locate path with
 | error fault => simp
 | ok folder =>
  cases hfolder : fs.lookup folder with
  | none => simp [hfolder]
  | some entry => cases entry <;> simp [hfolder,eq_comm]

theorem locate_concat (hst:Steps name) (h:fs.locate (path++[name]) = .ok place) :
 ∃folder,fs.locate path = .ok folder ∧ fs.lookup folder=some .directory ∧
  ((∀target,fs.lookup (folder++[name])≠some (.link target)) →
   place=folder++[name]) := by
 obtain ⟨folder,left,hp,hfolder,hname⟩:=
  (locate_iff.mp h).split (cons_ne_nil _ _) fs.root_directory
 refine ⟨folder,locate_iff.mpr hp,hfolder,fun hl=>?_⟩
 have hh:Walks fs left folder [name] (folder++[name]):=by
  by_cases hdi : fs.lookup (folder++[name])=some .directory
  · exact .down hst hdi .done
  · exact .last hst hdi hl
 exact hname.unique hh

theorem locate_extend (hp:fs.locate path = .ok folder)
 (hfolder:fs.lookup folder=some .directory) (hst:Steps name)
 (hl:∀target,fs.lookup (folder++[name])≠some (.link target)) :
 fs.locate (path++[name]) = .ok (folder++[name]) := by
 obtain ⟨left,hle⟩:=(locate_iff.mp hp).append hfolder
 apply locate_iff.mpr
 apply hle
 by_cases hdi : fs.lookup (folder++[name])=some .directory
 · exact .down hst hdi .done
 · exact .last hst hdi hl

@[simp] theorem lookup_put (hplace:place≠[])
 (hfolder:fs.lookup place.dropLast=some .directory)
 (hentry:fs.lookup place≠some .directory) (path : Path) :
 (fs.put place entry hplace hfolder hentry).lookup path =
  if path=place then some entry else fs.lookup path :=
 HashMap.get_upsert _ _ _ _

@[simp] theorem lookup_erase (hentry:fs.lookup place≠some .directory) (path : Path) :
 (fs.erase place hentry).lookup path=if path=place then none else fs.lookup path :=
 HashMap.get_deleteKey _ _ _

def LeadsToFile (fs : FileSystem) (folder : Path) (name : String) : Prop :=
 ∃ links place content,Walks fs links folder [name] place ∧
  fs.lookup place = some (.file content)

structure KeepsFolders (fs fs' : FileSystem) : Prop where
 directory : ∀ path,fs.lookup path = some .directory → fs'.lookup path = some .directory
 link : ∀ folder name target,fs.lookup (folder++[name]) = some (.link target) →
  fs'.lookup (folder++[name]) = some (.link target) ∨ LeadsToFile fs folder name

theorem not_leadsToFile {target : String} (hfolder:fs.lookup folder=some .directory)
 (hl:fs.lookup (folder++[name])=some (.link target)) (hst:Steps name)
 (hwa:Walks fs links (if isAbsolute target then [] else folder) (parts target++todo) place)
 (hplace:fs.lookup place=some .directory) : ¬LeadsToFile fs folder name := by
 rintro ⟨_,file,content,hfi,hco⟩
 have hen:Walks fs (links+1) folder (name::todo) place:=.follow hst hl hwa
 have hmi:∃middle,Walks fs (links+1) folder [name] middle ∧
  fs.lookup middle=some .directory := by
  by_cases hto : todo=[]
  · exact ⟨place,hto ▸ hen,hplace⟩
  · have hal:Walks fs (links+1) folder ([name]++todo) place:=hen
    obtain ⟨middle,_,hf,hmi,-⟩:=hal.split hto hfolder
    exact ⟨middle,hf,hmi⟩
 obtain ⟨middle,hf,hmi⟩:=hmi
 rw [hf.unique hfi,hco] at hmi
 cases hmi

theorem Walks.keep (hk:KeepsFolders fs fs')
 (h:Walks fs links folder todo place) (hfolder:fs.lookup folder=some .directory)
 (hplace:fs.lookup place=some .directory) : Walks fs' links folder todo place := by
 induction h with
 | done => exact .done
 | skip hsk _ ih => exact .skip hsk (ih hfolder hplace)
 | up _ ih => exact .up (ih (lookup_dropLast hfolder) hplace)
 | last _ hother _ => exact absurd hplace hother
 | down hst hdi _ ih =>
  exact .down hst (hk.directory _ hdi) (ih hdi hplace)
 | follow hst hl hwa ih =>
  rcases hk.link _ _ _ hl with hkept|hf
  · exact .follow hst hkept (ih (lookup_start hfolder _) hplace)
  · exact absurd hf (not_leadsToFile hfolder hl hst hwa hplace)

theorem KeepsFolders.locate (hk:KeepsFolders fs fs') (h:fs.locate path = .ok place)
 (hplace:fs.lookup place=some .directory) : fs'.locate path = .ok place :=
 locate_iff.mpr ((locate_iff.mp h).keep hk fs.root_directory hplace)

theorem keepsFolders_put (hplace:place≠[])
 (hfolder:fs.lookup place.dropLast=some .directory)
 (hentry:fs.lookup place≠some .directory)
 (hl:∀target,fs.lookup place≠some (.link target)) :
 KeepsFolders fs (fs.put place entry hplace hfolder hentry) := by
 constructor
 · intro path hp
   have hother:path≠place:=by
    rintro rfl
    exact hentry hp
   rw [lookup_put,if_neg hother]
   exact hp
 · intro folder name target hfound
   have hother:folder++[name]≠place:=by
    rintro rfl
    exact hl target hfound
   rw [lookup_put,if_neg hother]
   exact .inl hfound

theorem keepsFolders_erase (hentry:fs.lookup (folder++[name])≠some .directory)
 (hf:LeadsToFile fs folder name) : KeepsFolders fs (fs.erase (folder++[name]) hentry) := by
 constructor
 · intro path hp
   have hother:path≠folder++[name]:=by
    rintro rfl
    exact hentry hp
   rw [lookup_erase,if_neg hother]
   exact hp
 · intro folder' name' target hfound
   by_cases hsame : folder'++[name']=folder++[name]
   · obtain ⟨rfl,rfl⟩:=append_singleton_inj.mp hsame
     exact .inr hf
   · rw [lookup_erase,if_neg hsame]
     exact .inl hfound

end

end FileSystem

end DhKit.LinkedFiles
