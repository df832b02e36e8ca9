import DhKit.ModuleResolver

/-!
# Lexical normalisation

`PathBuf::pop` also takes away a `..` that an earlier component has left.
-/
namespace DhKit.Modules.Path
open PosixPaths List

/-- The place a path leads to from a directory, where nothing is a link. -/
def place (cwd : List String) (p : Path) : List String :=
 p.foldl (fun names component => if component = "/" then [] else takePart names component) cwd

/-- What a relative path comes to: so many steps up, then the names. -/
def climb (s : Nat × List String) (component : String) : Nat × List String :=
 if component = "." then s
 else if component ≠ ".." then (s.1,s.2 ++ [component])
 else if s.2 = [] then (s.1+1,[])
 else (s.1,s.2.dropLast)

def climbed (p : Path) : Nat × List String := p.foldl climb (0,[])

/-- From every directory that is deep enough the normalised path leads to the same place, is its own
normalisation, and has parents only in front and in no absolute path. -/
structure Normalised (p : Path) : Prop where
 samePlace : ∃ depth,∀ cwd : List String,depth ≤ cwd.length →
  place cwd (normalizePathLexically p) = place cwd p
 idempotent : normalizePathLexically (normalizePathLexically p) = normalizePathLexically p
 parentsLead : ∃ ups names,normalizePathLexically p = replicate ups ".." ++ names ∧ ".." ∉ names

section
variable {l : Path} {names : List String}

theorem climbed_names (ups : Nat) (h:∀name∈names,name ∉ ["",".","..","/"]) :
 climbed (replicate ups ".." ++ names)=(ups,names) := by
 have hu:climbed (replicate ups "..")=(ups,[]) := by
  induction ups with
  | zero => rfl
  | succ ups ih =>
   rw [climbed] at ih
   simp [climbed,replicate_succ',ih,climb]
 induction names using reverseRecOn with
 | nil => simpa using hu
 | append_singleton names name ih =>
  have hn:=h name (by simp)
  have ho:=ih fun other hme=>h other (by simp [hme])
  rw [climbed] at ho
  simp only [mem_cons,not_or] at hn
  simp [climbed,←append_assoc,ho,climb,hn]

theorem climbed_spec (h:∀component∈l,component ≠ "" ∧ component ≠ "/") :
 (∀name∈(climbed l).2,name ∉ ["",".","..","/"]) ∧
 l.foldl (normalStep false) []=replicate ((climbed l).1 % 2) ".." ++ (climbed l).2 ∧
 l.foldl (normalStep true) ["/"] = "/" :: (climbed l).2 ∧
 ∀cwd,place cwd l=cwd.take (cwd.length-(climbed l).1)++(climbed l).2 := by
 induction l using reverseRecOn with
 | nil => simp [climbed,place]
 | append_singleton l component ih =>
  obtain ⟨hp,hr,hab,hpl⟩:=ih fun other hme=>h other (by simp [hme])
  obtain ⟨hem,hro⟩:=h component (by simp)
  have hn:climbed (l++[component])=climb (climbed l) component:=by simp [climbed]
  unfold place at hpl ⊢
  rw [hn]
  generalize climbed l=s at *
  obtain ⟨ups,names⟩:=s
  simp only [foldl_append,foldl_cons,foldl_nil,hr,hab,hpl,hro,if_false]
  by_cases hdo : component = "."
  · simpa [climb,normalStep,takePart,hdo] using hp
  by_cases hdots : component ≠ ".."
  · simpa [climb,normalStep,takePart,hdo,hdots,hem,hro,or_imp,forall_and] using hp
  rw [not_not.mp hdots]
  rcases eq_nil_or_concat' names with rfl|⟨names,name,rfl⟩
  · have hdr:∀cwd : List String,
     (cwd.take (cwd.length-ups)).dropLast=cwd.take (cwd.length-(ups+1)) := by
     intro cwd
     rw [dropLast_eq_take,length_take,take_take]
     congr 1
     omega
    rcases Nat.mod_two_eq_zero_or_one ups with hu|hu
    · simp [climb,normalStep,takePart,parent,hu,Nat.add_mod,hdr]
    · simp [climb,normalStep,takePart,parent,hu,Nat.add_mod,hdr]
  · have hna:replicate (ups % 2) ".." ++ (names ++ [name]) ≠ ["/"] := by
     intro heq
     have hme:name∈["/"] := heq ▸ by simp
     exact hp name (by simp) (by simp [mem_singleton.mp hme])
    simp only [mem_append,or_imp,forall_and] at hp
    simpa [climb,normalStep,takePart,parent,hna,dropLast_append_of_ne_nil,
     dropLast_cons_of_ne_nil] using hp.1

variable (h : ∀ component ∈ l,component ≠ "" ∧ component ≠ "/")
include h

theorem isAbsolute_relative : isAbsolute l=false := by
 simpa [isAbsolute] using fun hh=>(h _ (mem_of_head? hh)).2 rfl

theorem normalizePathLexically_relative : normalizePathLexically l =
 if replicate ((climbed l).1 % 2) ".." ++ (climbed l).2=[] then ["."]
 else replicate ((climbed l).1 % 2) ".." ++ (climbed l).2 := by
 rw [normalizePathLexically,isAbsolute_relative h,(climbed_spec h).2.1]

theorem normalizePathLexically_absolute :
 normalizePathLexically ("/" :: l) = "/" :: (climbed l).2 := by
 have hf:=(climbed_spec h).2.2.1
 simp [normalizePathLexically,isAbsolute,normalStep,hf]

theorem normalised_relative_iff : Normalised l ↔ (climbed l).1 ≤ 1 := by
 have hn:=normalizePathLexically_relative h
 obtain ⟨hpl,-,-,hp⟩:=climbed_spec h
 have hcl:∀component∈normalizePathLexically l,component ≠ "" ∧ component ≠ "/" := by
  rw [hn]
  split_ifs
  · simp
  intro component hme
  rcases mem_append.mp hme with hup|hnam
  · rw [eq_of_mem_replicate hup]
    decide
  · have := hpl component hnam
    simp_all
 have hcli:climbed (normalizePathLexically l)=((climbed l).1%2,(climbed l).2):=by
  rw [hn]
  split_ifs with hnone
  · obtain ⟨hz,hna⟩:=append_eq_nil_iff.mp hnone
    rw [(replicate_eq_nil_iff _).mp hz,hna]
    rfl
  · exact climbed_names _ hpl
 have hp':=(climbed_spec hcl).2.2.2
 rw [hcli] at hp'
 constructor
 · rintro ⟨⟨depth,hsa⟩,-,-⟩
   have hl:=congrArg length (hsa (replicate (depth + (climbed l).1) "") (by simp))
   rw [hp',hp] at hl
   simp at hl
   omega
 · intro hu
   refine ⟨⟨0,fun cwd _=>?_⟩,?_,?_⟩
   · rw [hp',hp,Nat.mod_eq_of_lt (Nat.lt_succ_of_le hu)]
   · rw [normalizePathLexically_relative hcl,hcli,Nat.mod_mod,←hn]
   rw [hn]
   split_ifs
   · exact ⟨0,["."],rfl,by decide⟩
   · exact ⟨_,_,rfl,fun hme=>hpl _ hme (by simp)⟩

theorem normalised_absolute : Normalised ("/" :: l) := by
 obtain ⟨hp,-,-,hpl⟩:=climbed_spec h
 have hna:∀name∈(climbed l).2,name ≠ "" ∧ name ≠ "/" := by
  intro name hme
  have := hp name hme
  simp_all
 have hcl:climbed (climbed l).2=(0,(climbed l).2):=climbed_names 0 hp
 have hn:=normalizePathLexically_absolute h
 have hr:∀cwd q,place cwd ("/" :: q)=place [] q := fun cwd q=>rfl
 refine ⟨⟨0,fun cwd _=>?_⟩,?_,⟨0,_,hn,?_⟩⟩
 · rw [hn,hr,hr,hpl,(climbed_spec hna).2.2.2,hcl]
   simp
 · rw [hn,normalizePathLexically_absolute hna,hcl]
 · rw [mem_cons,not_or]
   exact ⟨by decide,fun hme=>hp _ hme (by simp)⟩

end

theorem ofText_cases (text : String) : ∃l,(∀component∈l,component ≠ "" ∧ component ≠ "/") ∧
 (ofText text = "/" :: l ∨ ofText text=l) := by
 have hp:∀part∈(parts text).filter fun part=>part ≠ "" ∧ part ≠ ".",
  part ≠ "" ∧ part ≠ "/" := by
  intro part hme
  obtain ⟨hpa,hkept⟩:=mem_filter.mp hme
  obtain ⟨chars,hch,rfl⟩:=mem_map.mp hpa
  refine ⟨(of_decide_eq_true hkept).1,fun heq=>noSlash_of_mem hch ?_⟩
  rw [←String.toList_ofList (l := chars),heq]
  simp
 unfold ofText
 split_ifs with hab
 · exact ⟨_,hp,.inl rfl⟩
 refine ⟨_,fun part hme=>?_,.inr rfl⟩
 rcases mem_append.mp hme with hdo|hkept
 · split_ifs at hdo <;> simp_all
 · exact hp part hkept

theorem normalised_iff (text : String) :
 Normalised (ofText text) ↔ isAbsolute (ofText text) ∨ (climbed (ofText text)).1 ≤ 1 := by
 obtain ⟨l,h,heq|rfl⟩:=ofText_cases text
 · simp [heq,normalised_absolute h,isAbsolute]
 · simp [isAbsolute_relative h,normalised_relative_iff h]

/-- `../..` becomes `.`. -/
theorem two_parents_not_normalised : ¬ Normalised (ofText "../..") := by
 rintro ⟨⟨depth,hsa⟩,-,-⟩
 have hl:=congrArg length (hsa (replicate (depth + 1) "") (by simp))
 have hn:normalizePathLexically (ofText "../..")=["."] := by decide
 have hp:ofText "../.." = ["..",".."] := by decide
 rw [hn,hp] at hl
 simp [place,takePart] at hl
 omega

end DhKit.Modules.Path
