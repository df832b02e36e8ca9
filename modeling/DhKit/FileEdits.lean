import DhKit.FileConfinement

/-!
# What an edit writes

`executeEditTool` replaces the first occurrence of a text by `String.replace`, which reads dollar
signs in the new text, and all occurrences by splitting and joining, which does not.
-/
namespace DhKit.FileTools
open CommitRules LinkedFiles PosixPaths TextPatterns List

section
variable {disk after : Disk} {α : Type} {a : α} {u : Unit}

@[simp] theorem yields_throwing {x : Except ToolError α} :
 Yields (throwing x) disk a after ↔ x = .ok a ∧ disk=after := by
 cases x with
 | ok b => simp [throwing]
 | error e => simp [throwing]

@[simp] theorem yields_call {x : Commit Disk Fault α} :
 Yields (call x) disk a after ↔ Yields x disk a after := by
 unfold Yields call
 rcases x disk with ⟨fault|b,next⟩ <;> simp

@[simp] theorem yields_read {f : FileSystem → Except Fault α} :
 Yields (Disk.read f) disk a after ↔ f disk.files = .ok a ∧ disk=after := by
 simp [Yields,Disk.read]

@[simp] theorem yields_diskChange {f : FileSystem → Except Fault (Path × FileSystem)} :
 Yields (Disk.change f) disk u after ↔
  ∃place files,f disk.files = .ok (place,files) ∧ ⟨files,disk.touched++[place]⟩=after := by
 unfold Yields Disk.change
 rcases f disk.files with fault|⟨place,files⟩ <;> simp

end

/-- What stands before and behind the first place at which the part stands. -/
structure FirstAt {α : Type} (part before behind text : List α) : Prop where
 here : text = before++part++behind
 first : ∀ earlier,earlier++part <+: text → before.length ≤ earlier.length

theorem FirstAt.unique {α : Type} {part before behind text earlier later : List α}
 (h:FirstAt part before behind text) (h':FirstAt part earlier later text) :
 before=earlier ∧ behind=later := by
 have hl:=Nat.le_antisymm (h.first earlier ⟨later,h'.here.symm⟩)
  (h'.first before ⟨behind,h.here.symm⟩)
 have hsa:=h.here.symm.trans h'.here
 rw [append_assoc,append_assoc] at hsa
 obtain ⟨hb,hr⟩:=append_inj hsa hl
 exact ⟨hb,append_cancel_left hr⟩

section
variable {part before behind text : List Char}

/-- What stands between the occurrences of the part that are found from left to right. -/
inductive PartedBy (part : List Char) : List Char → List (List Char) → Prop
 | last {text : List Char} : ¬ part <:+: text → PartedBy part text [text]
 | next {before behind text : List Char} {parts : List (List Char)} :
  FirstAt part before behind text → PartedBy part behind parts →
  PartedBy part text (before::parts)

def OccursOnce (part text : List Char) : Prop :=
 ∀ before behind earlier later,text = before++part++behind →
  text = earlier++part++later → before = earlier

theorem findText_eq_none (hp:part≠[]) : findText part text=none ↔ ¬part <:+: text := by
 induction text with
 | nil => simp [findText,hp]
 | cons c text ih =>
  rw [findText,infix_cons_iff]
  split_ifs with hh
  · simp [hh]
  · simp [hh,ih]

theorem findText_eq_some (h:findText part text=some (before,behind)) :
 FirstAt part before behind text := by
 induction text generalizing before with
 | nil =>
  unfold findText at h
  split_ifs at h with hp
  cases h
  exact ⟨by simp [hp],fun _ _=>Nat.zero_le _⟩
 | cons c text ih =>
  unfold findText at h
  split_ifs at h with hh
  · cases h
    refine ⟨?_,fun _ _=>Nat.zero_le _⟩
    rw [nil_append]
    exact prefix_append_drop hh
  obtain ⟨⟨before',behind'⟩,hfo,heq⟩:=Option.map_eq_some_iff.mp h
  cases heq
  have hf:=ih hfo
  refine ⟨by rw [hf.here]; rfl,?_⟩
  intro earlier hea
  cases earlier with
  | nil => exact absurd hea hh
  | cons d earlier =>
   rw [cons_append,cons_prefix_cons] at hea
   exact Nat.succ_le_succ (hf.first earlier hea.2)

theorem splitText_skipped (skipped : Nat) (text : List Char) :
 splitText part skipped text=splitText part 0 (text.drop skipped) := by
 induction skipped generalizing text with
 | zero => rfl
 | succ skipped ih =>
  cases text with
  | nil => rfl
  | cons c text => exact ih text

theorem splitText_eq (hp:part≠[]) (text : List Char) :
 splitText part 0 text =
  match findText part text with
  | none => [text]
  | some (before,behind) => before::splitText part 0 behind := by
 induction text with
 | nil => simp [findText,splitText,hp]
 | cons c text ih =>
  rw [splitText,findText]
  split_ifs with hh
  · have hdr:(c::text).drop part.length=text.drop (part.length-1):=by
     cases part with
     | nil => exact absurd rfl hp
     | cons d part => rfl
    dsimp only
    rw [splitText_skipped,hdr]
  · rw [ih]
    cases findText part text with
    | none => rfl
    | some found => rfl

theorem partedBy_splitText (hp:part≠[]) (text : List Char) :
 PartedBy part text (splitText part 0 text) := by
 induction hl : text.length using Nat.strong_induction_on generalizing text with
 | _ n ih =>
  rw [splitText_eq hp]
  cases hf : findText part text with
  | none => exact .last ((findText_eq_none hp).mp hf)
  | some found =>
   have hfi:=findText_eq_some hf
   refine .next hfi (ih _ ?_ found.2 rfl)
   have hpo:=length_pos_of_ne_nil hp
   rw [←hl,hfi.here]
   simp only [length_append]
   omega

end

section
variable {cwd : WorkingDirectory} {repoRoot path : String} {disk : Disk} {place : Path}
 {oldText newText original text : String} {replaceAll : Bool} {replacements : Nat}
 {resolved : ResolvedRepoPath}

/-- The tool leaves the text at the place and reports the replacements. -/
def EditLeaves (cwd : WorkingDirectory) (repoRoot : String) (disk : Disk) (place : Path)
 (input : EditInput) (text : String) (replacements : Nat) : Prop :=
 ∃ output after,Yields (executeEditTool cwd repoRoot input) disk output after ∧
  output.replacements = replacements ∧ after.files.lookup place = some (.file text)

/-- The file that is edited. -/
structure EditedFile (cwd : WorkingDirectory) (repoRoot path : String) (disk : Disk)
 (place : Path) (original : String) : Prop where
 read : ∃ resolved,resolveRepoPath cwd repoRoot path = .ok resolved ∧
  disk.files.locate resolved.absolutePath = .ok place
 file : disk.files.lookup place = some (.file original)

def updatedText (oldText newText original : String) (replaceAll : Bool) : String :=
 if replaceAll then newText.intercalate (splitBy oldText original)
 else replaceFirst oldText newText original

theorem editLeaves_iff (h:EditedFile cwd repoRoot path disk place original)
 (ho:Contains oldText original) :
 EditLeaves cwd repoRoot disk place ⟨path,oldText,newText,replaceAll⟩ text replacements ↔
  text=updatedText oldText newText original replaceAll ∧
  replacements=if replaceAll then (splitBy oldText original).length-1 else 1 := by
 obtain ⟨resolved,hr,hp⟩:=h.read
 have hread:=readFile_eq_ok.mpr ⟨place,hp,h.file⟩
 have hl:EditLeaves cwd repoRoot disk place ⟨path,oldText,newText,replaceAll⟩ text
  replacements ↔ ∃place' files,disk.files.writeFile resolved.absolutePath
    (updatedText oldText newText original replaceAll) = .ok (place',files) ∧
   (if replaceAll then (splitBy oldText original).length-1 else 1)=replacements ∧
   files.lookup place=some (.file text) := by
  simp [EditLeaves,executeEditTool,readFileSync,writeFileSync,hr,hread,ho,updatedText]
 rw [hl]
 constructor
 · rintro ⟨place',files,hwr,hco,htext⟩
   obtain ⟨hp',-,hlo⟩:=writeFile_eq_ok hwr
   rw [hp] at hp'
   cases hp'
   rw [hlo,if_pos rfl] at htext
   cases htext
   exact ⟨rfl,hco.symm⟩
 · rintro ⟨rfl,rfl⟩
   obtain ⟨files,hwr⟩:=writeFile_of_place hp (by simp [h.file])
   refine ⟨place,files,hwr,rfl,?_⟩
   rw [(writeFile_eq_ok hwr).2.2,if_pos rfl]

/-- Both modes replace literally: the first occurrence, or the occurrences found from left to
right, whose number is reported. -/
structure EditsLiterally (cwd : WorkingDirectory) (repoRoot : String) (disk : Disk) (place : Path)
 (path oldText newText original : String) : Prop where
 first : ∃ before behind,FirstAt oldText.toList before behind original.toList ∧
  EditLeaves cwd repoRoot disk place ⟨path,oldText,newText,false⟩
   (String.ofList (before++newText.toList++behind)) 1
 every : ∃ parts,PartedBy oldText.toList original.toList parts ∧
  EditLeaves cwd repoRoot disk place ⟨path,oldText,newText,true⟩
   (String.ofList (newText.toList.intercalate parts)) (parts.length-1)
 once : OccursOnce oldText.toList original.toList → ∃ text,
  EditLeaves cwd repoRoot disk place ⟨path,oldText,newText,false⟩ text 1 ∧
  EditLeaves cwd repoRoot disk place ⟨path,oldText,newText,true⟩ text 1

/-- What a dollar sign and the character behind it stand for. -/
inductive DollarPattern (found before behind : List Char) : Char → List Char → Prop
 | dollar : DollarPattern found before behind '$' ['$']
 | occurrence : DollarPattern found before behind '&' found
 | before : DollarPattern found before behind (Char.ofNat 96) before
 | behind : DollarPattern found before behind (Char.ofNat 39) behind

def PatternFree (text : List Char) : Prop :=
 ∀ pattern ∈ ["$$","$&","$`","$'"],¬ pattern.toList <:+: text

theorem PatternFree.tail {c : Char} {text : List Char} (h:PatternFree (c::text)) :
 PatternFree text :=
 fun pattern hp hi=>h pattern hp (infix_cons hi)

section
variable {found before behind plain rest written : List Char} {c : Char}

theorem expandReplacement_cons (h:PatternFree (c::rest.take 1)) :
 expandReplacement found before behind (c::rest) =
  c::expandReplacement found before behind rest := by
 cases rest with
 | nil => simp [expandReplacement]
 | cons d rest =>
  by_cases hc : c = '$'
  · subst hc
    simp only [PatternFree,mem_cons,not_mem_nil,or_false,forall_eq_or_imp,forall_eq] at h
    obtain ⟨h1,h2,h3,h4⟩:=h
    have hd:d ≠ '$' ∧ d ≠ '&' ∧ d≠Char.ofNat 96 ∧ d≠Char.ofNat 39 := by
     refine ⟨?_,?_,?_,?_⟩ <;> rintro rfl
     · exact h1 (infix_refl _)
     · exact h2 (infix_refl _)
     · exact h3 (infix_refl _)
     · exact h4 (infix_refl _)
    simp [expandReplacement,hd]
  · simp [expandReplacement,hc]

theorem PatternFree.expandReplacement_eq (h:PatternFree plain) :
 expandReplacement found before behind plain=plain := by
 induction plain with
 | nil => rfl
 | cons c plain ih =>
  rw [expandReplacement_cons,ih h.tail]
  intro pattern hp hi
  exact h pattern hp (hi.trans ((prefix_cons_inj c).mpr ( take_prefix 1 plain)).isInfix)

theorem expandReplacement_pattern (h:PatternFree (plain++['$']))
 (hw:DollarPattern found before behind c written) :
 expandReplacement found before behind (plain ++ '$' :: c::rest) =
  plain++written++expandReplacement found before behind rest := by
 induction plain with
 | nil => cases hw <;> simp [expandReplacement]
 | cons d plain ih =>
  rw [cons_append,expandReplacement_cons,ih h.tail]
  · rfl
  intro pattern hp hi
  refine h pattern hp (hi.trans (IsPrefix.isInfix ?_))
  cases plain with
  | nil => exact prefix_refl _
  | cons e plain => exact ⟨plain++['$'],rfl⟩

end

theorem not_infix_behind {part before behind text : List Char} (hp:part≠[])
 (hf:FirstAt part before behind text) (ho:OccursOnce part text) :
 ¬part <:+: behind := by
 rintro ⟨between,later,rfl⟩
 have hag:=ho before _ (before++part++between) later hf.here
  (by rw [hf.here]; simp)
 have hl:=congrArg length hag
 have hpo:=length_pos_of_ne_nil hp
 simp only [length_append] at hl
 omega

theorem editsLiterally_of_patternFree (cwd : WorkingDirectory) (repoRoot path : String)
 (disk : Disk) (place : Path) (oldText newText original : String)
 (h : EditedFile cwd repoRoot path disk place original) (hold : oldText ≠ "")
 (hoccurs : Contains oldText original) :
 (PatternFree newText.toList →
  EditsLiterally cwd repoRoot disk place path oldText newText original) ∧
 ∀ before behind plain c written rest,
  FirstAt oldText.toList before behind original.toList →
  newText.toList = plain ++ '$' :: c::rest → PatternFree (plain ++ ['$']) → PatternFree rest →
  DollarPattern oldText.toList before behind c written →
  EditLeaves cwd repoRoot disk place ⟨path,oldText,newText,false⟩
   (String.ofList (before++plain++written++rest++behind)) 1 := by
 have hpa:oldText.toList≠[]:=by simpa using hold
 obtain ⟨⟨before,behind⟩,hfo⟩:=Option.ne_none_iff_exists'.mp
  ((findText_eq_none hpa).not.mpr (not_not.mpr hoccurs))
 have hf:=findText_eq_some hfo
 have hr:updatedText oldText newText original false=String.ofList (before ++
  expandReplacement oldText.toList before behind newText.toList++behind) := by
  simp [updatedText,replaceFirst,hfo]
 have hj:updatedText oldText newText original true =
  String.ofList (newText.toList.intercalate (splitText oldText.toList 0 original.toList)) := by
  rw [updatedText,if_pos rfl,splitBy,←String.toList_inj,String.toList_intercalate,
   String.toList_ofList,map_map]
  simp [Function.comp_def]
 constructor
 · intro hi
   rw [hi.expandReplacement_eq] at hr
   refine ⟨⟨before,behind,hf,?_⟩,⟨_,partedBy_splitText hpa _,?_⟩,?_⟩
   · exact (editLeaves_iff h hoccurs).mpr ⟨hr.symm,rfl⟩
   · exact (editLeaves_iff h hoccurs).mpr ⟨hj.symm,by simp [splitBy]⟩
   intro ho
   have hp:splitText oldText.toList 0 original.toList=[before,behind]:=by
    have hnone:=(findText_eq_none hpa).mpr (not_infix_behind hpa hf ho)
    rw [splitText_eq hpa,hfo]
    dsimp only
    rw [splitText_eq hpa,hnone]
   refine ⟨_,(editLeaves_iff h hoccurs).mpr ⟨hr.symm,rfl⟩,
    (editLeaves_iff h hoccurs).mpr ⟨?_,by simp [splitBy,hp]⟩⟩
   rw [hj,hp,intercalate_cons_cons,intercalate_singleton]
 · intro before' behind' plain c written rest hf' hn hpl hre hw
   obtain ⟨rfl,rfl⟩:=hf'.unique hf
   rw [hn,expandReplacement_pattern hpl hw,hre.expandReplacement_eq] at hr
   exact (editLeaves_iff h hoccurs).mpr ⟨by simp [hr],rfl⟩

/-- A repository with one file. -/
def notedFiles : FileSystem :=
 repoFiles.put ["repo","a"] (.file "x") (by decide) (by decide) (by decide)

theorem editedFile_noted :
 EditedFile rootProcess "/repo" "a" ⟨notedFiles,[]⟩ ["repo","a"] "x" :=
 ⟨⟨⟨["repo","a"],"a"⟩,by decide,by decide⟩,by decide⟩

theorem edit_drops_dollar :
 ¬ EditsLiterally rootProcess "/repo" ⟨notedFiles,[]⟩ ["repo","a"] "a" "x" "$$" "x" := by
 rintro ⟨⟨before,behind,-,hl⟩,-,-⟩
 have htext:=((editLeaves_iff editedFile_noted (by decide)).mp hl).1
 have ho:updatedText "x" "$$" "x" false = "$" := by decide
 have hle:=congrArg (fun text : String=>text.toList.length) (htext.trans ho)
 simp at hle
 omega

theorem edit_keeps_dollar :
 EditsLiterally rootProcess "/repo" ⟨notedFiles,[]⟩ ["repo","a"] "a" "x" "$1" "x" ∧
 EditLeaves rootProcess "/repo" ⟨notedFiles,[]⟩ ["repo","a"] ⟨"a","x","<$&>",false⟩ "<x>" 1 :=
 ⟨(editsLiterally_of_patternFree _ _ _ _ _ _ _ _ editedFile_noted (by decide) (by decide)).1
   (by unfold PatternFree; decide),
  (editsLiterally_of_patternFree _ _ _ _ _ _ "<$&>" _ editedFile_noted (by decide)
   (by decide)).2 [] [] ['<'] '&' ['x'] ['>'] ⟨rfl,fun _ _=>Nat.zero_le _⟩ rfl
   (by unfold PatternFree; decide) (by unfold PatternFree; decide) .occurrence⟩

end

end DhKit.FileTools
