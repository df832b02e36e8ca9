import Mathlib.Data.List.Infix

/-!
# POSIX paths

An absolute path is the list of its names.
-/
namespace DhKit.PosixPaths
open List

def splitSlashes : List Char → List (List Char)
 | [] => [[]]
 | c::text =>
  if c = '/' then [] :: splitSlashes text
  else
   match splitSlashes text with
   | [] => [[c]]
   | first::rest => (c::first)::rest

def parts (text : String) : List String := (splitSlashes text.toList).map String.ofList

def isAbsolute (text : String) : Bool := text.toList.head? = some '/'

def takePart (names : List String) (part : String) : List String :=
 if part = "" ∨ part = "." then names
 else if part = ".." then names.dropLast
 else names++[part]

def resolve (base : List String) (text : String) : List String :=
 (parts text).foldl takePart (if isAbsolute text then [] else base)

def render (names : List String) : String := "/" ++ "/".intercalate names

def relativeNames : List String → List String → List String
 | a::source,b::target =>
  if a = b then relativeNames source target
  else List.replicate (source.length + 1) ".." ++ b :: target
 | source,target => List.replicate source.length ".." ++ target

def relative (source target : List String) : String := "/".intercalate (relativeNames source target)

structure IsName (name : String) : Prop where
 nonempty : name ≠ ""
 notDot : name ≠ "."
 notDots : name ≠ ".."
 noSlash : '/' ∉ name.toList

example : resolve ["repo"] "./src/../a.ts" = ["repo","a.ts"] := by decide

example : relative ["repo","a"] ["repo","b","c"] = "../b/c" := by decide

section

theorem splitSlashes_ne_nil (text : List Char) : splitSlashes text≠[] := by
 cases text with
 | nil => exact cons_ne_nil _ _
 | cons c text =>
  rw [splitSlashes]
  split
  · exact cons_ne_nil _ _
  · split <;> exact cons_ne_nil _ _

theorem splitSlashes_append (text more : List Char) :
 splitSlashes (text ++ '/' :: more)=splitSlashes text ++ splitSlashes more := by
 induction text with
 | nil => rfl
 | cons c text ih =>
  rw [cons_append,splitSlashes,splitSlashes,ih]
  split
  · rfl
  · cases hp : splitSlashes text with
    | nil => exact absurd hp (splitSlashes_ne_nil text)
    | cons first rest => rfl

theorem splitSlashes_of_noSlash {text : List Char} (h : '/' ∉ text) :
 splitSlashes text=[text] := by
 induction text with
 | nil => rfl
 | cons c text ih =>
  have hc:c ≠ '/' := by
   rintro rfl
   exact h mem_cons_self
  rw [splitSlashes,if_neg hc,ih fun hm=>h (mem_cons_of_mem _ hm)]

theorem noSlash_of_mem {part text : List Char} (h:part∈splitSlashes text) : '/' ∉ part := by
 induction text generalizing part with
 | nil => simp_all [splitSlashes]
 | cons c text ih =>
  rw [splitSlashes] at h
  split at h
  · rcases mem_cons.mp h with rfl|hme
    · exact not_mem_nil
    · exact ih hme
  · next hc =>
    cases hp : splitSlashes text with
    | nil => exact absurd hp (splitSlashes_ne_nil text)
    | cons first rest =>
     rw [hp] at h
     rcases mem_cons.mp h with rfl|hme
     · have hf:=ih (hp ▸ mem_cons_self)
       simp [hf,Ne.symm hc]
     · exact ih (hp ▸ mem_cons_of_mem _ hme)

theorem splitSlashes_intercalate {names : List (List Char)} (hn:names≠[])
 (h:∀name∈names,'/' ∉ name) : splitSlashes (['/'].intercalate names)=names := by
 induction names with
 | nil => exact absurd rfl hn
 | cons name names ih =>
  have hna:=h name mem_cons_self
  cases names with
  | nil => simp [splitSlashes_of_noSlash hna]
  | cons next names =>
   rw [intercalate_cons_cons,append_assoc,singleton_append,splitSlashes_append,
    splitSlashes_of_noSlash hna,
    ih (cons_ne_nil _ _) fun name hme=>h name (mem_cons_of_mem _ hme)]
   rfl

theorem parts_append (text more : String) :
 parts (text ++ "/" ++ more)=parts text ++ parts more := by
 simp [parts,splitSlashes_append]

theorem parts_of_isName {name : String} (h:IsName name) : parts name=[name] := by
 simp [parts,splitSlashes_of_noSlash h.noSlash]

end

section
variable {base names : List String} {name : String}

theorem takePart_of_isName (h:IsName name) : takePart names name=names++[name] := by
 simp [takePart,h.nonempty,h.notDot,h.notDots]

theorem foldl_takePart (base : List String) (h:∀name∈names,IsName name) :
 names.foldl takePart base=base++names := by
 induction names generalizing base with
 | nil => simp
 | cons name names ih =>
  rw [foldl_cons,takePart_of_isName (h name mem_cons_self),
   ih _ fun other hme=>h other (mem_cons_of_mem _ hme)]
  simp

theorem isName_takePart {part : String} (hb:∀name∈base,IsName name)
 (hp : '/' ∉ part.toList) : ∀name∈takePart base part,IsName name := by
 intro name hme
 unfold takePart at hme
 split_ifs at hme with hsk hup
 · exact hb name hme
 · exact hb name (dropLast_subset _ hme)
 rcases mem_append.mp hme with ho|hn
 · exact hb name ho
 · rw [mem_singleton.mp hn]
   exact ⟨fun h=>hsk (.inl h),fun h=>hsk (.inr h),hup,hp⟩

theorem isName_resolve (hb:∀name∈base,IsName name) (text : String) :
 ∀name∈resolve base text,IsName name := by
 have hp:∀part∈parts text,'/' ∉ part.toList := by
  intro part hme
  obtain ⟨chars,hch,rfl⟩:=mem_map.mp hme
  rw [String.toList_ofList]
  exact noSlash_of_mem hch
 have hst:∀name∈(if isAbsolute text then [] else base),IsName name:=by
  split
  · simp
  · exact hb
 unfold resolve
 generalize (if isAbsolute text then [] else base)=start at hst
 generalize parts text=all at hp
 induction all generalizing start with
 | nil => exact hst
 | cons part all ih =>
  apply ih (takePart start part)
  · exact isName_takePart hst (hp part mem_cons_self)
  · intro other hme
    exact hp other (mem_cons_of_mem _ hme)

theorem resolve_render (h:∀name∈names,IsName name) : resolve base (render names)=names := by
 have hab:isAbsolute (render names)=true:=by simp [isAbsolute,render]
 rw [resolve,if_pos hab]
 cases hn : names with
 | nil => rfl
 | cons name rest =>
  have htext:parts (render names) = "" :: names := by
   have hslash:∀chars∈names.map String.toList,'/' ∉ chars := by
    intro chars hme
    obtain ⟨other,ho,rfl⟩:=mem_map.mp hme
    exact (h other ho).noSlash
   have hsp:=splitSlashes_intercalate (by simp [hn]) hslash
   simp [parts,render,splitSlashes,hsp]
  rw [←hn,htext,foldl_cons]
  exact foldl_takePart [] h

theorem resolve_child (hn:IsName name) {text : String} (htext:text ≠ "") :
 resolve base (text ++ "/" ++ name)=resolve base text ++ [name] := by
 have hab:isAbsolute (text ++ "/" ++ name)=isAbsolute text := by
  have hch:text.toList≠[]:=by simpa using htext
  unfold isAbsolute
  rw [String.append_assoc,String.toList_append,head?_append_of_ne_nil _ hch]
 rw [resolve,hab,parts_append,foldl_append,parts_of_isName hn]
 exact takePart_of_isName hn

end

section
variable {source target : List String}

theorem relativeNames_append (source names : List String) :
 relativeNames source (source++names)=names := by
 induction source with
 | nil => simp [relativeNames]
 | cons name source ih => simp [relativeNames,ih]

theorem relativeNames_of_not_prefix (h:¬source <+: target) :
 ∃names,relativeNames source target = ".." :: names := by
 induction source generalizing target with
 | nil => exact absurd nil_prefix h
 | cons name source ih =>
  cases target with
  | nil =>
   exact ⟨List.replicate source.length ".." ++ [],by simp [relativeNames,replicate_succ]⟩
  | cons other target =>
   rw [relativeNames]
   split
   · next hsa =>
     apply ih
     intro hp
     exact h (by rw [hsa]; exact cons_prefix_cons.mpr ⟨rfl, hp⟩)
   · exact ⟨_,by rw [replicate_succ,cons_append]⟩

end

end DhKit.PosixPaths
