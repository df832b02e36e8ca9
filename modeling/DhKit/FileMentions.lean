import DhKit.ContextPlanner
import DhKit.SeparatedText

/-!
# Files mentioned in a query

`fileMentionEntries` compares the resolved paths as texts.
-/
namespace DhKit.PosixPaths
open List

theorem toList_render {names : List String} (h:names≠[]) :
 (render names).toList=names.flatMap fun name => '/' :: name.toList := by
 have hch:∀l : List (List Char),l≠[] →
  '/' :: intercalate ['/'] l=l.flatMap fun name => '/' :: name := by
  intro l hl
  induction l with
  | nil => exact absurd rfl hl
  | cons name l ih =>
   cases l with
   | nil => simp [intercalate]
   | cons other l => simpa [intercalate] using ih (by simp)
 simpa [render,flatMap_map] using hch (names.map String.toList) (by simpa using h)

/-- A path's text that another one begins with ends inside of a name or at its end. -/
theorem starts_flatMap {root place : List String} (hro:∀name∈root,'/' ∉ name.toList)
 (hp:∀name∈place,'/' ∉ name.toList) (hne:root ≠ [])
 (h:(root.flatMap fun name => '/' :: name.toList) <+:
  place.flatMap fun name => '/' :: name.toList) :
 ∃parent name other rest,root=parent++[name] ∧ place=parent++other::rest ∧
  name.toList <+: other.toList := by
 induction root generalizing place with
 | nil => exact absurd rfl hne
 | cons r root ih =>
  cases place with
  | nil => simp at h
  | cons p place =>
   simp only [flatMap_cons,cons_append,cons_prefix_cons,true_and] at h
   have hr:=hro r mem_cons_self
   obtain ⟨x,hx⟩ : ∃x,(place.flatMap fun name => '/' :: name.toList) ++ ['/'] = '/' :: x := by
    cases place <;> simp
   cases root with
   | nil =>
    refine ⟨[],r,p,place,rfl,rfl,?_⟩
    have hl:r.toList <+: p.toList ++ '/' :: x := by
     rw [←hx,←append_assoc]
     exact (by simpa using h : r.toList <+: _).trans (prefix_append _ _)
    exact (SeparatedText.prefix_append_cons_iff hr).mp hl
   | cons r' root =>
    have hsa:r.toList=p.toList:=by
     refine SeparatedText.token_eq_of_starts hr (hp p mem_cons_self) (?_ : _ <+: _ ++ '/' :: x)
     rw [←hx,←append_assoc]
     refine (IsPrefix.trans ?_ h).trans (prefix_append _ _)
     simp [prefix_append_right_inj]
    rw [hsa,prefix_append_right_inj] at h
    obtain ⟨parent,name,other,rest,hro',rfl,hn⟩:=
     ih (fun _ hme=>hro _ (mem_cons_of_mem _ hme))
      (fun _ hme=>hp _ (mem_cons_of_mem _ hme)) (by simp) h
    exact ⟨r::parent,name,other,rest,by rw [hro',cons_append],
     by rw [String.toList_inj.mp hsa,cons_append],hn⟩

end DhKit.PosixPaths

namespace DhKit.Context
open PosixPaths TextPatterns List

variable {ω : Type} (env : Surroundings ω)

def Surroundings.root : List String := resolve env.cwd env.repoRoot

/-- The path of an entry exists and is the repository or below it. -/
def Surroundings.Inside (workspace : ω) (filePath : String) : Prop :=
 env.root <+: resolve env.root filePath ∧
  env.existsSync workspace (render (resolve env.root filePath))

/-- At or below another directory beside the root whose name only begins like the root's. -/
def Beside (root place : List String) : Prop :=
 ∃ parent name other rest,root = parent++[name] ∧ place = parent++other::rest ∧
  name≠other ∧ StartsWith name other

theorem startsWith_render_iff {root place : List String} (hr:∀name∈root,IsName name)
 (hp:∀name∈place,IsName name) :
 StartsWith (render root) (render place) ↔ root <+: place ∨ Beside root place := by
 rcases eq_or_ne root [] with rfl|hne
 · simp [StartsWith,render]
 rcases eq_or_ne place [] with rfl|hne'
 · obtain ⟨name,root,rfl⟩:=exists_cons_of_ne_nil hne
   have hn:name.toList≠[]:=by simpa using (hr name mem_cons_self).nonempty
   rw [StartsWith,toList_render hne]
   simp [Beside,render,hn]
 rw [StartsWith,toList_render hne,toList_render hne']
 constructor
 · intro h
   obtain ⟨parent,name,other,rest,rfl,rfl,hn⟩:=
    starts_flatMap (fun _ hme=>(hr _ hme).noSlash) (fun _ hme=>(hp _ hme).noSlash)
     hne h
   by_cases hsa : name=other
   · exact .inl ⟨rest,by simp [hsa]⟩
   · exact .inr ⟨parent,name,other,rest,rfl,rfl,hsa,hn⟩
 · rintro (⟨rest,rfl⟩|⟨parent,name,other,rest,rfl,rfl,-,more,hmo⟩)
   · rw [flatMap_append]
     exact prefix_append _ _
   · exact ⟨more ++ rest.flatMap fun name => '/' :: name.toList,by simp [←hmo]⟩

theorem Beside.not_starts {root place : List String} (h:Beside root place) :
 ¬root <+: place := by
 obtain ⟨parent,name,other,rest,rfl,rfl,hne,-⟩:=h
 rw [prefix_append_right_inj,cons_prefix_cons]
 exact fun h=>hne h.1

theorem mem_mentionedPaths {workspace : ω} {query path : String} :
 path∈(fileMentionEntries env workspace query).map ContextLedgerEntry.filePath ↔
  path∈(mentions query).map stripRoot ∧
   StartsWith (render env.root) (render (resolve env.root path)) ∧
   env.existsSync workspace (render (resolve env.root path)) := by
 unfold fileMentionEntries
 induction mentions query with
 | nil => simp
 | cons mention rest ih =>
  rw [flatMap_cons,map_append,mem_append,ih,map_cons,mem_cons,or_and_right]
  refine or_congr_left ?_
  change path∈map _ (if ¬StartsWith (render env.root) (render (resolve env.root _)) ∨
   env.existsSync workspace (render (resolve env.root _))=false then _ else _) ↔ _
  split_ifs with hsk
  · simp only [map_nil,not_mem_nil,false_iff]
    rintro ⟨rfl,hst,hexi⟩
    simp_all
  · simp only [not_or,not_not,Bool.not_eq_false] at hsk
    simp only [map_cons,map_nil,mem_singleton]
    exact ⟨fun heq=>⟨heq,heq ▸ hsk⟩,And.left⟩

theorem mentions_inside_iff (hcwd : ∀ name ∈ env.cwd,IsName name) (workspace : ω) (query : String) :
 (∀ entry ∈ fileMentionEntries env workspace query,env.Inside workspace entry.filePath) ↔
 ∀ mention ∈ mentions query,
  env.existsSync workspace (render (resolve env.root (stripRoot mention))) →
   ¬ Beside env.root (resolve env.root (stripRoot mention)) := by
 have hr:∀name∈env.root,IsName name:=isName_resolve hcwd env.repoRoot
 refine ⟨fun h mention hmem hexi hb=>?_,fun h entry hen=>?_⟩
 · have hst:=(startsWith_render_iff hr (isName_resolve hr _)).mpr (.inr hb)
   obtain ⟨entry,hen,hp⟩:=mem_map.mp
    ((mem_mentionedPaths env).mpr ⟨mem_map_of_mem hmem,hst,hexi⟩)
   exact hb.not_starts (hp ▸ (h entry hen).1)
 · obtain ⟨hmem,hst,hexi⟩:=(mem_mentionedPaths env).mp (mem_map_of_mem hen)
   refine ⟨?_,hexi⟩
   rcases (startsWith_render_iff hr (isName_resolve hr _)).mp hst with hin|hb
   · exact hin
   · obtain ⟨mention,hme,hp⟩:=mem_map.mp hmem
     rw [←hp] at hexi hb
     exact absurd hb (h mention hme hexi)

/-- A repository with a neighbour whose name begins like its own. -/
def neighbours : Surroundings Unit where
 tree _ := []
 existsSync _ path := path ∈ ["/repo-old/a.ts","/repo/src/a.ts"]
 digest := id
 base64url := id
 base64url_injective := Function.injective_id
 accepts _ := true
 repoRoot := "/repo"
 cwd := []

theorem neighbour_mentioned : ¬ ∀ entry ∈ fileMentionEntries neighbours () "see ../repo-old/a.ts",
 neighbours.Inside () entry.filePath := by
 intro h
 have hen:(fileMentionEntries neighbours () "see ../repo-old/a.ts").map
  ContextLedgerEntry.filePath=["../repo-old/a.ts"] := by decide
 obtain ⟨entry,hme,hp⟩:=mem_map.mp (hen ▸ mem_singleton_self "../repo-old/a.ts")
 have hi:=(h entry hme).1
 rw [hp] at hi
 exact absurd hi (by decide)

theorem mentions_inside_own : neighbours.Inside () "src/a.ts" := by
 have hen:(fileMentionEntries neighbours () "see src/a.ts").map
  ContextLedgerEntry.filePath=["src/a.ts"] := by decide
 obtain ⟨entry,hmem,hp⟩:=mem_map.mp (hen ▸ mem_singleton_self "src/a.ts")
 rw [←hp]
 refine (mentions_inside_iff neighbours (by simp [neighbours]) () "see src/a.ts").mpr ?_ entry hmem
 have hme:mentions "see src/a.ts" = ["src/a.ts"] := by decide
 rw [hme]
 intro mention hmem _ hb
 rw [mem_singleton.mp hmem] at hb
 exact hb.not_starts (by decide)

end DhKit.Context
