import Mathlib.Data.List.Dedup
import Mathlib.Data.List.Induction
import DhKit.IndexRuns
import DhKit.SeparatedText

/-!
# Workspace roots

Roots that are not registered are numbered from the highest registered id on, and the numbers
saturate. A path belongs to the root with the longest text.
-/
namespace DhKit.Indexer
open KeyedTables List

def rootText (root : Int × Path) : String := normalizeRootPath root.2

section
variable (registered : List (Int × Path)) (roots : List Path)

structure Registered : Prop where
 ids : (registered.map Prod.fst).Nodup
 texts : (registered.map rootText).Nodup
 below : ∀ r ∈ registered,r.1 < i64Max

structure AssignedRightly (assigned : List (Int × Path)) : Prop where
 inOrder : assigned.map Prod.snd = roots
 kept : ∀ a ∈ assigned,∀ r ∈ registered,rootText a = rootText r → a.1 = r.1
 sameId : ∀ a ∈ assigned,∀ b ∈ assigned,a.1 = b.1 ↔ rootText a = rootText b
 fresh : ∀ a ∈ assigned,rootText a ∉ registered.map rootText → ∀ r ∈ registered,a.1≠r.1

/-- The texts of the roots that are not registered, each once. -/
def newTexts : List String :=
 ((roots.map normalizeRootPath).filter (· ∉ registered.map rootText)).dedup

variable (news : List String)

def numbered : List (String × Int) :=
 news.zipIdx.map fun t => (t.1,saturatingAdd (highestRootId registered) (t.2+1))

/-- The assignment after some roots, with the new texts in the order they came. -/
structure Numbered (a : RootAssignment) : Prop where
 known : a.known.rows = registered.map (fun r => (rootText r,r.1))++numbered registered news
 next : a.nextRootId = saturatingAdd (highestRootId registered) (news.length+1)
 mem : ∀ text,text ∈ news ↔ text ∈ roots.map normalizeRootPath ∧ text ∉ registered.map rootText
 inOrder : a.assignments.map Prod.snd = roots
 assigned : ∀ x ∈ a.assignments,(rootText x,x.1) ∈ a.known.rows

end

section
variable {registered : List (Int × Path)} {roots : List Path} {a : RootAssignment}
 {news : List String} {r : Int × Path} {i : Nat} {text : String} {id : Int}

theorem le_highestRootId (hr:r∈registered) : r.1 ≤ highestRootId registered := by
 unfold highestRootId
 cases hm : (registered.map Prod.fst).max? with
 | none => simp_all
 | some m => exact (max?_eq_some_iff.mp hm).2 _ (mem_map_of_mem hr)

theorem highestRootId_lt (h:Registered registered) : highestRootId registered < i64Max := by
 unfold highestRootId
 cases hm : (registered.map Prod.fst).max? with
 | none => decide
 | some m =>
  obtain ⟨r,hr,rfl⟩:=mem_map.mp (max?_eq_some_iff.mp hm).1
  exact h.below r hr

theorem mem_numbered : (text,id)∈numbered registered news ↔
 ∃i : Nat,news[i]?=some text ∧ saturatingAdd (highestRootId registered) (i+1)=id := by
 simp only [numbered,mem_map,Prod.exists,mk_mem_zipIdx_iff_getElem?,Prod.mk.injEq]
 constructor
 · rintro ⟨t,i,ht,rfl,rfl⟩
   exact ⟨i,ht,rfl⟩
 · rintro ⟨i,ht,rfl⟩
   exact ⟨text,i,ht,rfl,rfl⟩

theorem saturatingAdd_succ (a : Int) (n : Nat) :
 saturatingAdd (saturatingAdd a (n+1)) 1=saturatingAdd a ((n+1 : Nat)+1) := by
 unfold saturatingAdd
 omega

theorem map_fst_numbered : (numbered registered news).map Prod.fst=news := by
 rw [numbered,map_map]
 exact zipIdx_map_fst 0 news

theorem mem_keys_iff (h:Numbered registered roots news a) (text : String) :
 text∈a.known.rows.map Prod.fst ↔ text∈registered.map rootText ∨ text∈news := by
 rw [h.known,map_append,map_map,mem_append,map_fst_numbered]
 rfl

theorem Numbered.assignRoot (h:Numbered registered roots news a) (root : Path) :
 ∃news',Numbered registered (roots++[root]) news' (assignRoot a root) := by
 have hk:=mem_keys_iff h (normalizeRootPath root)
 cases hg : a.known.get (normalizeRootPath root) with
 | some id =>
  have hrow:=HashMap.get_eq_some.mp hg
  simp only [Indexer.assignRoot,hg]
  refine ⟨news,h.known,h.next,fun text=>?_,by simp [h.inOrder],fun x hx=>?_⟩
  · have hin:=hk.mp (mem_map_of_mem hrow)
    simp only [map_append,mem_append,h.mem] at hin ⊢
    grind
  · rcases mem_append.mp hx with hx|hx
    · exact h.assigned x hx
    · rwa [mem_singleton.mp hx]
 | none =>
  have hfr:normalizeRootPath root ∉ a.known.rows.map Prod.fst:=by
   rw [←HashMap.isSome_get_iff,hg]
   simp
  have hr:=Table.rows_upsert_of_fresh (a := (normalizeRootPath root,a.nextRootId)) hfr
  simp only [Indexer.assignRoot,hg]
  refine ⟨news++[normalizeRootPath root],?_,?_,fun text=>?_,by simp [h.inOrder],fun x hx=>?_⟩
  · rw [hr,h.known,numbered,numbered,zipIdx_append,map_append,append_assoc,h.next]
    simp
  · rw [h.next,length_append,length_singleton]
    exact saturatingAdd_succ _ _
  · rw [hk] at hfr
    simp only [map_append,mem_append,h.mem] at hfr ⊢
    grind
  rw [hr]
  rcases mem_append.mp hx with hx|hx
  · exact mem_append_left _ (h.assigned x hx)
  · rw [mem_singleton.mp hx]
    exact mem_append_right _ mem_cons_self

theorem Numbered.run (h:Numbered registered roots news a) (more : List Path) :
 ∃news',Numbered registered (roots++more) news' (more.foldl Indexer.assignRoot a) := by
 induction more generalizing roots news a with
 | nil => exact ⟨news,by simpa using h⟩
 | cons root more ih =>
  obtain ⟨news',h'⟩:=h.assignRoot root
  simpa using ih h'

theorem numbered_run (h:Registered registered) (roots : List Path) : ∃news a,
 Numbered registered roots news a ∧ a.assignments=assignWorkspaceRootIds registered roots := by
 have hr:(HashMap.collect (registered.map fun r=>(rootText r,r.1))).rows =
  registered.map fun r=>(rootText r,r.1) := by
  refine Table.rows_foldl_upsert ?_
  rw [Table.rows_empty,nil_append,map_map]
  exact h.texts
 obtain ⟨news,hru⟩:=(show Numbered registered [] [] ⟨_,_,[]⟩ from
  ⟨hr.trans (append_nil _).symm,rfl,by simp,rfl,by simp⟩).run roots
 exact ⟨news,_,hru,rfl⟩

theorem id_unique {id' : Int} (hid:(text,id)∈a.known.rows)
 (hid':(text,id')∈a.known.rows) : id=id' :=
 congrArg Prod.snd (a.known.row_unique hid hid' rfl)

theorem Numbered.nodup (h:Numbered registered roots news a) : news.Nodup := by
 have hk:=a.known.nodup
 rw [h.known,map_append,map_fst_numbered] at hk
 exact hk.of_append_right

theorem Numbered.of_new (h:Numbered registered roots news a) (ht:news[i]?=some text) :
 ∃x : Int × Path,x∈a.assignments ∧ rootText x=text ∧
  x.1=saturatingAdd (highestRootId registered) (i+1) := by
 have hme:=((h.mem text).mp (mem_of_getElem? ht)).1
 rw [←h.inOrder,map_map] at hme
 obtain ⟨x,hx,rfl⟩:=mem_map.mp hme
 refine ⟨x,hx,rfl,id_unique (h.assigned x hx) ?_⟩
 rw [h.known]
 exact mem_append_right _ (mem_numbered.mpr ⟨i,ht,rfl⟩)

theorem Numbered.row_cases (h:Numbered registered roots news a)
 (hle:(news.length : Int) ≤ i64Max-highestRootId registered) (hrow:(text,id)∈a.known.rows) :
 (∃r∈registered,rootText r=text ∧ r.1=id) ∨
  ∃i : Nat,news[i]?=some text ∧ id=highestRootId registered+(i+1) := by
 rw [h.known,mem_append] at hrow
 refine hrow.imp (fun hr=>by simpa using hr) fun hr=>?_
 obtain ⟨i,ht,rfl⟩:=mem_numbered.mp hr
 obtain ⟨hi,-⟩:=List.getElem?_eq_some_iff.mp ht
 exact ⟨i,ht,min_eq_left (by omega)⟩

theorem assigned_iff (h:Registered registered) (roots : List Path) :
 AssignedRightly registered roots (assignWorkspaceRootIds registered roots) ↔
  ((newTexts registered roots).length : Int) ≤ i64Max-highestRootId registered := by
 obtain ⟨news,a,hru,ha⟩:=numbered_run h roots
 have hl:news.length=(newTexts registered roots).length:=by
  refine Perm.length_eq ((perm_ext_iff_of_nodup hru.nodup (nodup_dedup _)).mpr fun text=>?_)
  rw [hru.mem,mem_dedup,mem_filter,decide_eq_true_iff]
 rw [←ha,←hl]
 constructor
 · intro hri
   by_contra hlt
   -- the last two numbers that fit
   obtain ⟨d,hd⟩:=Int.eq_ofNat_of_zero_le (a := i64Max-highestRootId registered-1)
    (by have := highestRootId_lt h; omega)
   obtain ⟨x,hx,htx,hidx⟩:=hru.of_new (getElem?_eq_getElem (i := d) (by omega))
   obtain ⟨y,hy,hty,hidy⟩:=hru.of_new (getElem?_eq_getElem (i := d+1) (by omega))
   have hid:x.1=y.1:=by
    rw [hidx,hidy]
    unfold saturatingAdd
    omega
   have htext:=(hri.sameId x hx y hy).mp hid
   rw [htx,hty,hru.nodup.getElem_inj_iff] at htext
   omega
 · intro hle
   have hro:∀r∈registered,(rootText r,r.1)∈a.known.rows:=by
    intro r hr
    rw [hru.known]
    exact mem_append_left _ (mem_map.mpr ⟨r,hr,rfl⟩)
   refine ⟨hru.inOrder,fun x hx r hr ht=>?_,fun x hx y hy=>⟨fun hid=>?_,fun ht=>?_⟩,
    fun x hx hn r hr=>?_⟩
   · exact id_unique (hru.assigned x hx) (ht ▸ hro r hr)
   · rcases hru.row_cases hle (hru.assigned x hx) with ⟨r,hr,ht,hi⟩|⟨i,ht,hi⟩ <;>
      rcases hru.row_cases hle (hru.assigned y hy) with ⟨r',hr',ht',hi'⟩|⟨j,ht',hj⟩
     · rw [←ht,←ht',inj_on_of_nodup_map h.ids hr hr' (by rw [hi,hi',hid])]
     · have := le_highestRootId hr
       omega
     · have := le_highestRootId hr'
       omega
     · obtain rfl : i=j := by omega
       exact Option.some.inj (ht.symm.trans ht')
   · exact id_unique (hru.assigned x hx) (ht ▸ hru.assigned y hy)
   rcases hru.row_cases hle (hru.assigned x hx) with ⟨r',hr',ht,-⟩|⟨i,-,hi⟩
   · exact absurd (ht ▸ mem_map_of_mem hr') hn
   · have := le_highestRootId hr
     omega

end

/-- The names of an absolute path. -/
def IsComponent (name : String) : Prop := name≠"" ∧ name≠"." ∧ '/' ∉ name.toList

/-- No other root that holds the path is deeper. -/
structure Deepest (roots : List (Int × Path)) (path : Path) (r : Int × Path) (rest : Path) :
 Prop where
 mem : r ∈ roots
 holds : r.2++rest = path
 deepest : ∀ r' ∈ roots,r'.2 <+: path → r'.2 <+: r.2

def ResolvedRightly (roots : List (Int × Path)) (path : Path) : Option FileKey → Prop
 | none => ∀ r ∈ roots,¬ r.2 <+: path
 | some key => ∃ r rest,Deepest roots path r rest ∧ key.rootId = r.1 ∧
  key.relPath.text = String.intercalate "/" rest

section
variable {roots : List (Int × Path)} {path root rest more : Path} {r : Int × Path} {key : FileKey}

theorem stripRoot_eq_some : Disk.stripRoot root path=some rest ↔ root++rest=path := by
 fun_induction Disk.stripRoot root path with
 | case1 path => simp [eq_comm]
 | case2 => simp
 | case3 r root path ih => simpa using ih
 | case4 r root p path hne => simp [hne]

theorem utf8Len_slashed (text : List Char) :
 String.utf8Len (text.map fun c=>if c = '\\' then '/' else c)=String.utf8Len text := by
 induction text with
 | nil => rfl
 | cons c text ih =>
  rw [map_cons,String.utf8Len_cons,String.utf8Len_cons,ih]
  split_ifs with hc
  · rw [hc]
    rfl
  · rfl

theorem size_normalizeRootPath : (normalizeRootPath root).utf8ByteSize =
 1+("/".intercalate root).utf8ByteSize := by
 rw [normalizeRootPath,replaceBackslash,String.utf8ByteSize_ofList,utf8Len_slashed,
  ← String.utf8ByteSize_ofList,String.ofList_toList,displayPath,String.utf8ByteSize_append]
 rfl

/-- A root below another has the longer text. -/
theorem size_lt (hmo:more≠[]) (hn:∀name∈more,IsComponent name) :
 (normalizeRootPath root).utf8ByteSize < (normalizeRootPath (root++more)).utf8ByteSize := by
 rw [size_normalizeRootPath,size_normalizeRootPath]
 have hslash:"/".utf8ByteSize=1 := rfl
 by_cases hr : root=[]
 · obtain ⟨name,more,rfl⟩:=exists_cons_of_ne_nil hmo
   have hna:=mt String.utf8ByteSize_eq_zero_iff.mp (hn name mem_cons_self).1
   rw [hr,nil_append,String.intercalate_nil,String.utf8ByteSize_empty]
   cases more with
   | nil =>
    rw [String.intercalate_singleton]
    omega
   | cons next more =>
    rw [String.intercalate_cons_cons,String.utf8ByteSize_append,String.utf8ByteSize_append]
    omega
 · rw [String.intercalate_append_of_ne_nil hr hmo,String.utf8ByteSize_append,
    String.utf8ByteSize_append]
   omega

theorem exists_toList_intercalate (name : String) (rest : Path) :
 ∃more,("/".intercalate (name::rest)).toList++['/']=name.toList ++ '/' :: more := by
 cases rest with
 | nil => exact ⟨[],by simp⟩
 | cons next rest =>
  rw [String.intercalate_cons_cons,String.toList_append,String.toList_append,append_assoc,
   append_assoc]
  exact ⟨_,rfl⟩

theorem text_normalizeWorkspaceRelPath (hr:∀name∈rest,IsComponent name) :
 (normalizeWorkspaceRelPath rest).text = "/".intercalate rest ↔
  '\\' ∉ ("/".intercalate rest).toList := by
 refine ⟨fun h=>h ▸ (normalizeWorkspaceRelPath rest).slashed,fun h=>?_⟩
 have hsa:(normalizeRelPath rest).text = "/".intercalate rest := by
  refine .trans (congrArg String.ofList ?_) (String.ofList_toList)
  refine .trans (map_congr_left fun c hc=>?_) (map_id _)
  exact if_neg fun heq : c = '\\' => h (heq ▸ hc)
 rw [normalizeWorkspaceRelPath,if_neg,hsa]
 rw [hsa]
 intro hdo
 cases rest with
 | nil => simp at hdo
 | cons name rest =>
  obtain ⟨hne,hdotn,hslash⟩:=hr name mem_cons_self
  obtain ⟨more,hmo⟩:=exists_toList_intercalate name rest
  have heq:=SeparatedText.token_eq_of_starts (t := ['.']) (by decide) hslash
   (hmo ▸ hdo.trans (prefix_append _ _))
  exact hdotn (String.toList_inj.mp heq.symm)

theorem longestRoot_spec (length : FileKey → Nat) {keys : List FileKey} (h:keys≠[]) :
 ∃key∈keys,longestRoot length keys=some key ∧ ∀k∈keys,length k ≤ length key := by
 induction keys using reverseRecOn with
 | nil => exact absurd rfl h
 | append_singleton keys last ih =>
  by_cases hke : keys=[]
  · exact ⟨last,by simp,by simp [hke,longestRoot],by simp [hke]⟩
  obtain ⟨key,hkey,hl,hma⟩:=ih hke
  rw [longestRoot,foldl_append,←longestRoot,hl]
  by_cases hle : length key ≤ length last
  · refine ⟨last,by simp,by simp [hle],fun k hk=>?_⟩
    rcases mem_append.mp hk with hk|hk
    · exact (hma k hk).trans hle
    · rw [mem_singleton.mp hk]
  refine ⟨key,by simp [hkey],by simp [hle],fun k hk=>?_⟩
  rcases mem_append.mp hk with hk|hk
  · exact hma k hk
  · rw [mem_singleton.mp hk]
    omega

/-- `canonicalize` leaves a path without links as it is. -/
theorem keyBelowRoot_eq_some {disk : Disk} (hl:∀c∈disk.canonicalize path,c=path) :
 keyBelowRoot [(disk.canonicalize path).getD path,path] r=some key ↔
  ∃rest,r.2++rest=path ∧ ⟨r.1,normalizeWorkspaceRelPath rest⟩=key := by
 have hf:(disk.canonicalize path).getD path=path:=by
  cases hc : disk.canonicalize path with
  | none => rfl
  | some c => exact hl c hc
 rw [hf,keyBelowRoot,Option.map_eq_some_iff]
 simp only [findSome?_cons,findSome?_nil]
 refine exists_congr fun rest=>and_congr_left' ?_
 rw [←stripRoot_eq_some]
 cases Disk.stripRoot r.2 path <;> simp

theorem Deepest.rest_eq {r' : Int × Path} {rest' : Path} (h:Deepest roots path r rest)
 (h':Deepest roots path r' rest') : rest=rest' := by
 have hsa:r.2=r'.2:=(h'.deepest r h.mem ⟨rest,h.holds⟩).eq_of_length_le
  (h.deepest r' h'.mem ⟨rest',h'.holds⟩).length_le
 refine append_cancel_left (h.holds.trans ?_)
 rw [hsa,h'.holds]

theorem resolved_iff {disk : Disk} (h:(roots.map Prod.fst).Nodup)
 (hpa:∀name∈path,IsComponent name) (hl:∀c∈disk.canonicalize path,c=path) :
 ResolvedRightly roots path (resolveTouchedFileKey disk roots (.absolute path)) ↔
  ∀r rest,Deepest roots path r rest → '\\' ∉ ("/".intercalate rest).toList := by
 simp only [resolveTouchedFileKey]
 generalize hk : roots.filterMap (keyBelowRoot [(disk.canonicalize path).getD path,path])=keys
 have hme:∀key,key∈keys ↔ ∃r∈roots,∃rest,r.2++rest=path ∧
  ⟨r.1,normalizeWorkspaceRelPath rest⟩=key := by
  intro key
  rw [←hk,mem_filterMap]
  simp only [keyBelowRoot_eq_some hl]
 by_cases hnone : keys=[]
 · have hno:∀r∈roots,¬r.2 <+: path:=by
    rintro r hr ⟨rest,hre⟩
    have hin:=(hme _).mpr ⟨r,hr,rest,hre,rfl⟩
    rw [hnone] at hin
    cases hin
   rw [hnone]
   exact iff_of_true hno fun r rest hde=>absurd ⟨rest,hde.holds⟩ (hno r hde.mem)
 have hf:∀r∈roots,roots.find? (fun q=>q.1=r.1)=some r:=fun r hr=>
  (Table.find_eq_some ⟨roots,h⟩).mpr ⟨hr,rfl⟩
 obtain ⟨key,hke,hlo,hma⟩:=longestRoot_spec (fun key=>((roots.find? fun r=>
  r.1=key.rootId).map fun r=>(normalizeRootPath r.2).utf8ByteSize).getD 0) hnone
 rw [hlo]
 obtain ⟨r,hr,rest,hre,rfl⟩:=(hme key).mp hke
 have hde:Deepest roots path r rest:=by
  refine ⟨hr,hre,fun r' hr' hp=>?_⟩
  rcases prefix_or_prefix_of_prefix hp ⟨rest,hre⟩ with hle|⟨more,hmo⟩
  · exact hle
  by_cases hm : more=[]
  · rw [←hmo,hm,append_nil]
  obtain ⟨rest',hre'⟩:=hp
  have hsi:=hma _ ((hme _).mpr ⟨r',hr',rest',hre',rfl⟩)
  simp only [hf r hr,hf r' hr',Option.map_some,Option.getD_some] at hsi
  have hlt:=@size_lt r.2 more hm fun name hn=>hpa name (by simp [←hre',←hmo,hn])
  rw [hmo] at hlt
  omega
 have htext:=@text_normalizeWorkspaceRelPath rest fun name hn=>hpa name (by
  simp [←hre,hn])
 constructor
 · rintro ⟨r0,rest0,hde0,-,heq⟩ r1 rest1 hde1
   rw [←hde.rest_eq hde0] at heq
   rw [←hde.rest_eq hde1]
   exact htext.mp heq
 · intro hslash
   exact ⟨r,rest,hde,rfl,htext.mpr (hslash r rest hde)⟩

theorem roots_right_iff (h : Registered roots) :
 (∀ requested,AssignedRightly roots requested (assignWorkspaceRootIds roots requested) ↔
  ((newTexts roots requested).length : Int) ≤ i64Max-highestRootId roots) ∧
 ∀ disk path,(∀ name∈path,IsComponent name) → (∀ c∈disk.canonicalize path,c=path) →
  (ResolvedRightly roots path (resolveTouchedFileKey disk roots (.absolute path)) ↔
   ∀ r rest,Deepest roots path r rest → '\\' ∉ ("/".intercalate rest).toList) :=
 ⟨assigned_iff h,fun _ _ hp hl=>resolved_iff h.ids hp hl⟩

def nested : List (Int × Path) := [(1,["a"]),(2,["a","b"])]

theorem nested_right : AssignedRightly nested [["a","b"],["c"]]
 (assignWorkspaceRootIds nested [["a","b"],["c"]]) ∧ ResolvedRightly nested ["a","b","c.ts"]
  (resolveTouchedFileKey ⟨Table.empty,fun _ _=>false,fun _=>none⟩ nested
   (.absolute ["a","b","c.ts"])) := by
 have h:=@roots_right_iff nested ⟨by decide,by decide,by decide⟩
 refine ⟨(h.1 _).mpr (by decide),(h.2 _ _ (by simp [IsComponent]) (by simp)).mpr ?_⟩
 rintro r rest ⟨hme,hr,-⟩
 simp only [nested,mem_cons,not_mem_nil,or_false] at hme
 rcases hme with rfl|rfl <;> cases hr <;> decide

/-- The counter stays at the greatest number. -/
theorem two_new_not_right : Registered [(i64Max-1,["a"])] ∧
 ¬ AssignedRightly [(i64Max-1,["a"])] [["b"],["c"]]
  (assignWorkspaceRootIds [(i64Max-1,["a"])] [["b"],["c"]]) := by
 have hi:assignWorkspaceRootIds [(i64Max-1,["a"])] [["b"],["c"]] =
  [(i64Max,["b"]),(i64Max,["c"])] := by decide
 refine ⟨⟨by decide,by decide,by decide⟩,fun h=>?_⟩
 rw [hi] at h
 exact absurd ((h.sameId (i64Max,["b"]) (by simp) (i64Max,["c"]) (by simp)).mp rfl) (by decide)

end

end DhKit.Indexer
