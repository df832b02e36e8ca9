import Mathlib.Data.List.Nodup

/-!
# Tables with a primary key

A table is a list of rows whose keys are distinct, in insertion order.
-/
namespace DhKit.KeyedTables
open List

structure Table (κ α : Type) (key : α → κ) where
 rows : List α
 nodup : (rows.map key).Nodup

namespace Table
variable {κ α : Type} {key : α → κ} {t u : Table κ α key} {a : α} {l : List α} {b : α} {k : κ}

@[ext] theorem ext_rows (h:t.rows=u.rows) : t=u := by
 cases t
 cases u
 simpa using h

def empty : Table κ α key := ⟨[],by simp⟩

@[simp] theorem rows_empty : (empty : Table κ α key).rows=[] := rfl

theorem row_unique (t : Table κ α key) (ha:a∈t.rows) (hb:b∈t.rows)
 (h:key a=key b) : a=b :=
 inj_on_of_nodup_map t.nodup ha hb h

def deleteWhere (t : Table κ α key) (p : α → Bool) : Table κ α key :=
 ⟨t.rows.filter (fun a => !p a),t.nodup.sublist (filter_sublist.map key)⟩

@[simp] theorem rows_deleteWhere (t : Table κ α key) (p : α → Bool) :
 (t.deleteWhere p).rows=t.rows.filter (fun a=>!p a) := rfl

variable [DecidableEq κ]

section
variable (t : Table κ α key)

def find (k : κ) : Option α := t.rows.find? (fun a => key a = k)

theorem find_eq_some :
 t.find k=some a ↔ a∈t.rows ∧ key a=k := by
 constructor
 · intro h
   exact ⟨mem_of_find?_eq_some h,by simpa using find?_some h⟩
 rintro ⟨ha,rfl⟩
 cases h : t.find (key a) with
 | none =>
  have := find?_eq_none.mp h a ha
  simp at this
 | some b =>
  have hb:b∈t.rows:=mem_of_find?_eq_some h
  have hk:key b=key a:=by simpa using find?_some h
  rw [t.row_unique hb ha hk]

theorem find_eq_none :
 t.find k=none ↔ ∀a∈t.rows,key a≠k := by
 simp [find]

def insert (a : α) : Option (Table κ α key) :=
 if h : key a ∈ t.rows.map key then none
 else some ⟨t.rows++[a],by
  simpa [nodup_append,t.nodup] using fun b hb he => h (mem_map.mpr ⟨b,hb,he⟩)⟩

end

theorem insert_eq_some :
 t.insert a=some u ↔ key a ∉ t.rows.map key ∧ u.rows=t.rows++[a] := by
 unfold insert
 split_ifs with h
 · simp [h]
 constructor
 · intro hu
   cases hu
   exact ⟨h,rfl⟩
 · rintro ⟨_,hr⟩
   exact congrArg some (ext_rows hr.symm)

theorem find_insert (h:t.insert a=some u) (k : κ) :
 u.find k=if k=key a then some a else t.find k := by
 obtain ⟨hfr,hr⟩:=insert_eq_some.mp h
 by_cases hk : k=key a
 · rw [if_pos hk,find_eq_some,hr]
   exact ⟨by simp,hk.symm⟩
 rw [if_neg hk,find,hr,find?_append]
 have hl:[a].find? (fun b=>key b=k)=none:=by simp [Ne.symm hk]
 rw [hl,Option.or_none]
 rfl

theorem mem_keys_iff_find :
 k∈t.rows.map key ↔ (t.find k).isSome := by
 rw [Option.isSome_iff_exists,mem_map]
 simp [find_eq_some]

def modifyRows (key : α → κ) (l : List α) (k : κ) (f : α → α) : List α :=
 l.map fun a => if key a = k then f a else a

theorem map_key_modifyRows (l : List α) (k : κ) {f : α → α} (hf:∀a,key (f a)=key a) :
 (modifyRows key l k f).map key=l.map key := by
 unfold modifyRows
 rw [map_map]
 apply map_congr_left
 intro a _
 by_cases ha : key a=k <;> simp [ha,hf]

def modify (t : Table κ α key) (k : κ) (f : α → α) (hf : ∀ a,key (f a) = key a) :
 Table κ α key :=
 ⟨modifyRows key t.rows k f,by rw [map_key_modifyRows t.rows k hf]; exact t.nodup⟩

@[simp] theorem keys_modify (t : Table κ α key) (k : κ) (f : α → α)
 (hf:∀a,key (f a)=key a) : (t.modify k f hf).rows.map key=t.rows.map key :=
 map_key_modifyRows t.rows k hf

theorem find_modify (t : Table κ α key) (k : κ) (f : α → α) (hf:∀a,key (f a)=key a)
 (k' : κ) : (t.modify k f hf).find k'=if k'=k then (t.find k).map f else t.find k' := by
 have hke:∀a,key (if key a=k then f a else a)=key a:=by
  intro a
  by_cases ha : key a=k <;> simp [ha,hf]
 unfold find modify modifyRows
 rw [find?_map]
 simp only [Function.comp_def,hke]
 by_cases hk : k'=k
 · subst hk
   rw [if_pos rfl]
   cases hfi : t.rows.find? (fun a=>decide (key a=k')) with
   | none => rfl
   | some a =>
    have ha:key a=k':=by simpa using find?_some hfi
    simp [ha]
 · rw [if_neg hk]
   cases hfi : t.rows.find? (fun a=>decide (key a=k')) with
   | none => rfl
   | some a =>
    have ha:key a=k':=by simpa using find?_some hfi
    simp [ha,hk]

def insertAll (t : Table κ α key) : List α → Option (Table κ α key)
 | [] => some t
 | a::l => (t.insert a).bind fun u => insertAll u l

theorem insertAll_rows (h:t.insertAll l=some u) :
 u.rows=t.rows++l := by
 induction l generalizing t with
 | nil =>
  cases h
  simp
 | cons a l ih =>
  simp only [insertAll,Option.bind_eq_some_iff] at h
  obtain ⟨v,hv,hu⟩:=h
  rw [ih hu,(insert_eq_some.mp hv).2,append_assoc,singleton_append]

theorem insertAll_isSome (h:((t.rows++l).map key).Nodup) : ∃u,t.insertAll l=some u := by
 induction l generalizing t with
 | nil => exact ⟨t,rfl⟩
 | cons a l ih =>
  have hfr:key a ∉ t.rows.map key:=by
   rw [map_append,nodup_append] at h
   intro hm
   exact h.2.2 _ hm (key a) (by simp) rfl
  obtain ⟨u,hu⟩ : ∃u,t.insert a=some u := by
   exact ⟨_,dif_neg hfr⟩
  have hr:=(insert_eq_some.mp hu).2
  obtain ⟨v,hv⟩:=ih (t := u) (by rw [hr]; simpa using h)
  exact ⟨v,by simp [insertAll,hu,hv]⟩

/-- Replace the rows that hold the key of `a` by `a`. -/
def replace (key : α → κ) (l : List α) (a : α) : List α :=
 l.map (fun b => if key b = key a then a else b)

theorem map_key_replace (l : List α) (a : α) :
 (replace key l a).map key=l.map key := by
 unfold replace
 rw [map_map]
 apply map_congr_left
 intro b _
 by_cases hb : key b=key a <;> simp [hb]

def upsert (t : Table κ α key) (a : α) : Table κ α key :=
 if h : key a ∈ t.rows.map key then
  ⟨replace key t.rows a,by rw [map_key_replace]; exact t.nodup⟩
 else ⟨t.rows++[a],by
  simpa [nodup_append,t.nodup] using fun b hb he => h (mem_map.mpr ⟨b,hb,he⟩)⟩

theorem mem_upsert :
 b∈(t.upsert a).rows ↔ b=a ∨ b∈t.rows ∧ key b≠key a := by
 unfold upsert
 split_ifs with h
 · simp only [replace,mem_map] at h ⊢
   constructor
   · rintro ⟨c,hc,rfl⟩
     by_cases hk : key c=key a
     · left
       simp [hk]
     · right
       simpa [hk] using hc
   · rintro (rfl|⟨hb,hk⟩)
     · obtain ⟨c,hc,hk⟩:=h
       exact ⟨c,hc,by simp [hk]⟩
     · exact ⟨b,hb,by simp [hk]⟩
 · simp only [mem_append,mem_singleton]
   constructor
   · rintro (hb|rfl)
     · exact .inr ⟨hb,fun he=>h (mem_map.mpr ⟨b,hb,he⟩)⟩
     · exact .inl rfl
   · rintro (rfl|⟨hb,_⟩)
     · exact .inr rfl
     · exact .inl hb

theorem rows_upsert_of_fresh (h:key a ∉ t.rows.map key) :
 (t.upsert a).rows=t.rows++[a] := by
 rw [upsert,dif_neg h]

omit [DecidableEq κ] in
theorem rows_foldl_of_fresh {f : Table κ α key → α → Table κ α key}
 (hf:∀t a,key a ∉ t.rows.map key → (f t a).rows=t.rows++[a])
 (h:((t.rows++l).map key).Nodup) : (l.foldl f t).rows=t.rows++l := by
 induction l generalizing t with
 | nil => rw [foldl_nil,append_nil]
 | cons a l ih =>
  have hfr:key a ∉ t.rows.map key:=by
   intro hme
   rw [map_append,nodup_append] at h
   exact h.2.2 _ hme _ mem_cons_self rfl
  have hr:=hf t a hfr
  rw [foldl_cons,ih,hr,append_assoc,singleton_append]
  rw [hr,append_assoc,singleton_append]
  exact h

theorem rows_foldl_upsert (h:((t.rows++l).map key).Nodup) :
 (l.foldl upsert t).rows=t.rows++l :=
 rows_foldl_of_fresh (fun _ _=>rows_upsert_of_fresh) h

def insertOrKeep (t : Table κ α key) (a : α) : Table κ α key := (t.insert a).getD t

theorem insertOrKeep_of_fresh (h:key a ∉ t.rows.map key) :
 (t.insertOrKeep a).rows=t.rows++[a] := by
 rw [insertOrKeep,insert,dif_neg h]
 rfl

theorem insertOrKeep_of_mem (h:key a∈t.rows.map key) :
 t.insertOrKeep a=t := by
 rw [insertOrKeep,insert,dif_pos h]
 rfl

theorem length_foldl_insertOrKeep_le (t : Table κ α key) (l : List α) :
 (l.foldl insertOrKeep t).rows.length ≤ t.rows.length+l.length := by
 induction l generalizing t with
 | nil => simp
 | cons a l ih =>
  have hr:=ih (t.insertOrKeep a)
  rw [foldl_cons,length_cons]
  by_cases h : key a∈t.rows.map key
  · rw [insertOrKeep_of_mem h] at hr ⊢
    omega
  · rw [insertOrKeep_of_fresh h,length_append,length_singleton] at hr
    omega

theorem rows_foldl_insertOrKeep (h:((t.rows++l).map key).Nodup) :
 (l.foldl insertOrKeep t).rows=t.rows++l :=
 rows_foldl_of_fresh (fun _ _=>insertOrKeep_of_fresh) h

theorem foldl_insertOrKeep_full (h:(l.foldl insertOrKeep t).rows.length=t.rows.length+l.length) :
 ((t.rows++l).map key).Nodup := by
 induction l generalizing t with
 | nil =>
  rw [append_nil]
  exact t.nodup
 | cons a l ih =>
  rw [foldl_cons,length_cons] at h
  by_cases hme : key a∈t.rows.map key
  · have hle:=length_foldl_insertOrKeep_le t l
    rw [insertOrKeep_of_mem hme] at h
    omega
  have hro:=insertOrKeep_of_fresh hme
  have hr:=@ih (t.insertOrKeep a)
  rw [hro,length_append,length_singleton,append_assoc,singleton_append] at hr
  apply hr
  omega

theorem rows_upsert_of_mem (hb:b∈t.rows) (hk:key b=key a) :
 ∃before after,t.rows=before++b::after ∧ (t.upsert a).rows=before++a::after := by
 obtain ⟨before,after,hr⟩:=append_of_mem hb
 have hme:key a∈t.rows.map key:=mem_map.mpr ⟨b,hb,hk⟩
 have hn:=t.nodup
 rw [hr,map_append,map_cons,nodup_append,nodup_cons] at hn
 obtain ⟨-,⟨haf,-⟩,hbe⟩:=hn
 refine ⟨before,after,hr,?_⟩
 have hke:∀l : List α,(∀c∈l,key c≠key a) →
  l.map (fun c=>if key c=key a then a else c)=l := by
  intro l hl
  conv_rhs => rw [←map_id l]
  apply map_congr_left
  intro c hc
  rw [if_neg (hl c hc)]
  rfl
 rw [upsert,dif_pos hme]
 change replace key t.rows a=_
 rw [replace,hr,map_append,map_cons,if_pos hk,hke before,hke after]
 · intro c hc he
   exact haf (mem_map.mpr ⟨c,hc,he.trans hk.symm⟩)
 · intro c hc he
   exact hbe (key c) (mem_map.mpr ⟨c,hc,rfl⟩) (key b) (by simp) (he.trans hk.symm)

@[simp] theorem rows_upsert_empty (a : α) : ((empty : Table κ α key).upsert a).rows=[a] := by
 simp [upsert]

theorem mem_upsert_self (t : Table κ α key) (a : α) : a∈(t.upsert a).rows :=
 mem_upsert.mpr (.inl rfl)

theorem mem_keys_upsert :
 k∈(t.upsert a).rows.map key ↔ k=key a ∨ k∈t.rows.map key := by
 simp only [mem_map,mem_upsert]
 constructor
 · rintro ⟨b,rfl|⟨hb,_⟩,rfl⟩
   · exact .inl rfl
   · exact .inr ⟨b,hb,rfl⟩
 · rintro (rfl|⟨b,hb,rfl⟩)
   · exact ⟨a,.inl rfl,rfl⟩
   · by_cases hk : key b=key a
     · exact ⟨a,.inl rfl,hk.symm⟩
     · exact ⟨b,.inr ⟨hb,hk⟩,rfl⟩

theorem nodup_upsert {ι : Type} (t : Table κ α key) (g : α → ι) (hg:(t.rows.map g).Nodup)
 (a : α) (ha:∀b∈t.rows,key b≠key a → g b≠g a) : ((t.upsert a).rows.map g).Nodup := by
 unfold upsert
 split_ifs with h
 · have hk:((replace key t.rows a).map key).Nodup:=by
    rw [map_key_replace]
    exact t.nodup
   refine Nodup.map_on ?_ (Nodup.of_map key hk)
   simp only [replace,mem_map]
   rintro x ⟨b,hb,rfl⟩ y ⟨c,hc,rfl⟩ hxy
   by_cases hbk : key b=key a <;> by_cases hck : key c=key a
   · simp [hbk,hck]
   · simp only [hbk,hck] at hxy
     exact absurd hxy.symm (ha c hc hck)
   · simp only [hbk,hck] at hxy
     exact absurd hxy (ha b hb hbk)
   · simp only [hbk,hck] at hxy ⊢
     exact inj_on_of_nodup_map hg hb hc hxy
 · rw [map_append,nodup_append]
   refine ⟨hg,by simp,?_⟩
   simp only [mem_map,map_cons,map_nil,mem_singleton]
   rintro _ ⟨b,hb,rfl⟩ _ rfl
   exact ha b hb (fun he=>h (mem_map.mpr ⟨b,hb,he⟩))

theorem find_upsert (t : Table κ α key) (a : α) (k : κ) :
 (t.upsert a).find k=if k=key a then some a else t.find k := by
 split_ifs with h
 · exact (find_eq_some _).mpr ⟨mem_upsert_self t a,h.symm⟩
 cases hf : t.find k with
 | none =>
  rw [find_eq_none] at hf ⊢
  intro b hb
  rcases mem_upsert.mp hb with rfl|⟨hb,-⟩
  · exact Ne.symm h
  · exact hf b hb
 | some b =>
  rw [find_eq_some] at hf ⊢
  obtain ⟨hb,rfl⟩:=hf
  exact ⟨mem_upsert.mpr (.inr ⟨hb,h⟩),rfl⟩

end Table

abbrev HashMap (κ α : Type) := Table κ (κ × α) Prod.fst

namespace HashMap
variable {κ α : Type} [DecidableEq κ] {k : κ} {m : HashMap κ α} {entries : List (κ × α)} {a : α}

def get (m : HashMap κ α) (k : κ) : Option α := (m.find k).map Prod.snd

theorem get_eq_some :
 m.get k=some a ↔ (k,a)∈m.rows := by
 simp only [get,Option.map_eq_some_iff,Table.find_eq_some]
 constructor
 · rintro ⟨⟨k',a'⟩,⟨hm,rfl⟩,rfl⟩
   exact hm
 · intro h
   exact ⟨(k,a),⟨h,rfl⟩,rfl⟩

theorem get_upsert (m : HashMap κ α) (k k' : κ) (a : α) :
 get (m.upsert (k,a)) k'=if k'=k then some a else m.get k' := by
 unfold get
 rw [Table.find_upsert]
 split_ifs <;> rfl

theorem get_deleteKey (m : HashMap κ α) (k k' : κ) :
 get (m.deleteWhere fun row=>row.1=k) k'=if k'=k then none else m.get k' := by
 apply Option.ext
 intro a
 rw [get_eq_some]
 split_ifs with hsa
 · simp [hsa]
 · simp [hsa,get_eq_some]

@[simp] theorem get_empty (k : κ) : get (Table.empty : HashMap κ α) k=none := rfl

theorem isSome_get_iff :
 (m.get k).isSome ↔ k∈m.rows.map Prod.fst := by
 constructor
 · intro h
   obtain ⟨a,ha⟩:=Option.isSome_iff_exists.mp h
   exact mem_map.mpr ⟨(k,a),get_eq_some.mp ha,rfl⟩
 · intro h
   obtain ⟨⟨k',a⟩,ha,rfl⟩:=mem_map.mp h
   exact Option.isSome_iff_exists.mpr ⟨a,get_eq_some.mpr ha⟩

def collect (entries : List (κ × α)) : HashMap κ α :=
 entries.foldl (fun m e => m.upsert e) Table.empty

theorem mem_foldl_upsert (h:(k,a)∈(entries.foldl (fun m e=>m.upsert e) m).rows) :
 (k,a)∈entries ∨ (k,a)∈m.rows := by
 induction entries generalizing m with
 | nil => exact .inr h
 | cons e entries ih =>
  rcases ih h with h|h
  · exact .inl (mem_cons_of_mem _ h)
  · rcases Table.mem_upsert.mp h with rfl|⟨h,-⟩
    · exact .inl mem_cons_self
    · exact .inr h

theorem mem_of_get_collect (h:(collect entries).get k=some a) : (k,a)∈entries :=
 (mem_foldl_upsert (get_eq_some.mp h)).resolve_right (by simp)

theorem mem_keys_foldl_upsert :
 k∈(entries.foldl (fun m e=>m.upsert e) m).rows.map Prod.fst ↔
  k∈entries.map Prod.fst ∨ k∈m.rows.map Prod.fst := by
 induction entries generalizing m with
 | nil => simp
 | cons e entries ih =>
  rw [foldl_cons,ih,Table.mem_keys_upsert,map_cons,mem_cons]
  tauto

theorem isSome_get_collect :
 ((collect entries).get k).isSome ↔ k∈entries.map Prod.fst := by
 rw [isSome_get_iff,collect,mem_keys_foldl_upsert]
 simp

theorem get_collect (hn:(entries.map Prod.fst).Nodup) :
 (collect entries).get k=some a ↔ (k,a)∈entries := by
 refine ⟨mem_of_get_collect,fun h=>?_⟩
 obtain ⟨b,hb⟩:=Option.isSome_iff_exists.mp
  (isSome_get_collect.mpr (mem_map.mpr ⟨(k,a),h,rfl⟩))
 have := inj_on_of_nodup_map hn (mem_of_get_collect hb) h rfl
 rw [hb]
 simpa using congrArg Prod.snd this

end HashMap
section
variable {κ α : Type} [DecidableEq κ] (owner : α → κ)

theorem filter_owner_append (rows new : List α) (k id : κ) (wipe : Bool)
 (hn:∀a∈new,owner a=k) :
 (rows.filter (fun a=>!(wipe && owner a=k))++new).filter (fun a=>owner a=id) =
  if id=k then (if wipe then [] else rows.filter (fun a=>owner a=id))++new
  else rows.filter (fun a=>owner a=id) := by
 rw [filter_append,filter_filter]
 split_ifs with hid hw
 · subst hid
   rw [filter_eq_nil_iff.mpr,filter_eq_self.mpr]
   · simpa using hn
   · simp [hw]
 · subst hid
   rw [(filter_eq_self (l := new)).mpr (by simpa using hn)]
   simp [hw]
 rw [(filter_eq_nil_iff (l := new)).mpr,append_nil]
 · refine filter_congr fun a _=>?_
   by_cases he : owner a=id
   · simp [he,hid]
   · simp [he]
 · intro a ha
   simp [hn a ha,Ne.symm hid]

theorem filter_owner_wipe (rows : List α) (k id : κ) :
 (rows.filter (fun a=>!decide (owner a=k))).filter (fun a=>owner a=id) =
  if id=k then [] else rows.filter (fun a=>owner a=id) := by
 simpa using filter_owner_append owner rows [] k id true (by simp)

theorem nodup_map_of_owners {ι : Type} {key : α → ι} {rows : List α}
 (hk:∀a b,key a=key b → owner a=owner b)
 (h:∀k,((rows.filter fun a=>owner a=k).map key).Nodup) : (rows.map key).Nodup := by
 induction rows with
 | nil => simp
 | cons a rows ih =>
  refine nodup_cons.mpr ⟨fun hm=>?_,ih fun k=>?_⟩
  · obtain ⟨b,hb,hab⟩:=mem_map.mp hm
    have ha:=h (owner a)
    rw [filter_cons_of_pos (by simp),map_cons,nodup_cons] at ha
    exact ha.1 (mem_map.mpr ⟨b,mem_filter.mpr ⟨hb,by simpa using hk b a hab⟩,hab⟩)
  · exact (h k).sublist (((sublist_cons_self a rows).filter _).map key)

end

theorem disjoint_of_nodup_append {κ α : Type} {key : α → κ} {l l' : List α}
 (h:((l++l').map key).Nodup) {a : α} (ha:a∈l) (ha':a∈l') : False := by
 rw [map_append,nodup_append] at h
 exact h.2.2 _ (mem_map_of_mem ha) _ (mem_map_of_mem ha') rfl

end DhKit.KeyedTables
