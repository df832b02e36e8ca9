import Mathlib.Data.Set.Finite.Basic

/-!
# Layers of a dependency order

Items with a key and the keys they need are scheduled layer by layer: a layer holds the items that
were not scheduled yet and whose needs were.
-/
namespace DhKit.LayeredOrder
open List Relation
variable {α κ : Type} {k : κ} {scheduled : List κ} {group : List α} {order : List (List α)}

section
variable [DecidableEq κ] (key : α → κ) (needs : α → List κ) (arrange : List α → List (List α))
 (items : List α)

def addKeys (scheduled : List κ) (group : List α) : List κ :=
 group.foldl (fun s a => if key a ∈ s then s else s++[key a]) scheduled

def layer (scheduled : List κ) : List α :=
 items.filter fun a => key a ∉ scheduled ∧ ∀ d ∈ needs a,d ∈ scheduled

def layers : Nat → List κ → List (List α) → List κ × List (List α)
 | 0,scheduled,order => (scheduled,order)
 | n+1,scheduled,order =>
  if scheduled.length < items.length then
   let next := layer key needs items scheduled
   if next.isEmpty then (scheduled,order)
   else
    let groups := arrange next
    layers n (addKeys key scheduled groups.flatten) (order++groups)
  else (scheduled,order)

inductive Settled : κ → Prop
 | intro (a : α) (ha : a ∈ items) (h : ∀ d ∈ needs a,Settled d) : Settled (key a)

structure Ordered (executed : List α) : Prop where
 subset : ∀ a ∈ executed,a ∈ items
 nodup : (executed.map key).Nodup
 after : ∀ before a rest,executed = before++a::rest → ∀ d ∈ needs a,d ∈ before.map key

def Grouped (order : List (List α)) : Prop :=
 ∀ before group rest,order = before++group::rest →
  ∀ a ∈ group,∀ d ∈ needs a,d ∈ before.flatten.map key

def Awaits (k d : κ) : Prop := ∃ a ∈ items,key a = k ∧ d ∈ needs a

def ReachesCycle (k : κ) : Prop :=
 ∃ c,ReflTransGen (Awaits key needs items) k c ∧ TransGen (Awaits key needs items) c c

end

variable {key : α → κ} {needs : α → List κ} {arrange : List α → List (List α)}
 {items executed : List α}

theorem Ordered.nil : Ordered key needs items [] := by
 refine ⟨by simp,by simp,?_⟩
 intro before a rest he
 simp at he

theorem Ordered.of_append {more : List α} (h:Ordered key needs items (executed++more)) :
 Ordered key needs items executed := by
 refine ⟨fun a ha=>h.subset a (mem_append_left _ ha),?_,?_⟩
 · have hn:=h.nodup
   rw [map_append] at hn
   exact (nodup_append.mp hn).1
 · intro before a rest he
   exact h.after before a (rest++more) (by rw [he]; simp)

theorem Ordered.settled (h:Ordered key needs items executed) :
 ∀a∈executed,Settled key needs items (key a) := by
 induction executed using List.reverseRecOn with
 | nil => simp
 | append_singleton executed b ih =>
  have ih:=ih h.of_append
  intro a ha
  rcases mem_append.mp ha with ha|ha
  · exact ih a ha
  rw [mem_singleton.mp ha]
  refine Settled.intro b (h.subset b (by simp)) ?_
  intro d hd
  obtain ⟨c,hc,rfl⟩:=mem_map.mp (h.after executed b [] rfl d hd)
  exact ih c hc

theorem Settled.not_reachesCycle (hk:(items.map key).Nodup)
 (h:Settled key needs items k) : ¬ReachesCycle key needs items k := by
 induction h with
 | intro a ha _ ih =>
  have hn:∀d,Awaits key needs items (key a) d → ¬ReachesCycle key needs items d:=by
   rintro d ⟨b,hb,hke,hd⟩
   rw [inj_on_of_nodup_map hk hb ha hke] at hd
   exact ih d hd
  rintro ⟨c,hr,hcy⟩
  rcases ReflTransGen.cases_head hr with rfl|⟨d,hd,hr⟩
  · obtain ⟨d,hd,hba⟩:=TransGen.head'_iff.mp hcy
    exact hn d hd ⟨key a,hba,hcy⟩
  · exact hn d hd ⟨c,hr,hcy⟩

/-- Among finitely many keys, those that reach no cycle are settled: needing is well-founded
there. -/
theorem settled_of_not_reachesCycle (hn:∀a∈items,∀d∈needs a,d∈items.map key) (hk:k∈items.map key)
 (h:¬ReachesCycle key needs items k) : Settled key needs items k := by
 let Key:={ d : κ // d∈items.map key ∧ ReflTransGen (Awaits key needs items) k d }
 let before : Key → Key → Prop := fun d c=>TransGen (Awaits key needs items) c.1 d.1
 have hf:Finite Key:=
  ((finite_toSet (items.map key)).subset fun _ hd=>hd.1).to_subtype
 have hi:Std.Irrefl before:=⟨fun d hd=>h ⟨d.1,d.2.2,hd⟩⟩
 have hwf:WellFounded before:=Finite.wellFounded_of_trans_of_irrefl before
 have hal:∀d : Key,Settled key needs items d.1:=by
  intro d
  induction d using hwf.induction with
  | _ d ih =>
   obtain ⟨a,ha,hke⟩:=mem_map.mp d.2.1
   rw [←hke]
   refine .intro a ha fun c hc=>?_
   have haw:Awaits key needs items d.1 c:=⟨a,ha,hke,hc⟩
   exact ih ⟨c,hn a ha c hc,d.2.2.tail haw⟩ (.single haw)
 exact hal ⟨k,hk,.refl⟩

variable [DecidableEq κ]

theorem mem_layer {a : α} : a∈layer key needs items scheduled ↔
 a∈items ∧ key a ∉ scheduled ∧ ∀d∈needs a,d∈scheduled := by
 simp [layer]

theorem addKeys_eq (h:(scheduled++group.map key).Nodup) :
 addKeys key scheduled group=scheduled++group.map key := by
 induction group generalizing scheduled with
 | nil => simp [addKeys]
 | cons a group ih =>
  have hn:key a ∉ scheduled:=by
   intro ha
   exact (nodup_append.mp h).2.2 _ ha _ (by simp) rfl
  rw [map_cons,append_cons] at h
  have ih:=ih h
  rw [addKeys] at ih ⊢
  rw [foldl_cons,if_neg hn,ih,map_cons,←append_cons]

theorem Ordered.append_layer (h:Ordered key needs items executed)
 (hi:(items.map key).Nodup)
 (hgr:group.Perm (layer key needs items (executed.map key))) :
 Ordered key needs items (executed++group) := by
 have hme:∀a,a∈group ↔ a∈items ∧ key a ∉ executed.map key ∧
  ∀d∈needs a,d∈executed.map key := by
  intro a
  rw [hgr.mem_iff,mem_layer]
 refine ⟨?_,?_,?_⟩
 · intro a ha
   rcases mem_append.mp ha with ha|ha
   · exact h.subset a ha
   · exact ((hme a).mp ha).1
 · rw [map_append,nodup_append]
   refine ⟨h.nodup,?_,?_⟩
   · rw [(hgr.map key).nodup_iff]
     exact hi.sublist (filter_sublist.map key)
   · intro k hk k' hk' he
     obtain ⟨a,ha,rfl⟩:=mem_map.mp hk'
     exact ((hme a).mp ha).2.1 (he ▸ hk)
 intro before a rest he d hd
 rcases append_eq_append_iff.mp he with ⟨l,rfl,hl⟩|⟨l,rfl,hl⟩
 · -- the item is of the layer, and its needs were scheduled before it
   have ha:a∈group:=by
    rw [hl]
    simp
   rw [map_append]
   exact mem_append_left _ (((hme a).mp ha).2.2 d hd)
 cases l with
 | nil =>
  have ha:a∈group:=by
   rw [nil_append] at hl
   rw [←hl]
   simp
  simpa using ((hme a).mp ha).2.2 d hd
 | cons b l =>
  cases hl
  exact h.after before a l rfl d hd

theorem mem_of_settled (h:layer key needs items scheduled=[])
 (hk:Settled key needs items k) : k∈scheduled := by
 induction hk with
 | intro a ha _ ih =>
  by_contra hn
  have hl:a∈layer key needs items scheduled:=mem_layer.mpr ⟨ha,hn,ih⟩
  rw [h] at hl
  cases hl

theorem layer_eq_nil_of_length (h:Ordered key needs items executed)
 (hl:items.length ≤ executed.length) :
 layer key needs items (executed.map key)=[] := by
 have hsu:executed.map key ⊆ items.map key:=by
  intro k hk
  obtain ⟨a,ha,rfl⟩:=mem_map.mp hk
  exact mem_map.mpr ⟨a,h.subset a ha,rfl⟩
 have hp:=(h.nodup.subperm hsu).perm_of_length_le (by simpa using hl)
 rw [eq_nil_iff_forall_not_mem]
 intro a ha
 obtain ⟨hitem,hn,-⟩:=mem_layer.mp ha
 exact hn (hp.mem_iff.mpr (mem_map.mpr ⟨a,hitem,rfl⟩))

theorem layers_of_nil (h:layer key needs items scheduled=[]) (n : Nat)
 (order : List (List α)) :
 layers key needs arrange items n scheduled order=(scheduled,order) := by
 cases n with
 | zero => rfl
 | succ n => simp [layers,h]

theorem Grouped.append_layer {groups : List (List α)} (h:Grouped key needs order)
 (hgr:groups.flatten.Perm (layer key needs items (order.flatten.map key))) :
 Grouped key needs (order++groups) := by
 intro before group rest he a ha d hd
 have hla:group∈groups → d∈order.flatten.map key:=fun hg=>
  (mem_layer.mp (hgr.mem_iff.mp (mem_flatten.mpr ⟨group,hg,ha⟩))).2.2 d hd
 rcases append_eq_append_iff.mp he with ⟨l,rfl,rfl⟩|⟨l,rfl,hl⟩
 · rw [flatten_append,map_append]
   exact mem_append_left _ (hla (by simp))
 cases l with
 | nil =>
  rw [nil_append] at hl
  simpa using hla (hl ▸ mem_cons_self)
 | cons b l =>
  cases hl
  exact h before group l rfl a ha d hd

/-- `n` turns are enough: with more of them the outcome is the same. -/
theorem layers_spec (har:∀l,((arrange l).flatten).Perm l)
 (hi:(items.map key).Nodup) (n : Nat) (order : List (List α))
 (h:Ordered key needs items order.flatten)
 (hgr:Grouped key needs order) (hn:items.length ≤ order.flatten.length+n) :
 ∃order',(∀m,n ≤ m → layers key needs arrange items m (order.flatten.map key) order =
  (order'.flatten.map key,order')) ∧
  Ordered key needs items order'.flatten ∧ Grouped key needs order' ∧
  layer key needs items (order'.flatten.map key)=[] := by
 induction n generalizing order with
 | zero =>
  have hni:=layer_eq_nil_of_length h (by omega)
  exact ⟨order,fun m _=>layers_of_nil hni m order,h,hgr,hni⟩
 | succ n ih =>
  by_cases hni : layer key needs items (order.flatten.map key)=[]
  · exact ⟨order,fun m _=>layers_of_nil hni m order,h,hgr,hni⟩
  -- a layer is added, and with it at least one item
  have hl:order.flatten.length < items.length:=by
   by_contra hl
   exact hni (layer_eq_nil_of_length h (by omega))
  obtain ⟨groups,hgro⟩ : ∃groups,
   arrange (layer key needs items (order.flatten.map key))=groups := ⟨_,rfl⟩
  have hp:=har (layer key needs items (order.flatten.map key))
  rw [hgro] at hp
  have hnex:=h.append_layer hi hp
  rw [←flatten_append] at hnex
  have hk:addKeys key (order.flatten.map key) groups.flatten =
   (order++groups).flatten.map key := by
   have hno:=hnex.nodup
   rw [flatten_append,map_append] at hno ⊢
   exact addKeys_eq hno
  have hpo:=length_pos_iff.mpr hni
  rw [←hp.length_eq] at hpo
  obtain ⟨order',hr,hre⟩:=ih (order++groups) hnex (hgr.append_layer hp)
   (by rw [flatten_append,length_append]; omega)
  refine ⟨order',fun m hm=>?_,hre⟩
  cases m with
  | zero => omega
  | succ m =>
   rw [←hr m (by omega),←hk,layers,if_pos (by rwa [length_map])]
   simp only [List.isEmpty_iff,hni,if_false,hgro]

theorem mem_layers {n : Nat} (h:group∈(layers key needs arrange items n scheduled order).2) :
 group∈order ∨ ∃l,group∈arrange l := by
 induction n generalizing scheduled order with
 | zero => exact .inl h
 | succ n ih =>
  simp only [layers] at h
  split_ifs at h
  · exact .inl h
  · rcases ih h with h|h
    · exact (mem_append.mp h).imp_right fun h=>⟨_,h⟩
    · exact .inr h
  · exact .inl h

theorem mem_executed_iff (h:Ordered key needs items executed)
 (hen:layer key needs items (executed.map key)=[]) :
 k∈executed.map key ↔ Settled key needs items k := by
 constructor
 · intro hk
   obtain ⟨a,ha,rfl⟩:=mem_map.mp hk
   exact h.settled a ha
 · exact mem_of_settled hen

end DhKit.LayeredOrder
