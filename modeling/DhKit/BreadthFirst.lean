import Mathlib.Data.List.Dedup
import Mathlib.Data.List.Perm.Subperm
import Mathlib.Data.Nat.Find

/-!
# Distances in a graph

A graph is given by the successors of each node.
-/
namespace DhKit.BreadthFirst
open List
variable {α : Type} {a b : α} {d : Nat} {n : Nat} {x : α × Nat}

section
variable (next : α → List α)

/-- The ends of the walks of `n` steps from `a`, once for each walk. -/
def level (a : α) : Nat → List α
 | 0 => [a]
 | n+1 => (level a n).flatMap next

def Walk (n : Nat) (a b : α) : Prop := b ∈ level next a n

structure IsDist (a b : α) (d : Nat) : Prop where
 walk : Walk next d a b
 least : ∀ n,Walk next n a b → d ≤ n

def walkRows (a : α) (bound : Nat) : List (α × Nat) :=
 (List.range (bound+1)).flatMap fun n => (level next a n).map fun b => (b,n)

variable {next}

@[simp] theorem walk_zero : Walk next 0 a b ↔ b=a := by simp [Walk,level]

theorem walk_succ :
 Walk next (n+1) a b ↔ ∃c,Walk next n a c ∧ b∈next c := by
 simp [Walk,level]

theorem IsDist.unique {d' : Nat} (h:IsDist next a b d) (h':IsDist next a b d') :
 d=d' :=
 le_antisymm (h.least d' h'.walk) (h'.least d h.walk)

theorem exists_isDist (h:Walk next n a b) :
 ∃d,d ≤ n ∧ IsDist next a b d := by
 classical
 have hex:∃m,Walk next m a b:=⟨n,h⟩
 exact ⟨Nat.find hex,Nat.find_min' hex h,Nat.find_spec hex,fun m hm=>Nat.find_min' hex hm⟩

theorem mem_walkRows {bound : Nat} :
 (b,d)∈walkRows next a bound ↔ d ≤ bound ∧ Walk next d a b := by
 simp only [walkRows,mem_flatMap,mem_range,mem_map,Prod.mk.injEq]
 constructor
 · rintro ⟨n,hn,c,hc,rfl,rfl⟩
   exact ⟨by omega,hc⟩
 · rintro ⟨hd,hw⟩
   exact ⟨d,by omega,b,hw,rfl,rfl⟩

theorem Walk.mono {next' : α → List α} (hsu:∀a,∀b∈next a,b∈next' a)
 (h:Walk next n a b) : Walk next' n a b := by
 induction n generalizing b with
 | zero => exact walk_zero.mpr (walk_zero.mp h)
 | succ n ih =>
  obtain ⟨c,hc,hb⟩:=walk_succ.mp h
  exact walk_succ.mpr ⟨c,ih hc,hsu c b hb⟩

end

section
variable [DecidableEq α]

def minDepths (rows : List (α × Nat)) : List (α × Nat) :=
 (rows.map Prod.fst).dedup.filterMap fun b =>
  ((rows.filter fun r => r.1 = b).map Prod.snd).min?.map fun d => (b,d)

theorem mem_minDepths {rows : List (α × Nat)} :
 (b,d)∈minDepths rows ↔ (b,d)∈rows ∧ ∀d',(b,d')∈rows → d ≤ d' := by
 have hme:∀n,n∈(rows.filter fun r=>r.1=b).map Prod.snd ↔ (b,n)∈rows:=by
  intro n
  simp only [mem_map,mem_filter,decide_eq_true_eq]
  constructor
  · rintro ⟨⟨c,m⟩,⟨hr,rfl⟩,rfl⟩
    exact hr
  · intro h
    exact ⟨(b,n),⟨h,rfl⟩,rfl⟩
 have hmi:((rows.filter fun r=>r.1=b).map Prod.snd).min?=some d ↔
  (b,d)∈rows ∧ ∀d',(b,d')∈rows → d ≤ d' := by
  rw [min?_eq_some_iff]
  simp
 rw [←hmi]
 simp only [minDepths,mem_filterMap,mem_dedup,Option.map_eq_some_iff,Prod.mk.injEq]
 constructor
 · rintro ⟨c,-,n,hn,rfl,rfl⟩
   exact hn
 · intro h
   exact ⟨b,mem_map.mpr ⟨(b,d),(hmi.mp h).1,rfl⟩,d,h,rfl,rfl⟩

theorem nodup_minDepths (rows : List (α × Nat)) : (minDepths rows).Nodup := by
 refine List.Nodup.filterMap ?_ (nodup_dedup _)
 intro b c x hb hc
 simp only [Option.mem_def,Option.map_eq_some_iff] at hb hc
 obtain ⟨m,-,rfl⟩:=hb
 obtain ⟨n,-,hx⟩:=hc
 exact (congrArg Prod.fst hx).symm

theorem mem_minDepths_walkRows {next : α → List α} {bound : Nat} :
 (b,d)∈minDepths (walkRows next a bound) ↔ d ≤ bound ∧ IsDist next a b d := by
 simp only [mem_minDepths,mem_walkRows]
 constructor
 · rintro ⟨⟨hd,hw⟩,hl⟩
   refine ⟨hd,hw,fun n hn=>?_⟩
   by_cases hb : n ≤ bound
   · exact hl n ⟨hb,hn⟩
   · omega
 · rintro ⟨hd,h⟩
   exact ⟨⟨hd,h.walk⟩,fun n hn=>h.least n hn.2⟩

end

section
variable {σ β : Type}

/-- Pop until nothing is left; `fuel` bounds the pops. -/
def drain (pop : σ → Option (β × σ)) (body : β → σ → σ) : Nat → σ → σ
 | 0,s => s
 | fuel+1,s => match pop s with
  | none => s
  | some (x,t) => drain pop body fuel (body x t)

variable {pop : σ → Option (β × σ)} {body : β → σ → σ}

theorem drain_of_none {s : σ} (h:pop s=none) (fuel : Nat) : drain pop body fuel s=s := by
 cases fuel with
 | zero => rfl
 | succ fuel => simp [drain,h]

theorem drain_spec (I : σ → Prop) (measure : σ → Nat) (hst:∀s x t,I s → pop s=some (x,t) →
  I (body x t) ∧ measure (body x t) < measure s)
 {fuel : Nat} {s : σ} (h:I s) (hf:measure s ≤ fuel) :
 I (drain pop body fuel s) ∧ pop (drain pop body fuel s)=none := by
 induction fuel generalizing s with
 | zero =>
  refine ⟨h,?_⟩
  cases hp : pop s with
  | none => exact hp
  | some p =>
   have := (hst s p.1 p.2 h hp).2
   omega
 | succ fuel ih =>
  unfold drain
  cases hp : pop s with
  | none => exact ⟨h,hp⟩
  | some p =>
   obtain ⟨hI,hlt⟩:=hst s p.1 p.2 h hp
   exact ih hI (by omega)

theorem drain_invariant (I : σ → Prop) (hst:∀s x t,I s → pop s=some (x,t) → I (body x t))
 (fuel : Nat) {s : σ} (h:I s) : I (drain pop body fuel s) := by
 induction fuel generalizing s with
 | zero => exact h
 | succ fuel ih =>
  unfold drain
  cases hp : pop s with
  | none => exact h
  | some p => exact ih (hst s p.1 p.2 h hp)

/-- A drain that follows another one, up to a state `Stop` from which it takes no more turns. -/
theorem drain_related {σ' β' : Type} {pop' : σ' → Option (β' × σ')} {body' : β' → σ' → σ'}
 (R : σ → σ' → Prop) (Stop : σ' → Prop)
 (hnone:∀s t,R s t → pop s=none → pop' t=none)
 (hso:∀s t x s',R s t → pop s=some (x,s') → ∃y t',pop' t=some (y,t') ∧
  (R (body x s') (body' y t') ∨ Stop (body' y t')))
 (hst:∀t,Stop t → pop' t=none) (fuel : Nat) {s : σ} {t : σ'} (h:R s t) :
 R (drain pop body fuel s) (drain pop' body' fuel t) ∨ Stop (drain pop' body' fuel t) := by
 induction fuel generalizing s t with
 | zero => exact .inl h
 | succ fuel ih =>
  unfold drain
  cases hp : pop s with
  | none =>
   rw [hnone s t h hp]
   exact .inl h
  | some q =>
   obtain ⟨y,t',hp',hn|hen⟩:=hso s t q.1 q.2 h hp
   · rw [hp']
     exact ih hn
   · rw [hp']
     dsimp only
     rw [drain_of_none (hst _ hen)]
     exact .inr hen

end

structure Search (α : Type) where
 visited : List (α × Nat)
 queue : List (α × Nat)

namespace Search

def start (a : α) : Search α := ⟨[(a,0)],[(a,0)]⟩

def pop (s : Search α) : Option ((α × Nat) × Search α) :=
 match s.queue with
 | [] => none
 | x::rest => some (x,{ s with queue := rest })

theorem pop_eq_some {s t : Search α} :
 s.pop=some (x,t) ↔ ∃rest,s.queue=x::rest ∧ t={ s with queue := rest } := by
 unfold pop
 cases hq : s.queue with
 | nil => simp
 | cons y rest =>
  simp only [Option.some.injEq,Prod.mk.injEq,List.cons.injEq]
  constructor
  · rintro ⟨rfl,rfl⟩
    exact ⟨rest,⟨rfl,rfl⟩,rfl⟩
  · rintro ⟨_,⟨rfl,rfl⟩,rfl⟩
    exact ⟨rfl,rfl⟩

theorem pop_eq_none {s : Search α} : s.pop=none ↔ s.queue=[] := by
 unfold pop
 cases s.queue <;> simp

section
variable [DecidableEq α]

def discover (d : Nat) (s : Search α) (b : α) : Search α :=
 if b ∈ s.visited.map Prod.fst then s else ⟨s.visited++[(b,d)],s.queue++[(b,d)]⟩

section
variable (next : α → List α) (bound : Nat) (x : α × Nat) (s : Search α)

def expand : Search α :=
 if bound ≤ x.2 then s else (next x.1).foldl (discover (x.2+1)) s

/-- Nodes found at the bound are not queued. -/
def discoverBelow (bound d : Nat) (s : Search α) (b : α) : Search α :=
 if b ∈ s.visited.map Prod.fst then s
 else ⟨s.visited++[(b,d)],if d < bound then s.queue++[(b,d)] else s.queue⟩

def expandBelow : Search α :=
 if bound ≤ x.2 then s else (next x.1).foldl (discoverBelow bound (x.2+1)) s

structure Discovered (d : Nat) (l : List α) (s : Search α) (fresh : List (α × Nat)) : Prop where
 depth : ∀ y ∈ fresh,y.2 = d ∧ y.1 ∈ l
 nodup : ((s.visited++fresh).map Prod.fst).Nodup
 all : ∀ b ∈ l,b ∈ (s.visited++fresh).map Prod.fst

theorem visited_before_discover (d : Nat) (l : List α) (s : Search α) :
 s.visited <+: (l.foldl (discover d) s).visited := by
 induction l generalizing s with
 | nil => exact prefix_rfl
 | cons b l ih =>
  refine List.IsPrefix.trans ?_ (ih _)
  unfold discover
  split_ifs
  · exact prefix_rfl
  · exact prefix_append _ _

theorem visited_before_expand :
 s.visited <+: (expand next bound x s).visited := by
 unfold expand
 split_ifs
 · exact prefix_rfl
 · exact visited_before_discover _ _ s

end

theorem foldl_discover (d : Nat) (l : List α) {s : Search α}
 (hn:(s.visited.map Prod.fst).Nodup) :
 ∃fresh,l.foldl (discover d) s=⟨s.visited++fresh,s.queue++fresh⟩ ∧
  Discovered d l s fresh := by
 induction l generalizing s with
 | nil => exact ⟨[],by simp,by simp,by simpa using hn,by simp⟩
 | cons b l ih =>
  rw [foldl_cons]
  by_cases hb : b∈s.visited.map Prod.fst
  · rw [discover,if_pos hb]
    obtain ⟨fresh,heq,hf⟩:=ih hn
    refine ⟨fresh,heq,fun y hy=>?_,hf.nodup,fun c hc=>?_⟩
    · exact ⟨(hf.depth y hy).1,mem_cons_of_mem _ (hf.depth y hy).2⟩
    rcases mem_cons.mp hc with rfl|hc
    · rw [map_append]
      exact mem_append_left _ hb
    · exact hf.all c hc
  rw [discover,if_neg hb]
  have hn':((s.visited++[(b,d)]).map Prod.fst).Nodup:=by
   rw [map_append,nodup_append]
   refine ⟨hn,by simp,?_⟩
   rintro x hx y hy rfl
   exact hb ((by simpa using hy : x=b) ▸ hx)
  obtain ⟨fresh,heq,hf⟩:=ih (s := ⟨s.visited++[(b,d)],s.queue++[(b,d)]⟩) hn'
  refine ⟨(b,d)::fresh,?_,fun y hy=>?_,?_,fun c hc=>?_⟩
  · rw [heq]
    simp
  · rcases mem_cons.mp hy with rfl|hy
    · exact ⟨rfl,mem_cons_self⟩
    · exact ⟨(hf.depth y hy).1,mem_cons_of_mem _ (hf.depth y hy).2⟩
  · simpa only [append_assoc,singleton_append] using hf.nodup
  · rcases mem_cons.mp hc with rfl|hc
    · simp
    · simpa only [append_assoc,singleton_append] using hf.all c hc

theorem foldl_discoverBelow (bound d : Nat) (l : List α) (s : Search α) :
 l.foldl (discoverBelow bound d) s=if d < bound then l.foldl (discover d) s
  else { l.foldl (discover d) s with queue := s.queue } := by
 by_cases hd : d < bound
 · have hsa:discoverBelow bound d=discover (α:=α) d := by
    funext s b
    simp [discoverBelow,discover,if_pos hd]
   rw [if_pos hd,hsa]
 rw [if_neg hd]
 have hv:∀t : Search α,t.visited=s.visited →
  (l.foldl (discoverBelow bound d) s).queue=s.queue ∧
   (l.foldl (discoverBelow bound d) s).visited=(l.foldl (discover d) t).visited := by
  induction l generalizing s with
  | nil => exact fun t ht=>⟨rfl,ht.symm⟩
  | cons b l ih =>
   intro t ht
   simp only [foldl_cons,discoverBelow,discover,ht]
   split_ifs
   · exact ih s t ht
   · exact ih ⟨_,s.queue⟩ ⟨_,_⟩ rfl
 obtain ⟨hqu,hvi⟩:=hv s rfl
 dsimp only
 rw [←hvi,←hqu]

theorem visited_before_discoverBelow (bound d : Nat) (l : List α) (s : Search α) :
 s.visited <+: (l.foldl (discoverBelow bound d) s).visited := by
 rw [foldl_discoverBelow]
 split_ifs <;> exact visited_before_discover d l s

theorem expand_eq {next : α → List α} {bound : Nat} (x : α × Nat) {s : Search α}
 (hn:(s.visited.map Prod.fst).Nodup) :
 ∃fresh,expand next bound x s=⟨s.visited++fresh,s.queue++fresh⟩ ∧
  ∀y∈fresh,y.2=x.2+1 := by
 unfold expand
 split_ifs
 · exact ⟨[],by simp,by simp⟩
 · obtain ⟨fresh,heq,hf⟩:=foldl_discover (x.2+1) (next x.1) hn
   exact ⟨fresh,heq,fun y hy=>(hf.depth y hy).1⟩

end

/-- The state of a search from `a`: `done` was expanded. The nodes are met in the order of their
 depths, and none is deeper than one step below any queued one. -/
structure Searching (next : α → List α) (bound : Nat) (a : α) (done : List (α × Nat))
 (s : Search α) : Prop where
 covered : ∀ x ∈ s.visited,x ∈ done ∨ x ∈ s.queue
 queued : s.queue <+ s.visited
 nodup : (s.visited.map Prod.fst).Nodup
 walks : ∀ x ∈ s.visited,x.2 ≤ bound ∧ Walk next x.2 a x.1
 start : [(a,0)] <+: s.visited
 ordered : s.visited.Pairwise fun x y => x.2 ≤ y.2
 near : ∀ x ∈ s.visited,∀ y ∈ s.queue,x.2 ≤ y.2+1
 closed : ∀ x ∈ done,x.2 < bound → ∀ b ∈ next x.1,∃ d,d ≤ x.2+1 ∧ (b,d) ∈ s.visited

variable {next : α → List α} {bound : Nat} {a : α} {done : List (α × Nat)} {s : Search α}
 {body : α × Nat → Search α → Search α} {limit : Nat}

theorem searching_start (next : α → List α) (bound : Nat) (a : α) :
 Searching next bound a [] (start a) :=
 ⟨fun _=>.inr,.refl _,by simp [start],by simp [start],by simp [start],by simp [start],
  by simp [start],by simp⟩

section
variable (h : Searching next bound a done s)
include h

theorem Searching.sorted :
 s.queue.Pairwise fun x y=>x.2 ≤ y.2 :=
 h.ordered.sublist h.queued

/-- Below the depth of the queue every node in reach has been met. -/
theorem Searching.met {m : Nat} (hm:m ≤ bound)
 (hq:∀x∈s.queue,m ≤ x.2) (hn:n ≤ m) (hw:Walk next n a b) :
 ∃d,d ≤ n ∧ (b,d)∈s.visited := by
 induction n generalizing b with
 | zero =>
  rw [walk_zero.mp hw]
  exact ⟨0,le_refl 0,h.start.subset mem_cons_self⟩
 | succ n ih =>
  obtain ⟨c,hw',hc⟩:=walk_succ.mp hw
  obtain ⟨d',hd',hv'⟩:=ih (by omega) hw'
  have hdo:(c,d')∈done:=by
   refine (h.covered _ hv').resolve_right fun hqu=>?_
   have := hq _ hqu
   omega
  obtain ⟨d,hd,hv⟩:=h.closed (c,d') hdo (by omega) b hc
  exact ⟨d,by omega,hv⟩

theorem Searching.complete (hq:s.queue=[]) : (b,d)∈s.visited ↔ d ≤ bound ∧ IsDist next a b d := by
 have hal:∀n c,n ≤ bound → Walk next n a c → ∃d,d ≤ n ∧ (c,d)∈s.visited:=
  fun n c=>h.met le_rfl (by simp [hq])
 have hl:∀x∈s.visited,IsDist next a x.1 x.2:=by
  intro x hx
  obtain ⟨hb,hw⟩:=h.walks x hx
  refine ⟨hw,fun n hn=>?_⟩
  by_contra hlt
  obtain ⟨d,hd,hv⟩:=hal n x.1 (by omega) hn
  have heq:(x.1,d)=x:=inj_on_of_nodup_map h.nodup hv hx rfl
  rw [←heq] at hlt
  omega
 constructor
 · intro hv
   exact ⟨(h.walks _ hv).1,hl _ hv⟩
 · rintro ⟨hd,hdi⟩
   obtain ⟨d',hd',hv⟩:=hal d b hd hdi.walk
   rwa [hdi.unique (hl _ hv)]

/-- Nodes at the bound need not be expanded. -/
theorem Searching.drop {q fresh : List (α × Nat)}
 (hq:s.queue=q++fresh) (hde:∀x∈fresh,bound ≤ x.2) :
 Searching next bound a (done++fresh) { s with queue := q } := by
 refine ⟨fun x hx=>?_,?_,h.nodup,h.walks,h.start,h.ordered,fun x hx y hy=>?_,
  fun x hx hlt=>?_⟩
 · have := h.covered x hx
   rw [hq,mem_append] at this
   rw [mem_append]
   tauto
 · exact (sublist_append_left q fresh).trans (hq ▸ h.queued)
 · exact h.near x hx y (hq ▸ mem_append_left _ hy)
 rcases mem_append.mp hx with hx|hx
 · exact h.closed x hx hlt
 · have := hde x hx
   omega

end

theorem visited_drain_stopped (hst:∀x t,limit ≤ t.visited.length → (body x t).visited=t.visited)
 (fuel : Nat)
 (hs:limit ≤ s.visited.length) : (drain Search.pop body fuel s).visited=s.visited := by
 refine drain_invariant (fun t : Search α=>t.visited=s.visited) (fun t x t' h hp=>?_) fuel rfl
 obtain ⟨rest,-,rfl⟩:=pop_eq_some.mp hp
 exact (hst x { t with queue := rest } (by rw [h]; exact hs)).trans h

variable [DecidableEq α]

theorem Searching.pop {rest : List (α × Nat)} (h:Searching next bound a done s)
 (hq:s.queue=x::rest) :
 Searching next bound a (done++[x]) (expand next bound x { s with queue := rest }) := by
 have hx:x∈s.visited:=h.queued.subset (hq ▸ mem_cons_self)
 obtain ⟨hxr,-⟩:=pairwise_cons.mp (hq ▸ h.sorted)
 have hco:∀y∈s.visited,y∈done++[x] ∨ y∈rest:=by
  intro y hy
  have := h.covered y hy
  rw [hq,mem_cons] at this
  rw [mem_append,mem_singleton]
  tauto
 have hqu:rest <+ s.visited:=(sublist_cons_self x rest).trans (hq ▸ h.queued)
 unfold expand
 by_cases hb : bound ≤ x.2
 · rw [if_pos hb]
   refine ⟨hco,hqu,h.nodup,h.walks,h.start,h.ordered,fun y hy z hz=>?_,
    fun y hy hlt=>?_⟩
   · exact h.near y hy z (hq ▸ mem_cons_of_mem _ hz)
   rcases mem_append.mp hy with hy|hy
   · exact h.closed y hy hlt
   · rw [mem_singleton.mp hy] at hlt
     omega
 rw [if_neg hb]
 obtain ⟨fresh,heq,hf⟩:=foldl_discover (x.2+1) (next x.1)
  (show ({ s with queue := rest } : Search α).visited.map Prod.fst |>.Nodup from h.nodup)
 rw [heq]
 have hnea:∀y∈s.visited,y.2 ≤ x.2+1:=fun y hy=>
  h.near y hy x (hq ▸ mem_cons_self)
 refine ⟨fun y hy=>?_,hqu.append_right fresh,hf.nodup,fun y hy=>?_,
  h.start.trans (prefix_append _ _),?_,fun y hy z hz=>?_,fun y hy hlt b hbn=>?_⟩
 · rcases mem_append.mp hy with hy|hy
   · exact (hco y hy).imp_right (mem_append_left _)
   · exact .inr (mem_append_right _ hy)
 · rcases mem_append.mp hy with hy|hy
   · exact h.walks y hy
   · obtain ⟨hd,hn⟩:=hf.depth y hy
     rw [hd]
     exact ⟨by omega,walk_succ.mpr ⟨x.1,(h.walks x hx).2,hn⟩⟩
 · refine pairwise_append.mpr ⟨h.ordered,?_,fun y hy z hz=>?_⟩
   · refine pairwise_of_forall_mem_list fun y hy z hz=>?_
     rw [(hf.depth y hy).1,(hf.depth z hz).1]
   · rw [(hf.depth z hz).1]
     exact hnea y hy
 · -- whatever is queued now is at least as deep as `x`
   have hz2:x.2 ≤ z.2:=by
    rcases mem_append.mp hz with hz|hz
    · exact hxr z hz
    · rw [(hf.depth z hz).1]
      omega
   rcases mem_append.mp hy with hy|hy
   · have := hnea y hy
     omega
   · rw [(hf.depth y hy).1]
     omega
 · rcases mem_append.mp hy with hy|hy
   · obtain ⟨d,hd,hv⟩:=h.closed y hy hlt b hbn
     exact ⟨d,hd,mem_append_left _ hv⟩
   rw [mem_singleton.mp hy] at hbn ⊢
   obtain ⟨z,hz,rfl⟩:=mem_map.mp (hf.all b hbn)
   refine ⟨z.2,?_,hz⟩
   rcases mem_append.mp hz with hz|hz
   · exact hnea z hz
   · exact Nat.le_of_eq (hf.depth z hz).1

theorem visited_before_drain (next : α → List α) (bound fuel : Nat) (s : Search α) :
 s.visited <+: (drain Search.pop (expand next bound) fuel s).visited := by
 refine drain_invariant (fun t : Search α=>s.visited <+: t.visited) (fun t x t' h hp=>?_) fuel
  prefix_rfl
 obtain ⟨rest,-,rfl⟩:=pop_eq_some.mp hp
 exact h.trans (visited_before_expand next bound x { t with queue := rest })

/-- A search that stops at `limit` nodes keeps the first ones of the whole search. -/
theorem visited_drain_take (hgo:∀x t,t.visited.length < limit →
  (body x t).visited=(expand next bound x t).visited.take limit ∧
  ((expand next bound x t).visited.length < limit → body x t=expand next bound x t))
 (hst:∀x t,limit ≤ t.visited.length → (body x t).visited=t.visited) (fuel : Nat)
 (hs:s.visited.length < limit) :
 (drain Search.pop body fuel s).visited =
  (drain Search.pop (expand next bound) fuel s).visited.take limit := by
 induction fuel generalizing s with
 | zero => exact (take_of_length_le (Nat.le_of_lt hs)).symm
 | succ fuel ih =>
  unfold drain
  cases hp : s.pop with
  | none => exact (take_of_length_le (Nat.le_of_lt hs)).symm
  | some q =>
   obtain ⟨rest,hq,ht⟩:=pop_eq_some.mp hp
   obtain ⟨hta,hsa⟩:=hgo q.1 q.2 (by rw [ht]; exact hs)
   by_cases hsh : (expand next bound q.1 q.2).visited.length < limit
   · simp only [hsa hsh]
     exact ih hsh
   · -- from here on the one keeps its nodes and the other only adds some
     have hkept:=visited_drain_stopped hst fuel (s := body q.1 q.2) (by
      rw [hta,length_take]
      omega)
     obtain ⟨more,hmo⟩:=visited_before_drain next bound fuel (expand next bound q.1 q.2)
     rw [hkept,hta,←hmo,take_append_of_le_length (by omega)]

structure Turn (next : α → List α) (bound : Nat) (a : α)
 (body : α × Nat → Search α → Search α) : Prop where
 searching : ∀ {done s x rest},Searching next bound a done s → s.queue = x::rest →
  ∃ done',Searching next bound a done' (body x { s with queue := rest })
 queued : ∀ {s x},(s.visited.map Prod.fst).Nodup →
  (body x s).queue.length+s.visited.length ≤ s.queue.length+(body x s).visited.length

theorem turn_expand : Turn next bound a (expand next bound) := by
 refine ⟨fun h hq=>⟨_,h.pop hq⟩,fun {s x} hn=>?_⟩
 obtain ⟨fresh,heq,-⟩:=@expand_eq _ _ next bound x s hn
 simp only [heq,length_append]
 omega

theorem expandBelow_eq (x : α × Nat) (s : Search α) :
 expandBelow next bound x s=if x.2+1 < bound then expand next bound x s
  else { expand next bound x s with queue := s.queue } := by
 unfold expandBelow expand
 rw [foldl_discoverBelow]
 split_ifs <;> rfl

theorem turn_expandBelow : Turn next bound a (expandBelow next bound) := by
 refine ⟨fun {done s x rest} h hq=>?_,fun {s x} hn=>?_⟩
 · rw [expandBelow_eq]
   split_ifs with hde
   · exact ⟨_,h.pop hq⟩
   obtain ⟨fresh,heq,hf⟩:=@expand_eq _ _ next bound x { s with queue := rest } h.nodup
   have hnew:=h.pop hq
   rw [heq] at hnew ⊢
   exact ⟨_,hnew.drop rfl fun y hy=>by rw [hf y hy]; omega⟩
 · obtain ⟨fresh,heq,-⟩:=@expand_eq _ _ next bound x s hn
   rw [expandBelow_eq]
   split_ifs <;> simp only [heq,length_append] <;> omega

omit [DecidableEq α] in
theorem drain_searching {body : α × Nat → Search α → Search α} (hbo:Turn next bound a body)
 {all : List α} (hnex:∀b,∀c∈next b,c∈all) (ha:a∈all) {fuel : Nat}
 (hf:all.length ≤ fuel) :
 ∃done,Searching next bound a done (drain Search.pop body fuel (start a)) ∧
  (drain Search.pop body fuel (start a)).queue=[] := by
 have hle:∀done t,Searching next bound a done t → t.visited.length ≤ all.length:=by
  intro done t ht
  have hsu:t.visited.map Prod.fst ⊆ all:=by
   intro b hb
   obtain ⟨x,hx,rfl⟩:=mem_map.mp hb
   have hw:=(ht.walks x hx).2
   cases hn : x.2 with
   | zero =>
    rw [hn] at hw
    rwa [walk_zero.mp hw]
   | succ n =>
    rw [hn] at hw
    obtain ⟨c,-,hc⟩:=walk_succ.mp hw
    exact hnex c _ hc
  simpa using (subperm_of_subset ht.nodup hsu).length_le
 have hst:∀t x t',(∃done,Searching next bound a done t) → Search.pop t=some (x,t') →
  (∃done,Searching next bound a done (body x t')) ∧
   all.length-(body x t').visited.length+(body x t').queue.length <
    all.length-t.visited.length+t.queue.length := by
  rintro t x t' ⟨done,ht⟩ hp
  obtain ⟨rest,hq,rfl⟩:=pop_eq_some.mp hp
  obtain ⟨done',hnew⟩:=hbo.searching ht hq
  refine ⟨⟨done',hnew⟩,?_⟩
  have hl:=hle _ _ hnew
  have hg:=@hbo.queued { t with queue := rest } x ht.nodup
  rw [hq,length_cons]
  dsimp only at hg ⊢
  omega
 obtain ⟨⟨done,hs⟩,hp⟩:=drain_spec (fun t=>∃done,Searching next bound a done t)
  (fun t=>all.length-t.visited.length+t.queue.length) hst
  ⟨[],searching_start next bound a⟩ (show all.length-1+1 ≤ fuel by
   have := length_pos_of_mem ha
   omega)
 exact ⟨done,hs,pop_eq_none.mp hp⟩

end Search
end DhKit.BreadthFirst
