import Mathlib.Data.List.Basic
import Mathlib.Logic.Equiv.Basic
import Mathlib.Order.WithBot

/-!
# Binary heaps

The keys of a heap are a function of the positions, greatest where there is no item.
-/
namespace DhKit.BinaryHeaps
open Equiv

section
variable {γ : Type} [LinearOrder γ] {f : Nat → γ} {i s : Nat}

def Ordered (f : Nat → γ) : Prop := ∀ c,0 < c → f ((c-1)/2) ≤ f c

/-- In order but for `i` and its parent. -/
structure RisingAt (f : Nat → γ) (i : Nat) : Prop where
 others : ∀ c,0 < c → c≠i → f ((c-1)/2) ≤ f c
 around : 0 < i → ∀ c,0 < c → (c-1)/2 = i → f ((i-1)/2) ≤ f c

/-- In order but for `i` and its children. -/
structure SinkingAt (f : Nat → γ) (i : Nat) : Prop where
 others : ∀ c,0 < c → (c-1)/2≠i → f ((c-1)/2) ≤ f c
 around : 0 < i → ∀ c,0 < c → (c-1)/2 = i → f ((i-1)/2) ≤ f c

theorem Ordered.root_le (h:Ordered f) (c : Nat) : f 0 ≤ f c := by
 induction c using Nat.strongRecOn with
 | _ c ih =>
  rcases Nat.eq_zero_or_pos c with rfl|hc
  · exact le_refl _
  · exact (ih _ (by omega)).trans (h c hc)

theorem RisingAt.swap (h:RisingAt f i) (hi:0 < i) (hlt:f i < f ((i-1)/2)) :
 RisingAt (fun c=>f (swap ((i-1)/2) i c)) ((i-1)/2) := by
 generalize hp : (i-1)/2=p at hlt
 constructor
 · intro c hc hne
   by_cases hci : c=i
   · rw [hci,hp,swap_apply_left,swap_apply_right]
     exact hlt.le
   rw [swap_apply_of_ne_of_ne hne hci]
   by_cases hcp : (c-1)/2=p
   · rw [hcp,swap_apply_left]
     exact hlt.le.trans (hcp ▸ h.others c hc hci)
   by_cases hcc : (c-1)/2=i
   · rw [hcc,swap_apply_right,←hp]
     exact h.around hi c hc hcc
   · rw [swap_apply_of_ne_of_ne hcp hcc]
     exact h.others c hc hci
 · intro hpo c hc hcp
   have hup:=h.others p hpo (by omega)
   rw [swap_apply_of_ne_of_ne (a := p) (x := (p-1)/2) (by omega) (by omega)]
   by_cases hci : c=i
   · rw [hci,swap_apply_right]
     exact hup
   · rw [swap_apply_of_ne_of_ne (by omega) hci]
     exact hup.trans (hcp ▸ h.others c hc hci)

theorem RisingAt.ordered (h:RisingAt f i) (hi:0 < i → f ((i-1)/2) ≤ f i) : Ordered f := by
 intro c hc
 by_cases hci : c=i
 · exact hci ▸ hi (hci ▸ hc)
 · exact h.others c hc hci

theorem SinkingAt.swap (h:SinkingAt f i) (hs:0 < s) (hsi:(s-1)/2=i) (hlt:f s < f i)
 (hl:∀c,0 < c → (c-1)/2=i → f s ≤ f c) : SinkingAt (fun c=>f (swap s i c)) s := by
 constructor
 · intro c hc hne
   by_cases hci : (c-1)/2=i
   · rw [hci,swap_apply_right]
     by_cases hcs : c=s
     · rw [hcs,swap_apply_left]
       exact hlt.le
     · rw [swap_apply_of_ne_of_ne hcs (by omega)]
       exact hl c hc hci
   rw [swap_apply_of_ne_of_ne hne hci]
   by_cases hc' : c=i
   · rw [hc',swap_apply_right]
     exact h.around (hc' ▸ hc) s hs hsi
   · rw [swap_apply_of_ne_of_ne (by omega) hc']
     exact h.others c hc hci
 · intro _ c hc hcs
   rw [hsi,swap_apply_right,swap_apply_of_ne_of_ne (by omega) (by omega)]
   exact hcs ▸ h.others c hc (by omega)

theorem SinkingAt.ordered (h:SinkingAt f i) (hi:∀c,0 < c → (c-1)/2=i → f i ≤ f c) :
 Ordered f := by
 intro c hc
 by_cases hci : (c-1)/2=i
 · exact hci ▸ hi c hc hci
 · exact h.others c hc hci

end

section
variable {α β : Type} (key : α → β)

def keyAt (data : Array α) (i : Nat) : WithTop β := data[i]?.map key

variable [LinearOrder β] (data : Array α) (i : Nat)

def bubbleUp (data : Array α) (i : Nat) : Array α :=
 if 0 < i then
  if keyAt key data ((i-1)/2) ≤ keyAt key data i then data
  else bubbleUp (data.swapIfInBounds ((i-1)/2) i) ((i-1)/2)
 else data
termination_by i
decreasing_by omega

def smaller (best c : Nat) : Nat :=
 if c < data.size ∧ keyAt key data c < keyAt key data best then c else best

def smallest : Nat := smaller key data (smaller key data i (2*i+1)) (2*i+2)

/-- What is taken instead of `i` is a child with a smaller key. -/
theorem smallest_cases (h:smallest key data i≠i) : smallest key data i < data.size ∧
 0 < smallest key data i ∧ (smallest key data i-1)/2=i ∧
 keyAt key data (smallest key data i) < keyAt key data i := by
 unfold smallest smaller at *
 split_ifs at * with hl hr hr
 · exact ⟨hr.1,by omega,by omega,hr.2.trans hl.2⟩
 · exact ⟨hl.1,by omega,by omega,hl.2⟩
 · exact ⟨hr.1,by omega,by omega,hr.2⟩
 · exact absurd rfl h

def sinkDown (data : Array α) (i : Nat) : Array α :=
 if _h : smallest key data i = i then data
 else sinkDown (data.swapIfInBounds (smallest key data i) i) (smallest key data i)
termination_by data.size-i
decreasing_by
 have := smallest_cases key data i _h
 simp only [Array.size_swapIfInBounds]
 omega

def push (item : α) : Array α := bubbleUp key (data.push item) data.size

def pop : Option α × Array α :=
 match data[0]?,data.back? with
 | some top,some last =>
  (some top,if 0 < data.pop.size then sinkDown key (data.pop.setIfInBounds 0 last) 0 else data.pop)
 | _,_ => (none,data)

def peek : Option α := data[0]?

end

section
variable {α β : Type} {key : α → β} {data : Array α} {i j : Nat}

theorem keyAt_swapIfInBounds (hi:i < data.size) (hj:j < data.size) :
 keyAt key (data.swapIfInBounds i j)=fun c=>keyAt key data (swap i j c) := by
 funext c
 simp only [keyAt,Array.swapIfInBounds,dif_pos hi,dif_pos hj,Array.getElem?_swap,swap_apply_def]
 grind

theorem swapIfInBounds_perm : (data.swapIfInBounds i j).Perm data := by
 unfold Array.swapIfInBounds
 split_ifs with hi hj
 · exact Array.swap_perm hi hj
 · exact .refl _
 · exact .refl _

variable [LinearOrder β]

theorem le_keyAt {x : WithTop β} (h:data.size ≤ i) : x ≤ keyAt key data i := by
 rw [keyAt,Array.getElem?_eq_none h]
 exact le_top

theorem bubbleUp_perm : (bubbleUp key data i).Perm data := by
 fun_induction bubbleUp key data i with
 | case1 | case3 => exact .refl _
 | case2 data i hpo hlt ih => exact ih.trans swapIfInBounds_perm

theorem bubbleUp_ordered (hi:i < data.size) (h:RisingAt (keyAt key data) i) :
 Ordered (keyAt key (bubbleUp key data i)) := by
 fun_induction bubbleUp key data i with
 | case1 data i hpo hle => exact h.ordered fun _=>hle
 | case2 data i hpo hlt ih =>
  refine ih (by simp; omega) ?_
  rw [keyAt_swapIfInBounds (by omega) hi]
  exact h.swap hpo (not_le.mp hlt)
 | case3 data i hpo => exact h.ordered fun h0=>absurd h0 hpo

theorem smaller_le (c : Nat) :
 keyAt key data (smaller key data i c) ≤ keyAt key data i ∧
  keyAt key data (smaller key data i c) ≤ keyAt key data c := by
 unfold smaller
 split_ifs with h
 · exact ⟨h.2.le,le_refl _⟩
 refine ⟨le_refl _,?_⟩
 by_cases hc : c < data.size
 · exact not_lt.mp fun hlt=>h ⟨hc,hlt⟩
 · exact le_keyAt (not_lt.mp hc)

theorem smallest_le (c : Nat) (hc:0 < c) (hp:(c-1)/2=i) :
 keyAt key data (smallest key data i) ≤ keyAt key data c := by
 obtain rfl|rfl : c=2*i+1 ∨ c=2*i+2 := by omega
 · exact (smaller_le (2*i+2)).1.trans (smaller_le (2*i+1)).2
 · exact (smaller_le (2*i+2)).2

theorem sinkDown_perm : (sinkDown key data i).Perm data := by
 fun_induction sinkDown key data i with
 | case1 => exact .refl _
 | case2 data i hs ih => exact ih.trans swapIfInBounds_perm

theorem sinkDown_ordered (hi:i < data.size) (h:SinkingAt (keyAt key data) i) :
 Ordered (keyAt key (sinkDown key data i)) := by
 fun_induction sinkDown key data i with
 | case1 data i hs =>
  refine h.ordered fun c hc hp=>?_
  have hle:keyAt key data (smallest key data i) ≤ keyAt key data c:=smallest_le c hc hp
  rwa [hs] at hle
 | case2 data i hs ih =>
  obtain ⟨hsi,hpo,hp,hlt⟩:=smallest_cases key data i hs
  refine ih (by simpa using hsi) ?_
  rw [keyAt_swapIfInBounds hsi hi]
  exact h.swap hpo hp hlt smallest_le

theorem push_perm (item : α) : (push key data item).toList.Perm (item::data.toList) := by
 have hp:(push key data item).toList.Perm (data.push item).toList:=bubbleUp_perm.toList
 rw [Array.toList_push] at hp
 exact hp.trans (List.perm_append_singleton item data.toList)

theorem push_ordered (item : α) (h:Ordered (keyAt key data)) :
 Ordered (keyAt key (push key data item)) := by
 have hsa:∀c≠data.size,keyAt key (data.push item) c=keyAt key data c:=by
  intro c hc
  exact congrArg (Option.map key) (by simp [Array.getElem?_push,hc])
 refine bubbleUp_ordered (by simp) ⟨fun c hc hne=>?_,fun _ c hc hp=>?_⟩
 · by_cases hp : (c-1)/2=data.size
   · exact le_keyAt (by rw [Array.size_push]; omega)
   · rw [hsa _ hp,hsa c hne]
     exact h c hc
 · exact le_keyAt (by rw [Array.size_push]; omega)

theorem pop_cases {top : α} (hto:data[0]?=some top) :
 data = #[top] ∧ pop key data=(some top,#[]) ∨
 ∃mid last,data=⟨top::mid++[last]⟩ ∧ pop key data=(some top,sinkDown key ⟨last::mid⟩ 0) := by
 obtain ⟨l⟩:=data
 rcases List.eq_nil_or_concat' l with rfl|⟨_|⟨first,mid⟩,last,rfl⟩
 · simp at hto
 · obtain rfl : last=top := by simpa using hto
   exact .inl ⟨rfl,by simp [pop]⟩
 obtain rfl : first=top := by simpa using hto
 refine .inr ⟨mid,last,rfl,?_⟩
 have hl:(first::(mid++[last])).getLast?=some last:=by
  rw [←List.cons_append,List.getLast?_concat]
 have hf:(first::(mid++[last])).dropLast=first::mid:=by
  rw [←List.cons_append,List.dropLast_concat]
 simp [pop,hl,hf]

theorem pop_perm {top : α} (hto:data[0]?=some top) :
 (pop key data).1=some top ∧ data.toList.Perm (top::(pop key data).2.toList) := by
 rcases @pop_cases _ _ key _ _ _ hto with ⟨rfl,hpo⟩|⟨mid,last,rfl,hpo⟩
 · rw [hpo]
   exact ⟨rfl,.refl _⟩
 · rw [hpo]
   exact ⟨rfl,.cons _ ((List.perm_append_singleton last mid).trans sinkDown_perm.toList.symm)⟩

theorem pop_ordered (h:Ordered (keyAt key data)) {top : α} (hto:data[0]?=some top) :
 Ordered (keyAt key (pop key data).2) := by
 rcases @pop_cases _ _ key _ _ _ hto with ⟨rfl,hpo⟩|⟨mid,last,rfl,hpo⟩
 · rw [hpo]
   exact fun c _=>le_keyAt (Nat.zero_le c)
 have hsa:∀c,0 < c → c ≤ mid.length →
  keyAt key ⟨last::mid⟩ c=keyAt key ⟨top::mid++[last]⟩ c := by
  intro c hc hle
  obtain ⟨k,rfl⟩:=Nat.exists_eq_add_of_lt hc
  rw [Nat.zero_add] at hle ⊢
  exact congrArg (Option.map key) (by simpa using (List.getElem?_append_left hle).symm)
 have hsi:SinkingAt (keyAt key ⟨last::mid⟩) 0:=by
  refine ⟨fun c hc hne=>?_,fun h0=>absurd h0 (lt_irrefl 0)⟩
  by_cases hle : c ≤ mid.length
  · rw [hsa c hc hle,hsa _ (by omega) (by omega)]
    exact h c hc
  · exact le_keyAt (by simp; omega)
 rw [hpo]
 exact sinkDown_ordered (by simp) hsi

end

end DhKit.BinaryHeaps
