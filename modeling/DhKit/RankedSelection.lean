import Mathlib.Data.List.Sort

/-!
# The best of a list

Items are ranked by a score, the best first.
-/
namespace DhKit.RankedSelection
open List
variable {α β γ : Type} [LinearOrder β]

def ranked (score : α → β) (l : List α) : List α := l.insertionSort fun a b => score b ≤ score a

/-- `best` are the `k` best items of `l`, best first. -/
structure IsTop (score : α → β) (k : Nat) (l best : List α) : Prop where
 rest : ∃ rest,l.Perm (best++rest) ∧ ∀ a ∈ best,∀ b ∈ rest,score b ≤ score a
 sorted : best.Pairwise fun a b => score b ≤ score a
 length : best.length = min k l.length

section
variable {score : α → β} {l l' best : List α} {k : Nat}

theorem ranked_perm : (ranked score l).Perm l := perm_insertionSort _ _

theorem ranked_sorted : (ranked score l).Pairwise fun a b=>score b ≤ score a := by
 exact pairwise_insertionSort _ l

theorem isTop_take (hp:l'.Perm l) (hs:l'.Pairwise fun a b=>score b ≤ score a) :
 IsTop score k l (l'.take k) := by
 have hsp:=hs
 rw [←take_append_drop k l',pairwise_append] at hsp
 refine ⟨⟨l'.drop k,?_,hsp.2.2⟩,hsp.1,?_⟩
 · rw [take_append_drop]
   exact hp.symm
 · rw [length_take,hp.length_eq]

theorem isTop_ranked : IsTop score k l ((ranked score l).take k) :=
 isTop_take ranked_perm ranked_sorted

theorem sorted_unique (hd:(l.map score).Nodup) (hp:l.Perm l')
 (hs:l.Pairwise fun a b=>score b ≤ score a)
 (hs':l'.Pairwise fun a b=>score b ≤ score a) : l=l' :=
 Perm.eq_of_pairwise (fun _ _ ha hb hab hba=>
  inj_on_of_nodup_map hd ha (hp.mem_iff.mpr hb) (le_antisymm hba hab)) hs hs' hp

theorem IsTop.eq_take (hd:(l.map score).Nodup) (h:IsTop score k l best) :
 best=(ranked score l).take k := by
 obtain ⟨rest,hp,hr⟩:=h.rest
 have hpe:(best++ranked score rest).Perm l:=
  (Perm.append_left best ranked_perm).trans hp.symm
 have hso:(best++ranked score rest).Pairwise fun a b=>score b ≤ score a:=
  pairwise_append.mpr ⟨h.sorted,ranked_sorted,
   fun a ha b hb=>hr a ha b (ranked_perm.mem_iff.mp hb)⟩
 have heq:best++ranked score rest=ranked score l:=
  sorted_unique ((hpe.map score).nodup_iff.mpr hd) (hpe.trans ranked_perm.symm) hso
   ranked_sorted
 have hle:=h.length
 have hl:=hp.length_eq
 rw [length_append] at hl
 by_cases hk : k ≤ best.length
 · have hbe:best.length=k:=by omega
   rw [←heq,take_append_of_le_length hk,←hbe,take_length]
 · -- fewer than `k` items: nothing is left behind
   have hn:rest=[]:=eq_nil_of_length_eq_zero (by omega)
   have hal:ranked score l=best:=by
    rw [←heq,hn]
    exact append_nil best
   rw [hal,take_of_length_le (by omega)]

theorem IsTop.map {f : γ → α} {l best : List γ} (h:IsTop (score ∘ f) k l best) :
 IsTop score k (l.map f) (best.map f) := by
 obtain ⟨rest,hp,hr⟩:=h.rest
 refine ⟨⟨rest.map f,?_,?_⟩,?_,?_⟩
 · rw [←map_append]
   exact hp.map f
 · simpa using hr
 · exact pairwise_map.mpr h.sorted
 · simpa using h.length

theorem ranked_congr (hd:(l.map score).Nodup) (hp:l.Perm l') :
 ranked score l=ranked score l' :=
 sorted_unique ((ranked_perm.map score).nodup_iff.mpr hd)
  (ranked_perm.trans (hp.trans ranked_perm.symm)) ranked_sorted ranked_sorted

theorem filter_take_sorted (bound : β) (hs:l.Pairwise fun a b=>score b ≤ score a) :
 (l.take k).filter (fun a=>decide (bound ≤ score a)) =
  (l.filter fun a=>decide (bound ≤ score a)).take k := by
 induction l generalizing k with
 | nil => simp
 | cons a l ih =>
  obtain ⟨ha,hs⟩:=pairwise_cons.mp hs
  cases k with
  | zero => simp
  | succ k =>
   by_cases hb : bound ≤ score a
   · simp [hb,ih hs]
   have hnone:l.filter (fun a=>decide (bound ≤ score a))=[]:=by
    refine filter_eq_nil_iff.mpr fun b hm h=>hb ?_
    exact (of_decide_eq_true h).trans (ha b hm)
   have hta:=ih hs (k := k)
   simp [hb,hnone,hta]

theorem filter_ranked (bound : β) (hd:(l.map score).Nodup) :
 (ranked score l).filter (fun a=>decide (bound ≤ score a)) =
  ranked score (l.filter fun a=>decide (bound ≤ score a)) := by
 have hsu:((l.filter fun a=>decide (bound ≤ score a)).map score).Nodup:=
  hd.sublist (filter_sublist.map _)
 have hp:((ranked score l).filter fun a=>decide (bound ≤ score a)).Perm
  (l.filter fun a=>decide (bound ≤ score a)) := ranked_perm.filter _
 exact sorted_unique ((hp.map score).nodup_iff.mpr hsu) (hp.trans ranked_perm.symm)
  (ranked_sorted.filter _) ranked_sorted

theorem IsTop.filter_eq (bound : β) (hd:(l.map score).Nodup) (h:IsTop score k l best) :
 best.filter (fun a=>decide (bound ≤ score a)) =
  (ranked score (l.filter fun a=>decide (bound ≤ score a))).take k := by
 rw [h.eq_take hd,filter_take_sorted bound ranked_sorted,filter_ranked bound hd]

end

end DhKit.RankedSelection
