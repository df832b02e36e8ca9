import Mathlib.Data.List.Sort

/-!
# Listings, newest first

Rows stand in the order in which they were inserted.
-/
namespace DhKit.NewestFirst
open List

section
variable {α τ : Type} [LinearOrder τ]

/-- `ORDER BY time DESC, rowid DESC`, over rows in the order of their ids. -/
def newestFirst (time : α → τ) (rows : List α) : List α :=
 rows.reverse.insertionSort fun a b => time b ≤ time a

end

section
variable {α β τ : Type} [LinearOrder τ] {time : α → τ} {rows : List α} {time' : β → τ}

theorem newestFirst_perm : (newestFirst time rows).Perm rows :=
 (perm_insertionSort _ _).trans rows.reverse_perm

@[simp] theorem mem_newestFirst {a : α} : a∈newestFirst time rows ↔ a∈rows :=
 newestFirst_perm.mem_iff

theorem pairwise_newestFirst : (newestFirst time rows).Pairwise fun a b=>time b ≤ time a := by
 exact pairwise_insertionSort _ _

theorem newestFirst_append (row : α) : newestFirst time (rows++[row]) =
 (newestFirst time rows).orderedInsert (fun a b=>time b ≤ time a) row := by
 unfold newestFirst
 rw [reverse_append]
 rfl

theorem head?_newestFirst_append (row : α) : (newestFirst time (rows++[row])).head? =
 match (newestFirst time rows).head? with
 | none => some row
 | some newest => if time newest ≤ time row then some row else some newest := by
 rw [newestFirst_append]
 cases newestFirst time rows with
 | nil => rfl
 | cons newest rest =>
  rw [orderedInsert_cons]
  dsimp only [head?_cons]
  split_ifs <;> rfl

theorem newestFirst_map (f : α → β) (hf:∀a∈rows,time' (f a)=time a) :
 newestFirst time' (rows.map f)=(newestFirst time rows).map f := by
 unfold newestFirst
 rw [←map_reverse]
 apply Eq.symm
 apply map_insertionSort
 intro a ha b hb
 rw [hf a (mem_reverse.mp ha),hf b (mem_reverse.mp hb)]

/-- Rows that are copied one by one are listed as the rows with their indices are. -/
theorem newestFirst_mapIdx (f : Nat → α → β) (hf:∀i a,time' (f i a)=time a) :
 newestFirst time' (rows.mapIdx f) =
  (newestFirst (fun pair=>time pair.1) rows.zipIdx).map fun pair=>f pair.2 pair.1 := by
 rw [mapIdx_eq_zipIdx_map]
 exact newestFirst_map _ fun pair _=>hf pair.2 pair.1

theorem not_sublist_swap {l : List α} (hn:l.Nodup) {a b : α} (hab:[a,b].Sublist l) :
 ¬ [b,a].Sublist l := by
 induction l with
 | nil => cases hab
 | cons first l ih =>
  obtain ⟨hf,hr⟩:=nodup_cons.mp hn
  intro hba
  cases hab with
  | cons _ hab =>
   cases hba with
   | cons _ hba => exact ih hr hab hba
   | cons_cons _ hba => exact hf (hab.subset (by simp))
  | cons_cons _ hab =>
   cases hba with
   | cons _ hba => exact hf (hba.subset (by simp))
   | cons_cons _ hba => exact hf (hab.subset (by simp))

theorem newestFirst_again_iff (hn:rows.Nodup) :
 newestFirst time (newestFirst time rows)=newestFirst time rows ↔ (rows.map time).Nodup := by
 have hti:((newestFirst time rows).map time).Perm (rows.map time):=newestFirst_perm.map time
 rw [←hti.nodup_iff]
 have hli:(newestFirst time rows).Nodup:=newestFirst_perm.nodup_iff.mpr hn
 generalize hl : newestFirst time rows=l at hli
 have hso:l.Pairwise fun a b=>time b ≤ time a:=hl ▸ pairwise_newestFirst
 constructor
 · intro hsa
   rw [List.Nodup,pairwise_map,pairwise_iff_forall_sublist]
   intro a b hab htim
   apply not_sublist_swap hli hab
   rw [←hsa]
   apply pair_sublist_insertionSort
   · exact le_of_eq htim
   · exact reverse_sublist.mp (by simpa using hab)
 · intro hdi
   apply Perm.eq_of_pairwise _ pairwise_newestFirst hso newestFirst_perm
   intro a b ha hb hab hba
   exact inj_on_of_nodup_map hdi (mem_newestFirst.mp ha) hb (le_antisymm hba hab)

end

end DhKit.NewestFirst
