import Mathlib.Data.List.Basic

/-!
# Worklist search

A search that pops a queue and visits the successors of what it pops, each at most once.
-/
namespace DhKit.WorklistSearch

structure Worklist (α : Type) where
 queue : List α
 visited : List α
 found : List α
deriving DecidableEq

namespace Worklist
variable {α : Type} [DecidableEq α]

def start (l : List α) : Worklist α := ⟨l,l,[]⟩

def visit (w : Worklist α) (a : α) : Worklist α :=
 if a ∈ w.found then w
 else if a ∈ w.visited then { w with found := w.found++[a] }
 else ⟨w.queue++[a],w.visited++[a],w.found++[a]⟩

def run (next : α → List α) : Nat → Worklist α → Worklist α
 | 0,w => w
 | fuel+1,w => match w.queue with
  | [] => w
  | a::rest => run next fuel ((next a).foldl visit { w with queue := rest })

section
variable {next : α → List α} {w : Worklist α}

theorem mem_found_visit {a b : α} : b∈(w.visit a).found ↔ b∈w.found ∨ b=a := by
 unfold visit
 split_ifs with hf
 · exact ⟨.inl,fun h=>h.elim id fun he=>he ▸ hf⟩
 · simp
 · simp

theorem mem_found_foldl_visit {l : List α} {b : α} :
 b∈(l.foldl visit w).found ↔ b∈w.found ∨ b∈l := by
 induction l generalizing w with
 | nil => simp
 | cons a l ih => rw [List.foldl_cons,ih,mem_found_visit,List.mem_cons,or_assoc]

theorem mem_found_run {fuel : Nat} {b : α} (h:b∈(run next fuel w).found) :
 b∈w.found ∨ ∃a,b∈next a := by
 induction fuel generalizing w with
 | zero => exact .inl h
 | succ fuel ih =>
  unfold run at h
  split at h
  next => exact .inl h
  next a rest hq =>
   rcases ih h with h|h
   · exact (mem_found_foldl_visit.mp h).imp_right fun hb=>⟨a,hb⟩
   · exact .inr h

end

end Worklist
end DhKit.WorklistSearch
