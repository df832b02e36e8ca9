import DhKit.BinaryHeaps

/-!
# The heaps of the nearest-neighbour search

`MinHeap` and `MaxHeap` differ in the direction of their comparisons.
-/
namespace DhKit.SearchHeaps
open BinaryHeaps

structure HeapItem (β : Type) where
 id : Nat
 dist : β

section
variable {α : Type}

structure HeapClass (α : Type) where
 push : Array α → α → Array α
 pop : Array α → Option α × Array α
 peek : Array α → Option α

inductive HeapCall (α : Type) where
 | push (item : α)
 | pop

/-- The items of the heap, and those that were popped. -/
def HeapClass.call (heap : HeapClass α) (s : Array α × List α) : HeapCall α → Array α × List α
 | .push item => (heap.push s.1 item,s.2)
 | .pop => ((heap.pop s.1).2,s.2++(heap.pop s.1).1.toList)

def HeapCall.pushed : HeapCall α → List α
 | .push item => [item]
 | .pop => []

/-- In the state `s` after some calls. -/
structure HeapCorrect (heap : HeapClass α) (le : α → α → Prop) (calls : List (HeapCall α))
 (s : Array α × List α) : Prop where
 held : (calls.flatMap HeapCall.pushed).Perm (s.2++s.1.toList)
 peek : heap.peek s.1 = (heap.pop s.1).1
 pop : s.1≠#[] → ∃ top,(heap.pop s.1).1 = some top ∧ (∀ item ∈ s.1,le top item) ∧
  s.1.toList.Perm (top::(heap.pop s.1).2.toList)

end

section
variable {α β : Type} [LinearOrder β] (key : α → β)

def heapOf : HeapClass α := ⟨push key,pop key,peek⟩

def MinHeap : HeapClass (HeapItem β) := heapOf HeapItem.dist

def MaxHeap : HeapClass (HeapItem β) := heapOf (OrderDual.toDual ∘ HeapItem.dist)

/-- The heap is in order and holds what was pushed and not popped. -/
structure Holds (pushed : List α) (s : Array α × List α) : Prop where
 ordered : Ordered (keyAt key s.1)
 held : pushed.Perm (s.2++s.1.toList)

variable {key} {pushed : List α} {s : Array α × List α}

theorem pop_of_none (h:s.1[0]?=none) : pop key s.1=(none,s.1) := by
 simp [pop,h]

theorem Holds.call (h:Holds key pushed s) (call : HeapCall α) :
 Holds key (pushed++call.pushed) ((heapOf key).call s call) := by
 cases call with
 | push item =>
  refine ⟨push_ordered item h.ordered,(h.held.append_right [item]).trans ?_⟩
  rw [List.append_assoc]
  exact .append_left _ ((List.perm_append_singleton _ _).trans (push_perm item).symm)
 | pop =>
  simp only [HeapClass.call,HeapCall.pushed,List.append_nil,heapOf]
  cases hto : s.1[0]? with
  | none =>
   rw [pop_of_none hto]
   exact ⟨h.ordered,by simpa using h.held⟩
  | some top =>
   obtain ⟨hpo,hp⟩:=@pop_perm _ _ key _ _ _ hto
   refine ⟨pop_ordered h.ordered hto,h.held.trans ?_⟩
   rw [hpo,List.append_assoc]
   exact .append_left _ hp

theorem Holds.run (h:Holds key pushed s) (calls : List (HeapCall α)) :
 Holds key (pushed++calls.flatMap HeapCall.pushed) (calls.foldl (heapOf key).call s) := by
 induction calls generalizing pushed s with
 | nil => simpa using h
 | cons call calls ih => simpa using ih (h.call call)

theorem Holds.correct {calls : List (HeapCall α)}
 (h:Holds key (calls.flatMap HeapCall.pushed) s) :
 HeapCorrect (heapOf key) (fun a b=>key a ≤ key b) calls s := by
 cases hto : s.1[0]? with
 | none =>
  have hem:s.1 = #[]:=by simpa using hto
  exact ⟨h.held,by simp [heapOf,pop_of_none hto,peek,hto],fun hne=>absurd hem hne⟩
 | some top =>
  obtain ⟨hpo,hp⟩:=@pop_perm _ _ key _ _ _ hto
  refine ⟨h.held,hto.trans hpo.symm,fun _=>⟨top,hpo,fun item hitem=>?_,hp⟩⟩
  obtain ⟨i,hi,rfl⟩:=Array.mem_iff_getElem.mp hitem
  have hle:=h.ordered.root_le i
  simp only [keyAt,hto,Array.getElem?_eq_getElem hi,Option.map_some] at hle
  exact WithTop.coe_le_coe.mp hle

theorem holds_empty : Holds key [] (#[],[]) :=
 ⟨fun c _=>le_keyAt (Nat.zero_le c),.refl _⟩

theorem heaps_correct (calls : List (HeapCall (HeapItem β))) :
 HeapCorrect MinHeap (fun a b => a.dist ≤ b.dist) calls (calls.foldl MinHeap.call (#[],[])) ∧
 HeapCorrect MaxHeap (fun a b => b.dist ≤ a.dist) calls (calls.foldl MaxHeap.call (#[],[])) :=
 ⟨(holds_empty.run calls).correct,(holds_empty.run calls).correct⟩

end

end DhKit.SearchHeaps
