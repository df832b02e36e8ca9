import DhKit.CommitRules

/-!
# Statements that may fail

A connection runs its statements one by one, each of them a transaction of its own.
-/
namespace DhKit.StatementFaults
open CommitRules

structure Connection (σ : Type) where
 store : σ
 fault : Option Nat

variable {σ ε α : Type}

def Connection.after (c : Connection σ) (store : σ) : Connection σ :=
 ⟨store,c.fault.map fun n => n-1⟩

def select (lost : ε) (f : σ → α) : Commit (Connection σ) ε α := fun c =>
 if c.fault = some 0 then (.error lost,c) else (.ok (f c.store),c.after c.store)

def update (lost : ε) (f : σ → σ) : Commit (Connection σ) ε Unit := fun c =>
 if c.fault = some 0 then (.error lost,c) else (.ok (),c.after (f c.store))

def insert (lost refused : ε) (f : σ → Option σ) : Commit (Connection σ) ε Unit := fun c =>
 if c.fault = some 0 then (.error lost,c)
 else match f c.store with
  | some store => (.ok (),c.after store)
  | none => (.error refused,c.after c.store)

/-! ## Scripts

A computation first reads and then writes, or it is refused before it writes.
-/

def Refuses (x : Commit (Connection σ) ε α) (store : σ) : Prop :=
 ∀ fault,(x ⟨store,fault⟩).1.isOk = false ∧ (x ⟨store,fault⟩).2.store = store

/-- The stores that are left before the statement that fails. -/
def written (reads : Nat) (stores : List σ) : Option Nat → List σ
 | none => stores
 | some n => stores.take (n-reads)

theorem written_subset (reads : Nat) (stores : List σ) (fault : Option Nat) :
 written reads stores fault ⊆ stores := by
 cases fault with
 | none => exact List.Subset.refl _
 | some n => exact List.take_subset _ _

/-- `x` leaves the `stores` one after another, up to the statement that fails. -/
def Follows (x : Commit (Connection σ) ε α) (store : σ) (reads : Nat) (stores : List σ) : Prop :=
 ∀ fault,(x ⟨store,fault⟩).1.isOk = fault.all (reads+stores.length ≤ ·) ∧
  (x ⟨store,fault⟩).2.store = (written reads stores fault).getLastD store

section
variable {lost refused : ε} {x : Commit (Connection σ) ε α} {store store' : σ} {reads : Nat}
 {stores : List σ} {β : Type} {f : α → Commit (Connection σ) ε β} {g : σ → α}

theorem refuses_fail (e : ε) : Refuses (fail e : Commit (Connection σ) ε α) store :=
 fun _=>⟨rfl,rfl⟩

theorem Refuses.bind (h:Refuses x store) (f : α → Commit (Connection σ) ε β) :
 Refuses (x >>= f) store := by
 intro fault
 obtain ⟨hf,hst⟩:=h fault
 rcases hx : x ⟨store,fault⟩ with ⟨e|a,d⟩
 · rw [hx] at hst
   rw [bind_of_error hx]
   exact ⟨rfl,hst⟩
 · rw [hx] at hf
   cases hf

theorem Refuses.select (h:Refuses (f (g store)) store) :
 Refuses (select lost g >>= f) store := by
 rintro (_|_|n)
 · exact h none
 · exact ⟨rfl,rfl⟩
 · exact h (some n)

theorem refuses_insert {g : σ → Option σ} (h:g store=none) :
 Refuses (insert lost refused g) store := by
 rintro (_|_|n) <;> simp [insert,h,Connection.after,Except.toBool]

theorem follows_pure (a : α) : Follows (pure a : Commit (Connection σ) ε α) store 0 [] := by
 rintro (_|n)
 · exact ⟨rfl,rfl⟩
 · exact ⟨(decide_eq_true (Nat.zero_le n)).symm,by rw [written,List.take_nil]; rfl⟩

theorem Follows.then_pure (h:Follows x store reads stores) (b : β) :
 Follows (x >>= fun _=>pure b) store reads stores := by
 intro fault
 obtain ⟨hok,hst⟩:=h fault
 rcases hx : x ⟨store,fault⟩ with ⟨e|a,d⟩
 · rw [bind_of_error hx,←hok,←hst,hx]
   exact ⟨rfl,rfl⟩
 · rw [bind_of_ok hx,←hok,←hst,hx]
   exact ⟨rfl,rfl⟩

theorem Follows.select (h:Follows (f (g store)) store reads stores) :
 Follows (select lost g >>= f) store (reads+1) stores := by
 rintro (_|_|n)
 · exact h none
 · refine ⟨(decide_eq_false (by omega)).symm,?_⟩
   rw [written,Nat.zero_sub]
   rfl
 · obtain ⟨hok,hst⟩:=h (some n)
   refine ⟨hok.trans (decide_eq_decide.mpr (by omega)),hst.trans ?_⟩
   rw [written,written,Nat.add_sub_add_right]

variable {rest : Unit → Commit (Connection σ) ε β}

theorem Follows.update {g : σ → σ} (h:Follows (rest ()) (g store) 0 stores) :
 Follows (update lost g >>= rest) store 0 (g store::stores) := by
 rintro (_|_|n)
 · obtain ⟨hok,hst⟩:=h none
   exact ⟨hok,hst.trans (List.getLastD_cons ..).symm⟩
 · have hl:¬0+(g store::stores).length ≤ 0:=by simp
   exact ⟨(decide_eq_false hl).symm,rfl⟩
 obtain ⟨hok,hst⟩:=h (some n)
 refine ⟨hok.trans (decide_eq_decide.mpr ?_),hst.trans ?_⟩
 · rw [List.length_cons]
   omega
 · exact (List.getLastD_cons ..).symm

theorem follows_update (g : σ → σ) : Follows (update lost g) store 0 [g store] := by
 rintro (_|_|n)
 · exact ⟨rfl,rfl⟩
 · exact ⟨rfl,rfl⟩
 have hsh:0+[g store].length ≤ n+1:=by simp
 refine ⟨(decide_eq_true hsh).symm,?_⟩
 rw [written,Nat.sub_zero,List.take_succ_cons,List.take_nil]
 rfl

theorem Follows.insert {g : σ → Option σ} (hg:g store=some store')
 (h:Follows (rest ()) store' 0 stores) :
 Follows (insert lost refused g >>= rest) store 0 (store'::stores) := by
 have hu:Follows (StatementFaults.update lost (fun _=>store') >>= rest) store 0
  (store'::stores) := Follows.update h
 intro fault
 have hsa:(StatementFaults.insert lost refused g >>= rest) ⟨store,fault⟩ =
  (StatementFaults.update lost (fun _=>store') >>= rest) ⟨store,fault⟩ := by
  change Commit.bind _ rest _=Commit.bind _ rest _
  simp [Commit.bind,StatementFaults.insert,StatementFaults.update,hg]
 rw [hsa]
 exact hu fault

end
end DhKit.StatementFaults
