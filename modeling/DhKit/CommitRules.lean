import Mathlib.Tactic.Common

/-!
# Computations over a durable store

A computation reads and commits to a store of type `σ`.
-/
namespace DhKit.CommitRules
open List

def Commit (σ ε α : Type) : Type := σ → Except ε α × σ

section
variable {σ ε α β : Type}
 {x : Commit σ ε α} {s t : σ} {a : α} {f : α → Commit σ ε β} {handler : ε → Commit σ ε Unit}
  {l : List α} {b : β} {e : ε} {u : Unit} {s' : σ}

def Commit.pure (a : α) : Commit σ ε α := fun s => (.ok a,s)

section
variable (x : Commit σ ε α)

def Commit.bind (f : α → Commit σ ε β) : Commit σ ε β := fun s =>
 match x s with
 | (.ok a,t) => f a t
 | (.error e,t) => (.error e,t)

instance : Monad (Commit σ ε) where
 pure := Commit.pure
 bind := Commit.bind

def fail (e : ε) : Commit σ ε α := fun s => (.error e,s)

def query (f : σ → α) : Commit σ ε α := fun s => (.ok (f s),s)

def onError (handler : ε → Commit σ ε Unit) : Commit σ ε α := fun s =>
 match x s with
 | (.ok a,t) => (.ok a,t)
 | (.error e,t) => match handler e t with
  | (.ok _,u) => (.error e,u)
  | (.error e',u) => (.error e',u)

def attempt : Commit σ ε (Except ε α) := fun s => (.ok (x s).1,(x s).2)

def transaction : Commit σ ε α := fun s =>
 match x s with
 | (.ok a,t) => (.ok a,t)
 | (.error e,_) => (.error e,s)

def statement (f : σ → Except ε σ) : Commit σ ε Unit := fun s =>
 match f s with
 | .ok t => (.ok (),t)
 | .error e => (.error e,s)

def change (f : σ → σ) : Commit σ ε Unit := fun s => (.ok (),f s)

def Yields (s : σ) (a : α) (t : σ) : Prop := x s = (.ok a,t)

end

theorem Yields.deterministic {t' : σ} {a' : α}
 (h:Yields x s a t) (h':Yields x s a' t') : a=a' ∧ t=t' := by
 unfold Yields at h h'
 rw [h] at h'
 simpa using h'

@[simp] theorem yields_pure {b : α} :
 Yields (Pure.pure a : Commit σ ε α) s b t ↔ a=b ∧ s=t := by
 change ((Except.ok a : Except ε α),s)=(.ok b,t) ↔ _
 simp

@[simp] theorem yields_bind :
 Yields (x >>= f) s b t ↔ ∃a u,Yields x s a u ∧ Yields (f a) u b t := by
 change Commit.bind x f s=(.ok b,t) ↔ ∃a u,x s=(.ok a,u) ∧ f a u=(.ok b,t)
 unfold Commit.bind
 cases h : x s with
 | mk r u =>
  cases r with
  | ok a => simp
  | error e => simp

theorem bind_of_ok (h:x s=(.ok a,t)) : (x >>= f) s=f a t := by
 change Commit.bind x f s=f a t
 rw [Commit.bind,h]

theorem bind_of_error (h:x s=(.error e,t)) : (x >>= f) s=(.error e,t) := by
 change Commit.bind x f s=_
 rw [Commit.bind,h]

@[simp] theorem yields_fail :
 ¬Yields (fail e : Commit σ ε α) s a t := by
 simp [Yields,fail]

@[simp] theorem yields_query {f : σ → α} :
 Yields (query f : Commit σ ε α) s a t ↔ f s=a ∧ s=t := by
 simp [Yields,query]

@[simp] theorem yields_onError : Yields (onError x handler) s a t ↔ Yields x s a t := by
 unfold Yields onError
 rcases h : x s with ⟨e|a',u⟩
 · rcases hh : handler e u with ⟨_|_,_⟩ <;> simp [hh]
 · simp

@[simp] theorem yields_attempt {r : Except ε α} :
 Yields (attempt x) s r t ↔ x s=(r,t) := by
 unfold Yields attempt
 constructor
 · intro h
   simp only [Prod.mk.injEq,Except.ok.injEq] at h
   exact Prod.ext h.1 h.2
 · intro h
   rw [h]

@[simp] theorem yields_statement {f : σ → Except ε σ} :
 Yields (statement f : Commit σ ε Unit) s u t ↔ f s = .ok t := by
 unfold Yields statement
 cases f s <;> simp

@[simp] theorem yields_change {f : σ → σ} :
 Yields (change f : Commit σ ε Unit) s u t ↔ f s=t := by
 simp [Yields,change]

def succeeds (x : Commit σ ε α) (s : σ) : Bool :=
 match (x s).1 with
 | .ok _ => true
 | .error _ => false

theorem yields_of_succeeds (h:succeeds x s=true) :
 ∃a,Yields x s a (x s).2 := by
 unfold succeeds at h
 unfold Yields
 rcases hx : x s with ⟨_|a,t⟩
 · simp [hx] at h
 · exact ⟨a,rfl⟩

def value (x : Commit σ ε α) (s : σ) : Option α :=
 match (x s).1 with
 | .ok a => some a
 | .error _ => none

theorem yields_of_value (h:value x s=some a) :
 Yields x s a (x s).2 := by
 unfold value at h
 unfold Yields
 rcases hx : x s with ⟨_|b,t⟩
 · simp [hx] at h
 · simpa [hx] using h

theorem yields_value (h:(value x s).isSome) :
 Yields x s ((value x s).get h) (x s).2 :=
 yields_of_value (Option.some_get h).symm

theorem foldlM_induct (f : β → α → Commit σ ε β) (I : List α → β → σ → Prop) (l : List α)
 (step : ∀a rest b s b' s',a∈l → I (a::rest) b s → Yields (f b a) s b' s' →
  I rest b' s')
 {b' : β} (h:I l b s) (run : Yields (l.foldlM f b) s b' s') : I [] b' s' := by
 suffices H : ∀rest,(∀a∈rest,a∈l) → ∀b s,I rest b s →
  Yields (rest.foldlM f b) s b' s' → I [] b' s' from H l (fun _ ha=>ha) b s h run
 intro rest
 induction rest with
 | nil =>
  intro _ b s hI hr
  simp only [foldlM_nil,yields_pure] at hr
  obtain ⟨rfl,rfl⟩:=hr
  exact hI
 | cons a rest ih =>
  intro hme b s hI hr
  simp only [foldlM_cons,yields_bind] at hr
  obtain ⟨b1,s1,h1,h2⟩:=hr
  exact ih (fun c hc=>hme c (mem_cons_of_mem _ hc)) b1 s1
   (step a rest b s b1 s1 (hme a mem_cons_self) hI h1) h2

theorem foldlM_invariant (f : β → α → Commit σ ε β) (I : β → σ → Prop) (l : List α)
 (step : ∀a b s b' s',a∈l → I b s → Yields (f b a) s b' s' → I b' s')
 {b' : β} (h:I b s) (run : Yields (l.foldlM f b) s b' s') : I b' s' :=
 foldlM_induct f (fun _=>I) l (fun a _ b s b' s' ha hI hr=>step a b s b' s' ha hI hr) h run

/-- What the turn of one element sets up and every turn keeps holds in the end. -/
theorem foldlM_reaches (f : β → α → Commit σ ε β) (Q : β → σ → Prop) {c : α} (hc:c∈l)
 (own : ∀b s b' s',Yields (f b c) s b' s' → Q b' s')
 (keep : ∀a∈l,∀b s b' s',Q b s → Yields (f b a) s b' s' → Q b' s')
 {b' : β} (run : Yields (l.foldlM f b) s b' s') : Q b' s' := by
 have H:=foldlM_induct f (fun rest b s=>c∈rest ∨ Q b s) l ?_ (.inl hc) run
 · exact H.resolve_left (by simp)
 rintro a rest b s b' s' ha (hm|hq) hst
 · rcases mem_cons.mp hm with rfl|hm
   · exact .inr (own b s b' s' hst)
   · exact .inl hm
 · exact .inr (keep a ha b s b' s' hq hst)

def Stops (x : Commit σ ε α) (s t : σ) : Prop := ∃ e,x s = (.error e,t)

section
variable {s t : σ}

theorem stops_of_not_succeeds (h:succeeds x s=false) :
 Stops x s (x s).2 := by
 unfold succeeds at h
 rcases hx : x s with ⟨e|a,u⟩
 · exact ⟨e,hx⟩
 · simp [hx] at h

@[simp] theorem stops_pure : ¬Stops (Pure.pure a : Commit σ ε α) s t := by
 rintro ⟨e,h⟩
 change ((Except.ok a : Except ε α),s)=(.error e,t) at h
 simp at h

@[simp] theorem stops_fail : Stops (fail e : Commit σ ε α) s t ↔ s=t := by
 simp [Stops,fail]

@[simp] theorem stops_query {f : σ → α} : ¬Stops (query f : Commit σ ε α) s t := by
 simp [Stops,query]

@[simp] theorem stops_bind :
 Stops (x >>= f) s t ↔ Stops x s t ∨ ∃a u,Yields x s a u ∧ Stops (f a) u t := by
 change (∃e,Commit.bind x f s=(.error e,t)) ↔
  (∃e,x s=(.error e,t)) ∨ ∃a u,x s=(.ok a,u) ∧ ∃e,f a u=(.error e,t)
 unfold Commit.bind
 cases h : x s with
 | mk r u =>
  cases r with
  | ok a => simp
  | error e => simp

theorem bind_eq_error (h:(x >>= f) s=(.error e,s')) :
 x s=(.error e,s') ∨ ∃a u,Yields x s a u ∧ f a u=(.error e,s') := by
 change Commit.bind x f s=_ at h
 unfold Commit.bind at h
 unfold Yields
 rcases hx : x s with ⟨e'|a,u⟩ <;> simp_all

theorem onError_eq_error {e' : ε} (h:onError x handler s=(.error e',t)) :
 ∃e u,x s=(.error e,u) ∧ (handler e u).2=t ∧ ((handler e u).1 = .ok () → e'=e) := by
 unfold onError at h
 rcases hx : x s with ⟨e|a,u⟩
 · refine ⟨e,u,rfl,?_⟩
   rcases hh : handler e u with ⟨_|_,v⟩ <;> simp_all
 · simp [hx] at h

end

def Keeps (I : σ → Prop) (x : Commit σ ε α) : Prop := ∀ s,I s → I (x s).2

section
variable {I : σ → Prop}

theorem Keeps.yields (hx:Keeps I x) (h:I s) (hr:Yields x s a t) : I t := by
 have ht:=hx s h
 rwa [hr] at ht

theorem Keeps.stops (hx:Keeps I x) (h:I s) (hr:Stops x s t) : I t := by
 obtain ⟨e,hr⟩:=hr
 have ht:=hx s h
 rwa [hr] at ht

theorem Keeps.pure (a : α) : Keeps I (Pure.pure a : Commit σ ε α) := fun _ h=>h

theorem Keeps.fail (e : ε) : Keeps I (CommitRules.fail e : Commit σ ε α) := fun _ h=>h

theorem Keeps.query (f : σ → α) : Keeps I (CommitRules.query f : Commit σ ε α) := fun _ h=>h

theorem Keeps.bind_yields (hx:Keeps I x) (hf:∀a s t,Yields x s a t → Keeps I (f a)) :
 Keeps I (x >>= f) := by
 intro s h
 change I (Commit.bind x f s).2
 have h1:=hx s h
 unfold Commit.bind
 rcases hr : x s with ⟨e|a,t⟩
 · simpa [hr] using h1
 · rw [hr] at h1
   exact hf a s t hr t h1

theorem Keeps.bind (hx:Keeps I x) (hf:∀a,Keeps I (f a)) : Keeps I (x >>= f) :=
 hx.bind_yields fun a _ _ _=>hf a

theorem Keeps.onError (hx:Keeps I x)
 (hh:∀e,Keeps I (handler e)) : Keeps I (CommitRules.onError x handler) := by
 intro s h
 have h1:=hx s h
 unfold CommitRules.onError
 rcases hr : x s with ⟨e|a,t⟩
 · rw [hr] at h1
   have h2:=hh e t h1
   rcases hu : handler e t with ⟨_|_,u⟩ <;> simpa [hu] using h2
 · simpa [hr] using h1

theorem Keeps.attempt (hx:Keeps I x) : Keeps I (CommitRules.attempt x) :=
 fun s h=>hx s h

theorem Keeps.foldlM_of_mem {f : β → α → Commit σ ε β}
 (hf:∀b,∀a∈l,Keeps I (f b a)) (b : β) : Keeps I (l.foldlM f b) := by
 induction l generalizing b with
 | nil => exact Keeps.pure b
 | cons a l ih =>
  exact (hf b a mem_cons_self).bind
   (ih fun b c hc=>hf b c (mem_cons_of_mem _ hc))

theorem Keeps.foldlM {f : β → α → Commit σ ε β} (hf:∀b a,Keeps I (f b a)) (l : List α)
 (b : β) : Keeps I (l.foldlM f b) :=
 Keeps.foldlM_of_mem (fun b a _=>hf b a) b

theorem transaction_cases (x : Commit σ ε α) (s : σ) :
 (CommitRules.transaction x s).2=s ∨ ∃a,Yields x s a (CommitRules.transaction x s).2 := by
 unfold CommitRules.transaction
 rcases hx : x s with ⟨e|a,t⟩
 · exact .inl rfl
 · exact .inr ⟨a,hx⟩

end

def Delivers (I : σ → Prop) (x : Commit σ ε α) : Prop := ∀ s,I s → ∃ a t,Yields x s a t ∧ I t

section
variable {I : σ → Prop}

theorem Delivers.pure (a : α) : Delivers I (Pure.pure a : Commit σ ε α) :=
 fun s h=>⟨a,s,rfl,h⟩

theorem Delivers.query (f : σ → α) : Delivers I (CommitRules.query f : Commit σ ε α) :=
 fun s h=>⟨f s,s,rfl,h⟩

theorem Delivers.bind (hx:Delivers I x) (hf:∀a,Delivers I (f a)) : Delivers I (x >>= f) := by
 intro s h
 obtain ⟨a,u,hu,hI⟩:=hx s h
 obtain ⟨b,t,ht,hI⟩:=hf a u hI
 exact ⟨b,t,yields_bind.mpr ⟨a,u,hu,ht⟩,hI⟩

theorem Delivers.foldlM {f : β → α → Commit σ ε β}
 (hf:∀b,∀a∈l,Delivers I (f b a)) (b : β) : Delivers I (l.foldlM f b) := by
 induction l generalizing b with
 | nil => exact Delivers.pure b
 | cons a l ih =>
  exact (hf b a mem_cons_self).bind
   (ih fun b c hc=>hf b c (mem_cons_of_mem _ hc))

end
end
end DhKit.CommitRules
