import Mathlib.Data.List.Basic

/-!
# Conditions on the steps of a run

A run is a fold of a step function over a list of events.
-/
namespace DhKit.RunConditions

section
variable {σ ε : Type} (step : σ → ε → σ)

/-- `P` holds in every state of the run. -/
def Throughout (P : σ → Prop) (s : σ) (events : List ε) : Prop :=
 ∀ before after,events = before++after → P (before.foldl step s)

/-- `C` holds of every event and the state it finds. -/
def EachStep (C : σ → ε → Prop) (s : σ) (events : List ε) : Prop :=
 ∀ before event after,events = before++event::after → C (before.foldl step s) event

end

section
variable {σ ε : Type} {step : σ → ε → σ} {P : σ → Prop} {C Q : σ → ε → Prop} {s : σ} {event : ε}
 {events : List ε}

theorem throughout_nil : Throughout step P s [] ↔ P s := by
 constructor
 · intro h
   exact h [] [] rfl
 · intro h before after heq
   rw [(List.append_eq_nil_iff.mp heq.symm).1]
   exact h

theorem throughout_cons :
 Throughout step P s (event::events) ↔ P s ∧ Throughout step P (step s event) events := by
 constructor
 · intro h
   exact ⟨h [] _ rfl,fun before after heq=>
    h (event::before) after (congrArg (event :: ·) heq)⟩
 · rintro ⟨hf,hr⟩ before after heq
   cases before with
   | nil => exact hf
   | cons first before =>
    obtain ⟨rfl,hta⟩:=List.cons.inj heq
    exact hr before after hta

theorem eachStep_nil : EachStep step C s [] := by
 intro before event after heq
 simp at heq

theorem eachStep_cons :
 EachStep step C s (event::events) ↔ C s event ∧ EachStep step C (step s event) events := by
 constructor
 · intro h
   exact ⟨h [] event events rfl,fun before next after heq=>
    h (event::before) next after (congrArg (event :: ·) heq)⟩
 · rintro ⟨hf,hr⟩ before next after heq
   cases before with
   | nil =>
    obtain ⟨rfl,-⟩:=List.cons.inj heq
    exact hf
   | cons first before =>
    obtain ⟨rfl,hta⟩:=List.cons.inj heq
    exact hr before next after hta

theorem throughout_of_eachStep (hst:∀s event,P s → C s event → P (step s event)) (h:P s)
 (hC:EachStep step C s events) : Throughout step P s events := by
 induction events generalizing s with
 | nil => exact throughout_nil.mpr h
 | cons event events ih =>
  obtain ⟨hf,hr⟩:=eachStep_cons.mp hC
  exact throughout_cons.mpr ⟨h,ih (hst s event h hf) hr⟩

theorem Throughout.mono {Q : σ → Prop} (h:Throughout step P s events) (hPQ:∀s,P s → Q s) :
 Throughout step Q s events :=
 fun before after heq=>hPQ _ (h before after heq)

theorem throughout_iff_eachStep_keeps :
 Throughout step P s events ↔
  P s ∧ EachStep step (fun s event=>P (step s event)) s events := by
 induction events generalizing s with
 | nil =>
  rw [throughout_nil]
  exact ⟨fun h=>⟨h,eachStep_nil⟩,And.left⟩
 | cons event events ih => rw [throughout_cons,eachStep_cons,ih]

theorem eachStep_iff {E : ε → Prop} (hE:∀event∈events,E event)
 (hag:∀s event,E event → P s → (Q s event ↔ C s event))
 (hk:∀s event,E event → P s → Q s event → P (step s event)) (h:P s) :
 EachStep step Q s events ↔ EachStep step C s events := by
 induction events generalizing s with
 | nil => exact ⟨fun _=>eachStep_nil,fun _=>eachStep_nil⟩
 | cons event events ih =>
  have hf:=hE event List.mem_cons_self
  have hr:∀event∈events,E event:=
   fun next hn=>hE next (List.mem_cons_of_mem _ hn)
  rw [eachStep_cons,eachStep_cons]
  constructor
  · rintro ⟨hq,hl⟩
    exact ⟨(hag s event hf h).mp hq,(ih hr (hk s event hf h hq)).mp hl⟩
  · rintro ⟨hc,hl⟩
    have hq:=(hag s event hf h).mpr hc
    exact ⟨hq,(ih hr (hk s event hf h hq)).mpr hl⟩

theorem throughout_iff_eachStep {E : ε → Prop} (hE:∀event∈events,E event)
 (hst:∀s event,E event → P s → (P (step s event) ↔ C s event)) (h:P s) :
 Throughout step P s events ↔ EachStep step C s events := by
 rw [throughout_iff_eachStep_keeps,and_iff_right h]
 exact eachStep_iff hE hst (fun _ _ _ _ hkept=>hkept) h

end

end DhKit.RunConditions
