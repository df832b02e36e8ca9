import Mathlib.Data.List.Infix

/-!
# The session run guard

`withSessionRunGuard` registers a run, awaits `onBusy`, then `fn` and, behind the release, `onIdle`.
Between two awaits nothing else runs.
-/
namespace DhKit.RunGuard

inductive Ending where
 | returns | throws
deriving DecidableEq

/-- A call with the endings of its callbacks, of which two may be absent. -/
structure GuardCall where
 sessionId : String
 metadata : Option String
 onBusy : Option Ending
 fn : Ending
 onIdle : Option Ending

structure RunEntry where
 runId : Nat
 sessionId : String
 metadata : Option String

inductive Outcome where
 | value
 | sessionBusyError (sessionId : String)
 | onBusyError | fnError | onIdleError

/-- What a call waits for. -/
inductive Phase where
 | uncalled | onBusy | fn | onIdle
 | settled (outcome : Outcome)

/-- The `onBusy` or the `fn` of the call is pending. -/
def Phase.held : Phase → Bool
 | .onBusy | .fn => true
 | _ => false

/-- The call has registered its run and not released it. One whose `onBusy` fails never does. -/
def Phase.registered : Phase → Bool
 | .onBusy | .fn | .settled .onBusyError => true
 | _ => false

structure GuardState where
 runRegistry : String → Option RunEntry
 phase : Nat → Phase

def GuardState.initial : GuardState := ⟨fun _ => none,fun _ => .uncalled⟩

section
variable (calls : Nat → GuardCall) (s : GuardState) (i : Nat)

def GuardState.goes (phase : Phase) : GuardState :=
 { s with phase := Function.update s.phase i phase }

def markBusy : Option GuardState :=
 let call := calls i
 let entry := ⟨i,call.sessionId,call.metadata⟩
 if (s.runRegistry call.sessionId).isSome then none
 else some { s with runRegistry := Function.update s.runRegistry call.sessionId (some entry) }

def markIdle : GuardState :=
 { s with runRegistry := Function.update s.runRegistry (calls i).sessionId none }

def fnOutcome : Outcome :=
 match (calls i).fn with
 | .returns => .value
 | .throws => .fnError

/-- The call `i` runs on from where it waits to its next await or its end. -/
def withSessionRunGuard : GuardState :=
 let call := calls i
 match s.phase i with
 | .uncalled =>
  match markBusy calls s i with
  | none => s.goes i (.settled (.sessionBusyError call.sessionId))
  | some busy => busy.goes i (if call.onBusy.isSome then .onBusy else .fn)
 | .onBusy => s.goes i (if call.onBusy = some .throws then .settled .onBusyError else .fn)
 | .fn => (markIdle calls s i).goes i
  (if call.onIdle.isSome then .onIdle else .settled (fnOutcome calls i))
 | .onIdle => s.goes i
  (.settled (if call.onIdle = some .throws then .onIdleError else fnOutcome calls i))
 | .settled _ => s

def run (schedule : List Nat) : GuardState :=
 schedule.foldl (withSessionRunGuard calls) .initial

def Holds (sessionId : String) : Prop := (calls i).sessionId = sessionId ∧ (s.phase i).held

def Registered (sessionId : String) : Prop :=
 (calls i).sessionId = sessionId ∧ (s.phase i).registered

def Outstanding : Prop := s.phase i ∈ [Phase.onBusy,.fn,.onIdle]

end

/-- What the guard is for, in a state that a schedule has reached. -/
structure Guards (calls : Nat → GuardCall) (sessionId : String) (s : GuardState) : Prop where
 exclusive : ∀ i j,(calls i).sessionId = sessionId → (calls j).sessionId = sessionId →
  s.phase i = .fn → s.phase j = .fn → i = j
 refuses : ∀ i j,Holds calls s j sessionId → (calls i).sessionId = sessionId →
  s.phase i = .uncalled →
   withSessionRunGuard calls s i = s.goes i (.settled (.sessionBusyError sessionId))
 releases : (∀ i,(calls i).sessionId = sessionId → ¬ Outstanding s i) →
  s.runRegistry sessionId = none ∧ ∀ i,(calls i).sessionId = sessionId → s.phase i = .uncalled →
   Holds calls (withSessionRunGuard calls s i) i sessionId

section
variable {calls : Nat → GuardCall} {sessionId : String} {s : GuardState} {i j : Nat} {phase : Phase}

@[simp] theorem goes_phase : (s.goes i phase).phase j=if j=i then phase else s.phase j := by
 simp [GuardState.goes,Function.update_apply]

@[simp] theorem goes_runRegistry : (s.goes i phase).runRegistry=s.runRegistry := rfl

/-- The registered run is that of the one call that has not released the session. -/
def Balanced (calls : Nat → GuardCall) (sessionId : String) (s : GuardState) : Prop :=
 ∀ i,Registered calls s i sessionId ↔ (s.runRegistry sessionId).map RunEntry.runId = some i

/-- No call for the session has failed in its `onBusy`. -/
def Unfailed (calls : Nat → GuardCall) (sessionId : String) (s : GuardState) : Prop :=
 ∀ i,(calls i).sessionId = sessionId → s.phase i≠.settled .onBusyError

theorem run_induction {P : GuardState → Prop} (h:P .initial)
 (hs:∀s i,P s → P (withSessionRunGuard calls s i)) (schedule : List Nat) :
 P (run calls schedule) := by
 unfold run
 generalize GuardState.initial=s at h ⊢
 induction schedule generalizing s with
 | nil => exact h
 | cons i schedule ih => exact ih _ (hs s i h)

theorem Unfailed.goes (h:Unfailed calls sessionId s) {next : GuardState}
 (hs:next.phase=s.phase) (hne:(calls i).sessionId=sessionId → phase≠.settled .onBusyError) :
 Unfailed calls sessionId (next.goes i phase) := by
 intro j hj
 rw [goes_phase]
 split_ifs with hji
 · exact hne (hji ▸ hj)
 · rw [hs]
   exact h j hj

theorem Unfailed.step (h:Unfailed calls sessionId s)
 (hb:∀i,(calls i).sessionId=sessionId → (calls i).onBusy≠some .throws) (i : Nat) :
 Unfailed calls sessionId (withSessionRunGuard calls s i) := by
 have hfn:Phase.settled (fnOutcome calls i)≠.settled .onBusyError:=by
  unfold fnOutcome
  split <;> simp
 unfold withSessionRunGuard
 split
 · split
   · exact h.goes rfl (by simp)
   · next hma =>
     unfold markBusy at hma
     dsimp only at hma
     split_ifs at hma
     cases hma
     exact h.goes rfl fun _=>by split_ifs <;> simp
 · exact h.goes rfl fun hse=>by simp [hb i hse]
 · refine h.goes rfl fun _=>?_
   split_ifs
   · simp
   · exact hfn
 · refine h.goes rfl fun _=>?_
   split_ifs
   · simp
   · exact hfn
 · exact h

namespace Balanced

theorem goes (h:Balanced calls sessionId s)
 (hh:(calls i).sessionId=sessionId → phase.registered=(s.phase i).registered) :
 Balanced calls sessionId (s.goes i phase) := by
 intro j
 rw [goes_runRegistry,←h j]
 unfold Registered
 by_cases hji : j=i
 · subst hji
   simpa using hh
 · simp [hji]

/-- A call for another session changes nothing. -/
theorem elsewhere (h:Balanced calls sessionId s) {entry : Option RunEntry}
 (hse:(calls i).sessionId≠sessionId) : Balanced calls sessionId
  (GuardState.goes ⟨Function.update s.runRegistry (calls i).sessionId entry,s.phase⟩ i phase) := by
 refine goes (fun j=>?_) fun heq=>absurd heq hse
 have hen:=Function.update_of_ne (Ne.symm hse) entry s.runRegistry
 exact (h j).trans (by simp [hen])

theorem take (h:Balanced calls sessionId s) {busy : GuardState}
 (hb:markBusy calls s i=some busy) (hh:phase.registered) :
 Balanced calls sessionId (busy.goes i phase) := by
 unfold markBusy at hb
 dsimp only at hb
 split_ifs at hb with hf
 cases hb
 by_cases hse : (calls i).sessionId=sessionId
 · intro j
   have hj:=h j
   subst hse
   unfold Registered at hj ⊢
   by_cases hji : j=i
   · simp [hji,hh]
   · simpa [hji,Ne.symm hji,Option.not_isSome_iff_eq_none.mp hf] using hj
 · exact h.elsewhere hse

theorem release (h:Balanced calls sessionId s) (hh:(s.phase i).registered)
 (hhe:phase.registered=false) : Balanced calls sessionId ((markIdle calls s i).goes i phase) := by
 unfold markIdle
 by_cases hse : (calls i).sessionId=sessionId
 · intro j
   have hi:=(h i).mp ⟨hse,hh⟩
   have hj:=h j
   subst hse
   unfold Registered at hj ⊢
   by_cases hji : j=i
   · simp [hji,hhe]
   · rw [hi] at hj
     simpa [hji,Ne.symm hji] using hj
 · exact h.elsewhere hse

theorem step (h:Balanced calls sessionId s) (i : Nat) :
 Balanced calls sessionId (withSessionRunGuard calls s i) := by
 have hfn:(Phase.settled (fnOutcome calls i)).registered=false:=by
  unfold fnOutcome
  split <;> rfl
 unfold withSessionRunGuard
 split
 · next hp =>
   split
   · exact h.goes fun _=>by simp [hp,Phase.registered]
   · next hma => exact h.take hma (by split_ifs <;> rfl)
 · next hp => exact h.goes fun _=>by rw [hp]; split_ifs <;> rfl
 · next hp =>
   refine h.release (by simp [hp,Phase.registered]) ?_
   split_ifs
   · rfl
   · exact hfn
 · next hp =>
   refine h.goes fun _=>?_
   rw [hp]
   split_ifs
   · rfl
   · exact hfn
 · exact h

theorem guards (h:Balanced calls sessionId s) (hun:Unfailed calls sessionId s) :
 Guards calls sessionId s where
 exclusive i j hi hj hfn hfn' := by
  have hi:=(h i).mp ⟨hi,by simp [hfn,Phase.registered]⟩
  have hj:=(h j).mp ⟨hj,by simp [hfn',Phase.registered]⟩
  simpa [hi] using hj
 refuses i j hj hi hp := by
  subst hi
  have hb:(s.runRegistry (calls i).sessionId).isSome:=by
   have hre:(s.phase j).registered:=by
    have hh:=hj.2
    revert hh
    cases s.phase j <;> simp [Phase.held,Phase.registered]
   rw [←Option.isSome_map,(h j).mp ⟨hj.1,hre⟩]
   rfl
  simp [withSessionRunGuard,hp,markBusy,hb]
 releases hnone := by
  have hf:s.runRegistry sessionId=none:=by
   cases hen : s.runRegistry sessionId with
   | none => rfl
   | some entry =>
    obtain ⟨hse,hh⟩:=(h entry.runId).mpr (by rw [hen]; rfl)
    refine absurd ?_ (hnone entry.runId hse)
    have hne:=hun entry.runId hse
    unfold Outstanding
    unfold Phase.registered at hh
    split at hh <;> simp_all
  refine ⟨hf,fun i hi hp=>⟨hi,?_⟩⟩
  subst hi
  simp [withSessionRunGuard,hp,markBusy,hf]
  split_ifs <;> rfl

end Balanced

theorem balanced_initial : Balanced calls sessionId .initial := by
 intro i
 simp [Registered,GuardState.initial,Phase.registered]

/-- After the failure of its `onBusy` a call is over and its session registered. -/
theorem not_guards_of_throws (hth:(calls i).onBusy=some .throws) :
 ¬Guards calls (calls i).sessionId (run calls [i,i]) := by
 have hp:∀j,(run calls [i,i]).phase j =
  if j=i then .settled .onBusyError else .uncalled := by
  intro j
  split_ifs with hji
  · simp [run,withSessionRunGuard,GuardState.initial,markBusy,hth,hji]
  · simp [run,withSessionRunGuard,GuardState.initial,markBusy,hth,hji]
 have hb:(run calls [i,i]).runRegistry (calls i).sessionId≠none:=by
  simp [run,withSessionRunGuard,GuardState.initial,markBusy,hth]
 intro h
 refine hb (h.releases fun j _=>?_).1
 rw [Outstanding,hp]
 split_ifs <;> simp

theorem guards_iff (calls : Nat → GuardCall) (sessionId : String) :
 (∀ schedule,Guards calls sessionId (run calls schedule)) ↔
  ∀ i,(calls i).sessionId = sessionId → (calls i).onBusy≠some .throws := by
 constructor
 · rintro h i rfl hth
   exact not_guards_of_throws hth (h [i,i])
 intro hb schedule
 have hba:=run_induction (P:=Balanced calls sessionId) balanced_initial
  (fun s i h=>h.step i) schedule
 exact hba.guards (run_induction nofun (fun s i h=>h.step hb i) schedule)

theorem failed_onBusy_not_guards :
 ¬ Guards (fun _ => ⟨"s",none,some .throws,.returns,none⟩) "s"
  (run (fun _ => ⟨"s",none,some .throws,.returns,none⟩) [0,0]) :=
 not_guards_of_throws rfl

/-- In every schedule and whatever the callbacks do, the calls that have registered a run for a
session and not released it are the one whose run is registered. -/
theorem one_holder (calls : Nat → GuardCall) (schedule : List Nat) (sessionId : String) :
 (∀ i,Registered calls (run calls schedule) i sessionId ↔
  ((run calls schedule).runRegistry sessionId).map RunEntry.runId = some i) ∧
 ∀ i j,Registered calls (run calls schedule) i sessionId →
  Registered calls (run calls schedule) j sessionId → i = j := by
 have hb:Balanced calls sessionId (run calls schedule):=
  run_induction balanced_initial (fun s i h=>h.step i) schedule
 refine ⟨hb,fun i j hi hj=>?_⟩
 have heq:=((hb i).mp hi).symm.trans ((hb j).mp hj)
 exact Option.some.inj heq

end
end DhKit.RunGuard
