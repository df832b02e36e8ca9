import DhKit.BridgeCorrelation
import DhKit.RunConditions

/-!
# The engine processes of a client

A call starts the engine when the client is not initialized, whatever other calls have started
before, and the client only holds on to the last child.
-/
namespace DhKit.Bridge
open JsonRpc StreamFrames RunConditions List

def ChildProcess.live (child : ChildProcess) : Bool := child.running && !child.killed

structure SingleChild (c : Client) : Prop where
 one : c.children.countP ChildProcess.live ≤ 1
 none : c.closed = true → ∀ child ∈ c.children,child.live = false

/-- A call that starts an engine finds the client open and every earlier engine gone; `close` finds
no engine alive but the one it kills. -/
def Tidy (c : Client) : ClientEvent → Prop
 | .call _ _ .started =>
  c.initialized = true ∨ c.closed = false ∧ ∀ child ∈ c.children,child.live = false
 | .close =>
  c.closed = true ∨ ∀ n child,c.children[n]? = some child → child.live = true → c.child = some n
 | _ => True

section
variable {children : List ChildProcess} {update : ChildProcess → ChildProcess} {n : Nat}

section
variable (hupdate : ∀ child,(update child).live = true → child.live = true)
include hupdate

theorem live_modify (h:∀child∈children,child.live=false) :
 ∀child∈children.modify n update,child.live=false := by
 induction children generalizing n with
 | nil =>
  intro child hch
  cases n <;> cases hch
 | cons first children ih =>
  have hf:=h first mem_cons_self
  have hr:∀child∈children,child.live=false:=
   fun child hch=>h child (mem_cons_of_mem _ hch)
  cases n with
  | zero =>
   intro child hch
   rcases mem_cons.mp hch with rfl|hch
   · exact Bool.eq_false_iff.mpr fun hl=>by
      rw [hupdate first hl] at hf
      cases hf
   · exact hr child hch
  | succ n =>
   intro child hch
   rcases mem_cons.mp hch with rfl|hch
   · exact hf
   · exact ih hr child hch

theorem countP_modify_le :
 (children.modify n update).countP ChildProcess.live ≤ children.countP ChildProcess.live := by
 induction children generalizing n with
 | nil => cases n <;> exact Nat.le_refl _
 | cons first children ih =>
  cases n with
  | zero =>
   rw [modify_zero_cons,countP_cons,countP_cons]
   have := hupdate first
   split_ifs with hn ho
   · exact Nat.le_refl _
   · exact absurd (this hn) ho
   · omega
   · exact Nat.le_refl _
  | succ n =>
   rw [modify_succ_cons,countP_cons,countP_cons]
   have := @ih n
   omega

end

theorem live_kill (h:∀i child,children[i]?=some child → child.live=true → i=n) :
 ∀child∈children.modify n fun child=>{ child with killed := true },
  child.live=false := by
 intro child hch
 obtain ⟨i,hi⟩:=mem_iff_getElem?.mp hch
 rw [getElem?_modify] at hi
 obtain ⟨before,hb,rfl⟩:=Option.map_eq_some_iff.mp hi
 split_ifs with heq
 · simp [ChildProcess.live]
 · exact Bool.eq_false_iff.mpr fun hl=>heq (h i before hb hl).symm

end

section
variable {env : ClientEnv} {c : Client}

theorem SingleChild.of_same {c' : Client} (h:SingleChild c) (hsa:SameProcesses c c') :
 SingleChild c' :=
 ⟨by rw [hsa.children]; exact h.one,by rw [hsa.children,hsa.closed]; exact h.none⟩

theorem SingleChild.childExit (h:SingleChild c) (n : Nat) (text : String) :
 SingleChild (c.onChildExit n text) := by
 have hgo:∀child : ChildProcess,
  { child with running := false }.live=true → child.live=true :=
  fun child hl=>by cases hl
 have hexi:SingleChild (c.setChild n fun child=>{ child with running:=false }) :=
  ⟨Nat.le_trans (countP_modify_le hgo) h.one,fun hcl=>live_modify hgo (h.none hcl)⟩
 unfold Client.onChildExit
 dsimp only
 split
 · exact hexi
 · exact hexi.of_same (SameProcesses.failAllPending _ _)

theorem singleChild_started :
 SingleChild (c.withChild .started) ↔
  c.closed=false ∧ ∀child∈c.children,child.live=false := by
 have hchi:(c.withChild .started).children=c.children++[⟨true,false⟩]:=rfl
 have hco:(c.withChild .started).children.countP ChildProcess.live =
  c.children.countP ChildProcess.live+1 := by
  rw [hchi,countP_append]
  rfl
 constructor
 · intro hn
   refine ⟨Bool.eq_false_iff.mpr fun hcl=>?_,?_⟩
   · have := hn.none hcl ⟨true,false⟩ (by simp [hchi])
     cases this
   · have hon:=hn.one
     have hz:c.children.countP ChildProcess.live=0:=by omega
     intro child hch
     exact Bool.eq_false_iff.mpr (countP_eq_zero.mp hz child hch)
 · rintro ⟨ho,hgo⟩
   have hz:c.children.countP ChildProcess.live=0:=
    countP_eq_zero.mpr fun child hch=>Bool.eq_false_iff.mp (hgo child hch)
   exact ⟨by omega,fun hcl=>absurd hcl (by
    change ¬c.closed=true
    rw [ho]
    exact Bool.false_ne_true)⟩

theorem singleChild_unstarted (h:SingleChild c) : SingleChild (c.withChild .unstarted) := by
 have hchi:(c.withChild .unstarted).children=c.children++[⟨false,false⟩]:=rfl
 refine ⟨?_,fun hcl child hch=>?_⟩
 · rw [hchi,countP_append]
   exact h.one
 · rw [hchi] at hch
   rcases mem_append.mp hch with hch|hch
   · exact h.none hcl child hch
   · rw [mem_singleton.mp hch]
     rfl

theorem singleChild_call_iff (h:SingleChild c) (call : PublicCall) (repoRoot : String)
 (spawn : Client.SpawnOutcome) :
 SingleChild (c.beginCall env call repoRoot spawn) ↔ Tidy c (.call call repoRoot spawn) := by
 have hif:SingleChild (c.beginCall env call repoRoot spawn) ↔
  SingleChild (c.ensureInitialized env repoRoot spawn).1 :=
  ⟨fun h=>h.of_same ⟨rfl,rfl,rfl⟩,fun h=>h.of_same ⟨rfl,rfl,rfl⟩⟩
 rw [hif]
 unfold Client.ensureInitialized
 by_cases hi : c.initialized=true
 · rw [if_pos hi]
   cases spawn with
   | started => exact ⟨fun _=>.inl hi,fun _=>h⟩
   | unstarted | threw => exact ⟨fun _=>trivial,fun _=>h⟩
 rw [if_neg hi]
 have hask:=(@Moves.nextRequest env (c.withChild spawn) "dh.initialize"
  (some (c.initializeParams env repoRoot)) .startup c.startupTimeoutMs).processes
 have hb:SameProcesses _ (c.withChild spawn):=
  ⟨hask.closed.symm,hask.child.symm,hask.children.symm⟩
 cases spawn with
 | threw => exact ⟨fun _=>trivial,fun _=>h⟩
 | unstarted => exact ⟨fun _=>trivial,fun _=>(singleChild_unstarted h).of_same hask⟩
 | started =>
  exact ⟨fun hn=>.inr (singleChild_started.mp (hn.of_same hb)),
   fun hti=>(singleChild_started.mpr (hti.resolve_left hi)).of_same hask⟩

theorem singleChild_closed_iff {c' : Client} (hcl:c'.closed=true) :
 SingleChild c' ↔ ∀child∈c'.children,child.live=false := by
 refine ⟨fun h=>h.none hcl,fun hgo=>⟨?_,fun _=>hgo⟩⟩
 have hz:c'.children.countP ChildProcess.live=0:=
  countP_eq_zero.mpr fun child hch=>Bool.eq_false_iff.mp (hgo child hch)
 omega

theorem close_children (ho:c.closed=false) : c.close.children =
 match c.child with
 | none => c.children
 | some n => c.children.modify n fun child=>{ child with killed := true } := by
 have hsa:=SameProcesses.failAllPending
  { c with closed := true,child := none } Client.closeError
 unfold Client.close
 rw [if_neg (by rw [ho]; exact Bool.false_ne_true)]
 cases c.child with
 | none => exact hsa.children
 | some n =>
  change List.modify (Client.failAllPending _ _).children n _=_
  rw [hsa.children]

theorem singleChild_close_iff (h:SingleChild c) : SingleChild c.close ↔ Tidy c .close := by
 by_cases hcl : c.closed=true
 · rw [Client.close,if_pos hcl]
   exact ⟨fun _=>.inl hcl,fun _=>h⟩
 have hop:=Bool.eq_false_iff.mpr hcl
 rw [singleChild_closed_iff (close_closed c),close_children hop]
 unfold Tidy
 rw [or_iff_right hcl]
 cases hch : c.child with
 | none =>
  constructor
  · intro hgo n child hn hl
    rw [hgo child (mem_of_getElem? hn)] at hl
    cases hl
  · intro hh child hme
    obtain ⟨n,hn⟩:=mem_iff_getElem?.mp hme
    exact Bool.eq_false_iff.mpr fun hl=>by cases hh n child hn hl
 | some held =>
  constructor
  · intro hgo n child hn hl
    by_contra ho
    have hkept:(c.children.modify held fun child=>{ child with killed:=true })[n]? =
     some child := by
     rw [getElem?_modify,hn]
     exact congrArg some (if_neg fun heq=>ho (congrArg some heq))
    rw [hgo child (mem_of_getElem? hkept)] at hl
    cases hl
  · intro hh
    exact live_kill fun n child hn hl=>(Option.some.inj (hh n child hn hl)).symm

theorem singleChild_step_iff (h:SingleChild c) (event : ClientEvent) :
 SingleChild (c.step env event) ↔ Tidy c event := by
 cases event with
 | call call repoRoot spawn => exact singleChild_call_iff h call repoRoot spawn
 | resume n => exact ⟨fun _=>trivial,fun _=>h.of_same (Moves.resume c n).processes⟩
 | data chunk => exact ⟨fun _=>trivial,fun _=>h.of_same (Moves.onData c chunk).processes⟩
 | timer id => exact ⟨fun _=>trivial,fun _=>h.of_same (@Moves.onTimer env c id).processes⟩
 | writeError id text =>
  exact ⟨fun _=>trivial,fun _=>h.of_same (@Moves.onWriteError env c id text).processes⟩
 | childError n text =>
  have hsa:SameProcesses c (c.onChildError text):=SameProcesses.failAllPending c _
  exact ⟨fun _=>trivial,fun _=>h.of_same hsa⟩
 | childExit n text => exact ⟨fun _=>trivial,fun _=>h.childExit n text⟩
 | close => exact singleChild_close_iff h

end

/-- In every state of a run there is one engine at most, and none once the client is closed, exactly
when every step is tidy. -/
theorem singleChild_run_iff (env : ClientEnv) (startupTimeoutMs requestTimeoutMs : Nat)
 (events : List ClientEvent) :
 (∀ before after,events = before++after →
  SingleChild ((Client.initial startupTimeoutMs requestTimeoutMs).run env before)) ↔
 ∀ before event after,events = before++event::after →
  Tidy ((Client.initial startupTimeoutMs requestTimeoutMs).run env before) event := by
 have hi:SingleChild (Client.initial startupTimeoutMs requestTimeoutMs):=
  ⟨Nat.zero_le _,fun hcl=>by cases hcl⟩
 exact throughout_iff_eachStep (E := fun _=>True) (fun _ _=>trivial)
  (fun c event _ h=>singleChild_step_iff h event) hi

theorem singleChild_run_iff_one_call : SingleChild
 ((Client.initial 10 10).run deafEnv [.call .getRuntimePing "/" .started,.close]) := by
 apply (singleChild_run_iff deafEnv 10 10 [.call .getRuntimePing "/" .started,.close]).mpr
  ?_ [.call .getRuntimePing "/" .started,.close] [] rfl
 intro before event after heq
 match before with
 | [] =>
  obtain ⟨rfl,-⟩:=List.cons.inj heq
  exact .inr ⟨rfl,fun child hch=>by cases hch⟩
 | [first] =>
  obtain ⟨rfl,hse⟩:=List.cons.inj heq
  obtain ⟨rfl,-⟩:=List.cons.inj hse
  refine .inr fun n child hn _=>?_
  cases n with
  | zero => rfl
  | succ n => cases hn
 | first::second::before =>
  have hl:=congrArg List.length heq
  simp only [length_cons,length_append,length_nil] at hl
  omega

/-- Two calls at once start two engines, and `close` only kills the second. -/
theorem two_calls_two_children :
 let calls := [ClientEvent.call .getRuntimePing "/" .started,
  ClientEvent.call .getRuntimePing "/" .started]
 let called := (Client.initial 10 10).run deafEnv calls
 let closed := (Client.initial 10 10).run deafEnv (calls++[.close])
 called.children.countP ChildProcess.live = 2 ∧ ¬ SingleChild called ∧
  closed.closed = true ∧ closed.children.countP ChildProcess.live = 1 ∧
  ¬ SingleChild closed := by
 intro calls called closed
 have htw:called.children.countP ChildProcess.live=2:=by decide +kernel
 have ho:closed.children.countP ChildProcess.live=1:=by decide +kernel
 have hcl:closed.closed=true:=by decide +kernel
 refine ⟨htw,fun h=>?_,hcl,ho,fun h=>?_⟩
 · have := h.one
   omega
 · have hz:=countP_eq_zero.mpr fun child hch=>
    Bool.eq_false_iff.mp (h.none hcl child hch)
   omega

end DhKit.Bridge
