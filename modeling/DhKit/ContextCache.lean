import DhKit.ContextPlanner
import DhKit.RunConditions

/-!
# The cache of reports

The name of a cache file leaves out the mode, the semantic mode and the scan options of a call, and
the fingerprint leaves out the contents of files.
-/
namespace DhKit.Context
open RunConditions

section
variable {ω : Type} (env : Surroundings ω) (runRetrieval : RetrievalRequest → ω → Retrieval)

def answer (s : ContextState ω) (input : ContextInspectInput) : Except String ContextReport :=
 (inspectContext env runRetrieval s input).2.map Prod.snd

def Transparent (s : ContextState ω) : ContextEvent ω → Prop
 | .edit _ => True
 | .inspect input => answer env runRetrieval s input =
  answer env runRetrieval { s with rankings := fun _ => none } input

structure Filler (ω : Type) where
 request : RetrievalRequest
 budgetMode : BudgetMode
 workspace : ω

structure Filling (ω : Type) where
 workspace : ω
 fillers : String → Option (Filler ω)

def Filling.file (f : Filling ω) (input : ContextInspectInput) : String :=
 cachePath env (env.computeWorkspaceFingerprint f.workspace) input.request.query
  (input.budgetMode.getD .normal)

def Filling.step (f : Filling ω) : ContextEvent ω → Filling ω
 | .edit workspace => { f with workspace }
 | .inspect input =>
  if input.request.query ≠ "" ∧ f.fillers (f.file env input) = none ∧
   env.accepts (f.file env input) then
   { workspace := f.workspace
     fillers := Function.update f.fillers (f.file env input)
      (some ⟨input.request,input.budgetMode.getD .normal,f.workspace⟩) }
  else f

/-- A call that finds its cache file has the mode, the semantic mode, the scan options and the
workspace of the call that filled it. -/
def SameArguments (f : Filling ω) : ContextEvent ω → Prop
 | .edit _ => True
 | .inspect input => input.request.query ≠ "" →
  ∀ filler,f.fillers (f.file env input) = some filler →
  filler.request.mode = input.request.mode ∧
  filler.request.semanticMode = input.request.semanticMode ∧
  filler.request.scanOptions = input.request.scanOptions ∧
  filler.workspace = f.workspace

def Filler.report (filler : Filler ω) : ContextReport :=
 planContext env filler.workspace filler.request.query filler.budgetMode
  (runRetrieval filler.request filler.workspace)

def Filling.state (f : Filling ω) : ContextState ω where
 workspace := f.workspace
 rankings := fun file => (f.fillers file).map (Filler.report env runRetrieval)

end

section
variable {ω : Type} {env : Surroundings ω} {runRetrieval : RetrievalRequest → ω → Retrieval}
 {f : Filling ω}

theorem state_update (f : Filling ω) (file : String) (filler : Filler ω) :
 Filling.state env runRetrieval ⟨f.workspace,Function.update f.fillers file (some filler)⟩ =
  ⟨f.workspace,Function.update (f.state env runRetrieval).rankings file
   (some (filler.report env runRetrieval))⟩ := by
 unfold Filling.state
 congr 1
 funext other
 by_cases h : other=file
 · simp [h]
 · simp [h]

/-- What a call in the state of a filling returns, and what it leaves. -/
inductive Answered (env : Surroundings ω) (runRetrieval : RetrievalRequest → ω → Retrieval)
 (f : Filling ω) (input : ContextInspectInput) :
 ContextState ω × Except String (CacheStatus × ContextReport) → Prop where
 | refused (hquery : input.request.query = "") :
  Answered env runRetrieval f input
   (f.state env runRetrieval,.error "context query is required.")
 | hit (hquery : input.request.query ≠ "") (filler : Filler ω)
  (hfiller : f.fillers (f.file env input) = some filler) :
  Answered env runRetrieval f input
   (f.state env runRetrieval,.ok (.hit,filler.report env runRetrieval))
 | miss (hquery : input.request.query ≠ "") (hnone : f.fillers (f.file env input) = none)
  (haccepts : env.accepts (f.file env input) = true) :
  Answered env runRetrieval f input
   ((f.step env (.inspect input)).state env runRetrieval,
    .ok (.miss,Filler.report env runRetrieval
     ⟨input.request,input.budgetMode.getD .normal,f.workspace⟩))
 | tooLong (hquery : input.request.query ≠ "") (hnone : f.fillers (f.file env input) = none)
  (haccepts : env.accepts (f.file env input) = false) :
  Answered env runRetrieval f input
   (f.state env runRetrieval,.error "ENAMETOOLONG: name too long")

theorem inspectContext_answered (f : Filling ω) (input : ContextInspectInput) :
 Answered env runRetrieval f input
  (inspectContext env runRetrieval (f.state env runRetrieval) input) := by
 unfold inspectContext
 simp only
 by_cases hquery : input.request.query = ""
 · rw [if_pos hquery]
   exact .refused hquery
 rw [if_neg hquery]
 have hf:cachePath env (env.computeWorkspaceFingerprint (f.state env runRetrieval).workspace)
  input.request.query (input.budgetMode.getD .normal)=f.file env input := rfl
 rw [hf]
 cases hfiller : f.fillers (f.file env input) with
 | some filler =>
  have hca:(f.state env runRetrieval).rankings (f.file env input) =
   some (filler.report env runRetrieval) := by
   unfold Filling.state
   simp [hfiller]
  simp only [hca]
  exact .hit hquery filler hfiller
 | none =>
  have hca:(f.state env runRetrieval).rankings (f.file env input)=none:=by
   unfold Filling.state
   simp [hfiller]
  simp only [hca]
  cases haccepts : env.accepts (f.file env input) with
  | false => exact .tooLong hquery hfiller haccepts
  | true =>
   have hmi:=@Answered.miss ω env runRetrieval f input hquery hfiller haccepts
   rw [Filling.step,if_pos ⟨hquery,hfiller,haccepts⟩,state_update] at hmi
   exact hmi

theorem step_state (f : Filling ω) (event : ContextEvent ω) :
 (f.state env runRetrieval).step env runRetrieval event =
  (f.step env event).state env runRetrieval := by
 cases event with
 | edit workspace => rfl
 | inspect input =>
  have han:=@inspectContext_answered ω env runRetrieval f input
  change (inspectContext env runRetrieval (f.state env runRetrieval) input).1=_
  generalize inspectContext env runRetrieval (f.state env runRetrieval) input=answered
   at han ⊢
  cases han with
  | refused hquery =>
   rw [Filling.step,if_neg]
   rintro ⟨hne,-⟩
   exact hne hquery
  | hit hquery filler hfiller =>
   rw [Filling.step,if_neg]
   rintro ⟨-,hnone,-⟩
   rw [hfiller] at hnone
   cases hnone
  | miss => rfl
  | tooLong hquery hnone haccepts =>
   rw [Filling.step,if_neg]
   rintro ⟨-,-,hf⟩
   rw [haccepts] at hf
   cases hf

theorem run_state (f : Filling ω) (events : List (ContextEvent ω)) :
 events.foldl (ContextState.step env runRetrieval) (f.state env runRetrieval) =
  (events.foldl (Filling.step env) f).state env runRetrieval := by
 induction events generalizing f with
 | nil => rfl
 | cons event events ih => rw [List.foldl_cons,List.foldl_cons,step_state,ih]

def Filling.Sound (env : Surroundings ω) (f : Filling ω) : Prop :=
 ∀ file filler,f.fillers file = some filler → env.accepts file = true ∧
  file = cachePath env (env.computeWorkspaceFingerprint filler.workspace) filler.request.query
   filler.budgetMode

theorem Filling.Sound.step (h:f.Sound env) (event : ContextEvent ω) :
 (f.step env event).Sound env := by
 cases event with
 | edit workspace => exact h
 | inspect input =>
  rw [Filling.step]
  split
  · rename_i hf
    intro file filler hfiller
    by_cases hfi : file=f.file env input
    · subst hfi
      cases (Function.update_self (β := fun _=>Option (Filler ω)) _ _ f.fillers).symm.trans
       hfiller
      exact ⟨hf.2.2,rfl⟩
    · exact h file filler ((Function.update_of_ne hfi _ _).symm.trans hfiller)
  · exact h

theorem Filling.Sound.run (h:f.Sound env) (events : List (ContextEvent ω)) :
 (events.foldl (Filling.step env) f).Sound env := by
 induction events generalizing f with
 | nil => exact h
 | cons event events ih => exact ih (h.step event)

theorem cachePath_inj {fingerprint query query' : String} {budgetMode budgetMode' : BudgetMode}
 (h:cachePath env fingerprint query budgetMode =
  cachePath env fingerprint query' budgetMode') :
 budgetMode=budgetMode' ∧ query=query' := by
 have hk:=congrArg String.toList (env.base64url_injective h)
 cases budgetMode <;> cases budgetMode' <;>
  simp [BudgetMode.text,String.toList_inj] at hk ⊢ <;> exact hk

theorem transparent_iff (h:f.Sound env) (input : ContextInspectInput) :
 Transparent env runRetrieval (f.state env runRetrieval) (.inspect input) ↔
  (input.request.query ≠ "" → ∀filler,f.fillers (f.file env input)=some filler →
   filler.report env runRetrieval=Filler.report env runRetrieval
    ⟨input.request,input.budgetMode.getD .normal,f.workspace⟩) := by
 have hfi:Filling.file env ⟨f.workspace,fun _=>none⟩ input=f.file env input:=rfl
 have hca:=@inspectContext_answered ω env runRetrieval f input
 have hf:=@inspectContext_answered ω env runRetrieval ⟨f.workspace,fun _=>none⟩ input
 change (inspectContext env runRetrieval (f.state env runRetrieval) input).2.map Prod.snd =
  (inspectContext env runRetrieval (Filling.state env runRetrieval
   ⟨f.workspace,fun _=>none⟩) input).2.map Prod.snd ↔ _
 generalize inspectContext env runRetrieval (f.state env runRetrieval) input=cached
  at hca ⊢
 generalize inspectContext env runRetrieval
  (Filling.state env runRetrieval ⟨f.workspace,fun _=>none⟩) input=fresh at hf ⊢
 cases hca with
 | refused hquery =>
  cases hf with
  | refused =>
   simp only [true_iff]
   exact fun hne=>absurd hquery hne
  | hit hne | miss hne | tooLong hne => exact absurd hquery hne
 | hit hquery filler hfiller =>
  cases hf with
  | refused hem => exact absurd hem hquery
  | hit _ other ho => cases ho
  | miss =>
   simp only [Except.map,Except.ok.injEq]
   constructor
   · intro hsa _ other ho
     cases hfiller.symm.trans ho
     exact hsa
   · intro hsa
     exact hsa hquery filler hfiller
  | tooLong _ _ haccepts =>
   rw [hfi,(h _ filler hfiller).1] at haccepts
   cases haccepts
 | miss hquery hnone haccepts =>
  have hv:∀filler,f.fillers (f.file env input)≠some filler:=by simp [hnone]
  cases hf with
  | refused hem => exact absurd hem hquery
  | hit _ other ho => cases ho
  | miss =>
   simp only [true_iff]
   exact fun _ filler hfiller=>absurd hfiller (hv filler)
  | tooLong _ _ hr =>
   rw [hfi,haccepts] at hr
   cases hr
 | tooLong hquery hnone haccepts =>
  have hv:∀filler,f.fillers (f.file env input)≠some filler:=by simp [hnone]
  cases hf with
  | refused hem => exact absurd hem hquery
  | hit _ other ho => cases ho
  | miss _ _ hfit =>
   rw [hfi,haccepts] at hfit
   cases hfit
  | tooLong =>
   simp only [true_iff]
   exact fun _ filler hfiller=>absurd hfiller (hv filler)

end

section
variable {ω : Type} {env : Surroundings ω} {event : ContextEvent ω}

theorem transparent_of_sameArguments {runRetrieval : RetrievalRequest → ω → Retrieval}
 {f : Filling ω} (h:f.Sound env)
 (hsam:SameArguments env f event) :
 Transparent env runRetrieval (f.state env runRetrieval) event := by
 cases event with
 | edit workspace => trivial
 | inspect input =>
  rw [transparent_iff h]
  intro hquery filler hfiller
  obtain ⟨hmo,hse,hsc,hwo⟩:=hsam hquery filler hfiller
  have hf:=(h _ filler hfiller).2
  rw [hwo] at hf
  obtain ⟨hb,hsa⟩:=cachePath_inj hf
  obtain ⟨⟨query,mode,semanticMode,scanOptions⟩,budgetMode,workspace⟩:=filler
  simp only at hmo hse hsc hwo hb hsa
  subst hmo hse hsc hwo
  rw [←hb,←hsa]

def blankRetrieval : Retrieval := ⟨[],false,[],true,"",""⟩

def reducedRetrieval : Retrieval := { blankRetrieval with reducedCoverage := true }

theorem planContext_blank_ne_reduced {workspace workspace' : ω} {query query' : String}
 {budgetMode budgetMode' : BudgetMode} :
 planContext env workspace query budgetMode blankRetrieval ≠
  planContext env workspace' query' budgetMode' reducedRetrieval := by
 intro heq
 have hco:=congrArg (fun report : ContextReport=>(report.warnings.head?.map
  ContextCoverageWarning.code)) heq
 cases hco

open Classical in
noncomputable def telling (filler : Filler ω) (request : RetrievalRequest) (workspace : ω) :
 Retrieval :=
 if request = filler.request ∧ workspace = filler.workspace then blankRetrieval
 else reducedRetrieval

theorem sameArguments_of_transparent {f : Filling ω} (h:f.Sound env)
 (hal:∀runRetrieval,Transparent env runRetrieval (f.state env runRetrieval) event) :
 SameArguments env f event := by
 cases event with
 | edit workspace => trivial
 | inspect input =>
  intro hquery filler hfiller
  have hr:=(transparent_iff h input).mp (hal (telling filler)) hquery filler hfiller
  have hb:telling filler filler.request filler.workspace=blankRetrieval:=
   if_pos ⟨rfl,rfl⟩
  by_cases hsa : input.request=filler.request ∧ f.workspace=filler.workspace
  · rw [hsa.1,hsa.2]
    exact ⟨rfl,rfl,rfl,rfl⟩
  have hre:telling filler input.request f.workspace=reducedRetrieval:=if_neg hsa
  unfold Filler.report at hr
  simp only [hb,hre] at hr
  exact absurd hr planContext_blank_ne_reduced

end

/-- The cached answers of a run are right for every retrieval exactly when every call that finds
its cache file has the arguments and the workspace of the call that filled it. -/
theorem cache_transparent_iff {ω : Type} (env : Surroundings ω) (workspace : ω)
 (events : List (ContextEvent ω)) :
 (∀ runRetrieval,EachStep (ContextState.step env runRetrieval) (Transparent env runRetrieval)
  ⟨workspace,fun _ => none⟩ events) ↔
  EachStep (Filling.step env) (SameArguments env) ⟨workspace,fun _ => none⟩ events := by
 have hso:Filling.Sound env ⟨workspace,fun _=>none⟩:=by
  intro file filler hfiller
  cases hfiller
 have hr:∀runRetrieval (before : List (ContextEvent ω)),
  before.foldl (ContextState.step env runRetrieval) ⟨workspace,fun _=>none⟩ =
   (before.foldl (Filling.step env) ⟨workspace,fun _=>none⟩).state env runRetrieval :=
  fun runRetrieval before=>run_state ⟨workspace,fun _=>none⟩ before
 constructor
 · intro hal before event after hev
   apply sameArguments_of_transparent (hso.run before)
   intro runRetrieval
   rw [←hr]
   exact hal runRetrieval before event after hev
 · intro hsa runRetrieval before event after hev
   rw [hr]
   exact transparent_of_sameArguments (hso.run before) (hsa before event after hev)

def bareSurroundings : Surroundings Unit where
 tree _ := []
 existsSync _ _ := false
 digest text := text
 base64url text := text
 base64url_injective _ _ h := h
 accepts _ := true
 repoRoot := "/repo"
 cwd := []

/-- A query in two modes, with a retrieval that depends on the mode: the second call returns the
report of the first. -/
theorem mode_not_in_cache_key :
 let runRetrieval := fun (request : RetrievalRequest) (_ : Unit) =>
  if request.mode = .ask then blankRetrieval else reducedRetrieval
 let s := ContextState.step bareSurroundings runRetrieval ⟨(),fun _ => none⟩
  (.inspect { query := "where is it" })
 let codes := fun s => (answer bareSurroundings runRetrieval s
  { query := "where is it",mode := some .trace }).toOption.map fun report =>
    report.warnings.map ContextCoverageWarning.code
 codes s = some [.lspUnconfigured,.noEvidence] ∧
  codes { s with rankings := fun _ => none } =
   some [.reducedScanCoverage,.lspUnconfigured,.noEvidence] := by
 decide +kernel

end DhKit.Context
