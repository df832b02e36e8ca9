import DhKit.ToolRunner
import DhKit.Utf8Decoding

/-!
# The output of a shell command

`executeShellTool` decodes every chunk that it gets by itself and puts the texts together.
-/
namespace DhKit.ToolRuns
open FileTools List Utf8Decoding

/-- `toString("utf8")` -/
def utf8Text (bytes : Bytes) : String := String.ofList (decode bytes)

def stdoutChunks : List ChildEvent → List Bytes
 | [] => []
 | .stdout chunk::events => chunk::stdoutChunks events
 | _::events => stdoutChunks events

def stderrChunks : List ChildEvent → List Bytes
 | [] => []
 | .stderr chunk::events => chunk::stderrChunks events
 | _::events => stderrChunks events

def totalBytes (events : List ChildEvent) : Nat :=
 (stdoutChunks events).flatten.length+(stderrChunks events).flatten.length

section
variable {ρ ι ω : Type} {r : ToolRunner ρ ι} {input : ShellInput} {events : List ChildEvent}
 {exitCode : Option Int} {s s' : ShellState} {limit : Nat}

/-- What the state comes to over the chunks of the events. -/
structure Collects (limit : Nat) (events : List ChildEvent) (s s' : ShellState) : Prop where
 seen : s'.bytesSeen = s.bytesSeen+totalBytes events
 returned : s'.bytesReturned = min s'.bytesSeen limit
 texts : s'.bytesSeen ≤ limit →
  s'.stdout.toList = s.stdout.toList++(stdoutChunks events).flatMap decode ∧
  s'.stderr.toList = s.stderr.toList++(stderrChunks events).flatMap decode

theorem append_spec (hs:s.bytesReturned=min s.bytesSeen limit) (chunk : Bytes) :
 (r.append limit s chunk).2.bytesReturned=min (r.append limit s chunk).2.bytesSeen limit ∧
  ((r.append limit s chunk).2.bytesSeen ≤ limit →
   (r.append limit s chunk).1=r.decode chunk) := by
 simp only [ToolRunner.append,length_take]
 constructor
 · omega
 · intro hf
   rw [take_of_length_le (by omega)]

theorem Collects.cons {e : ChildEvent} {s₁ : ShellState} (hl:Collects limit events s₁ s')
 (h:Collects limit [e] s s₁) : Collects limit (e::events) s s' := by
 have hse:=hl.seen
 refine ⟨?_,hl.returned,fun hf=>?_⟩
 · rw [hse,h.seen]
   cases e <;> simp [totalBytes,stdoutChunks,stderrChunks] <;> omega
 · obtain ⟨ho,her⟩:=h.texts (by omega)
   rw [(hl.texts hf).1,(hl.texts hf).2,ho,her]
   cases e <;> simp [stdoutChunks,stderrChunks]

theorem awaitChild_collects (hde:r.decode=utf8Text) (hda:∀e∈events,e.ends=false)
 (hs:s.bytesReturned=min s.bytesSeen (input.maxOutputBytes.getD 64000)) :
 ∃s',Collects (input.maxOutputBytes.getD 64000) events s s' ∧
  (r.awaitChild input s (events++[.close exitCode]) : Ending (ToolResultEnvelope ω)) =
   r.awaitChild input s' [.close exitCode] := by
 induction events generalizing s with
 | nil => exact ⟨s,⟨rfl,hs,by simp [stdoutChunks,stderrChunks]⟩,rfl⟩
 | cons e events ih =>
  obtain ⟨hen,hl⟩:=forall_mem_cons.mp hda
  cases e with
  | stdout chunk =>
   obtain ⟨hr,htext⟩:=@append_spec _ _ r _ _ hs chunk
   obtain ⟨s',hco,hru⟩:=@ih { (r.append _ s chunk).2 with
     stdout := s.stdout++(r.append _ s chunk).1 } hl hr
   refine ⟨s',hco.cons ⟨?_,hr,fun hf=>?_⟩,hru⟩
   · simp [totalBytes,stdoutChunks,stderrChunks,ToolRunner.append]
   · dsimp only
     rw [htext hf,hde]
     simp [utf8Text,stdoutChunks,stderrChunks,ToolRunner.append]
  | stderr chunk =>
   obtain ⟨hr,htext⟩:=@append_spec _ _ r _ _ hs chunk
   obtain ⟨s',hco,hru⟩:=@ih { (r.append _ s chunk).2 with
     stderr := s.stderr++(r.append _ s chunk).1 } hl hr
   refine ⟨s',hco.cons ⟨?_,hr,fun hf=>?_⟩,hru⟩
   · simp [totalBytes,stdoutChunks,stderrChunks,ToolRunner.append]
   · dsimp only
     rw [htext hf,hde]
     simp [utf8Text,stdoutChunks,stderrChunks,ToolRunner.append]
  | timeout =>
   obtain ⟨s',hco,hru⟩:=@ih { s with timedOut := true } hl hs
   exact ⟨s',⟨hco.seen,hco.returned,hco.texts⟩,hru⟩
  | error message => cases hen
  | close exitCode => cases hen

/-- The result has the decoded streams if they fit, and says what is left out if they do not. -/
def OutputFaithful (input : ShellInput) (events : List ChildEvent)
 (result : ToolResultEnvelope ω) : Prop :=
 let limit := input.maxOutputBytes.getD 64000
 (totalBytes events ≤ limit → ∃ exitCode,result.output = some (.shell input.command
  (utf8Text (stdoutChunks events).flatten) (utf8Text (stderrChunks events).flatten) exitCode)) ∧
 (limit < totalBytes events → result.metadata.bytesReturned = some limit ∧
  result.metadata.omittedBytes = some (totalBytes events-limit) ∧
  result.metadata.truncated = true)

theorem outputFaithful_iff (r : ToolRunner ρ ι) (input : ShellInput) (level : ToolPermissionLevel)
 (spawn : ShellInput → Spawned) (events : List ChildEvent) (exitCode : Option Int)
 (hdecode : r.decode = utf8Text)
 (hallowed : (r.evaluateShellPermission input.command level).allowed = true)
 (hcwd : ∀ cwd ∈ input.cwd,∃ resolved,resolveRepoPath r.workingDirectory r.repoRoot cwd =
  .ok resolved)
 (hspawn : spawn input = .child (events++[.close exitCode]))
 (hdata : ∀ e ∈ events,e.ends = false) :
 (∃ result : ToolResultEnvelope ω,r.executeShellTool input level spawn = .resolves result ∧
  OutputFaithful input events result) ↔
  input.maxOutputBytes.getD 64000 < totalBytes events ∨
   (Uncut (stdoutChunks events) ∧ Uncut (stderrChunks events)) := by
 have hru:r.executeShellTool input level spawn =
  (r.awaitChild input {} (events++[.close exitCode]) : Ending (ToolResultEnvelope ω)) := by
  cases hi : input.cwd with
  | none => simp [ToolRunner.executeShellTool,hallowed,hi,hspawn]
  | some cwd =>
   obtain ⟨resolved,hr⟩:=hcwd cwd hi
   simp [ToolRunner.executeShellTool,hallowed,hi,hr,hspawn]
 obtain ⟨s,⟨hse,hre,hte⟩,hen⟩:=
  @awaitChild_collects _ _ ω r input events exitCode {} hdecode hdata (by simp)
 simp only [hru,hen,ToolRunner.awaitChild,Ending.resolves.injEq,exists_eq_left']
 rw [Nat.zero_add] at hse
 rcases Nat.lt_or_ge (input.maxOutputBytes.getD 64000) (totalBytes events) with ho|hf
 · refine iff_of_true ⟨fun hf=>absurd ho hf.not_gt,fun _=>?_⟩ (.inl ho)
   simp only [ShellState.metadata,hre,hse,Nat.min_eq_right ho.le]
   exact ⟨trivial,trivial,decide_eq_true ho⟩
 obtain ⟨hou,her⟩:=hte (hse ▸ hf)
 simp only [OutputFaithful,hf,hf.not_gt,forall_const,false_imp_iff,and_true,false_or,
  Option.some.injEq,ToolOutput.shell.injEq,true_and,exists_and_left,exists_eq',utf8Text,
  ← String.toList_inj,hou,her,String.toList_ofList,←flatMap_decode_iff]
 simp

end

def decodingRunner : ToolRunner ShellInput Unit := { shellRunner with decode := utf8Text }

/-- A euro sign whose last byte comes in a chunk of its own. -/
def cutEvents : List ChildEvent := [.stdout [0xE2,0x82],.stdout [0xAC]]

theorem cut_output_not_faithful :
 ¬ ∃ result : ToolResultEnvelope Unit,
  decodingRunner.executeShellTool { command := "price" } .allow
   (fun _ => .child (cutEvents++[.close (some 0)])) = .resolves result ∧
  OutputFaithful { command := "price" } cutEvents result := by
 rintro ⟨result,hr,hf,-⟩
 obtain ⟨exitCode,ho⟩:=hf (by decide)
 have hcu:decode [0xE2,0x82]++decode [0xAC]≠decode [0xE2,0x82,0xAC]:=by decide
 cases hr
 simp only [Option.some.injEq,ToolOutput.shell.injEq,←String.toList_inj] at ho
 refine hcu ?_
 simpa [decodingRunner,shellRunner,ToolRunner.append,utf8Text,cutEvents,stdoutChunks] using
  ho.2.1

theorem whole_output_faithful :
 ∃ result : ToolResultEnvelope Unit,
  decodingRunner.executeShellTool { command := "price" } .allow
   (fun _ => .child ([.stdout [0xE2,0x82,0xAC]]++[.close (some 0)])) = .resolves result ∧
  OutputFaithful { command := "price" } [.stdout [0xE2,0x82,0xAC]] result :=
 (outputFaithful_iff _ _ _ _ _ _ rfl rfl (by simp) rfl (by simp [ChildEvent.ends])).mpr
  (.inr (by simp [stdoutChunks,stderrChunks,Uncut,Cuts]))

end DhKit.ToolRuns
