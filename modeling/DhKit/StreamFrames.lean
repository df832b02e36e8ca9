import Mathlib.Data.List.Basic

/-!
# Frames in a stream

A reader keeps what has arrived and takes frames off the front of it, one after another.
-/
namespace DhKit.StreamFrames
variable {α β ε σ : Type}

inductive Front (ε α β : Type) where
 | incomplete
 | refused (e : ε)
 | frame (a : α) (rest : List β)

/-- A loop that takes frames off a buffer: `handle` also says whether it goes on. -/
structure Reader (ε α β σ : Type) where
 next : List β → Front ε α β
 refuse : σ → ε → σ
 handle : σ → α → σ × Bool

namespace Reader
variable (r : Reader ε α β σ)

/-- A refused buffer is dropped. Each turn shortens the buffer, so that its length bounds
their number. -/
def drain : Nat → List β → σ → List β × σ
 | 0,buffer,s => (buffer,s)
 | n+1,buffer,s =>
  match r.next buffer with
  | .incomplete => (buffer,s)
  | .refused e => ([],r.refuse s e)
  | .frame a rest =>
   if (r.handle s a).2 then drain n rest (r.handle s a).1 else (rest,(r.handle s a).1)

def feed (x : List β × σ) (chunk : List β) : List β × σ :=
 r.drain (x.1.length+chunk.length+1) (x.1++chunk) x.2

theorem drain_invariant {motive : σ → Prop} (hh:∀s a,motive s → motive (r.handle s a).1)
 (hr:∀s e,motive s → motive (r.refuse s e)) (n : Nat) (buffer : List β) (s : σ)
 (h:motive s) : motive (r.drain n buffer s).2 := by
 induction n generalizing buffer s with
 | zero => exact h
 | succ n ih =>
  unfold drain
  cases r.next buffer with
  | incomplete => exact h
  | refused e => exact hr s e h
  | frame a rest =>
   dsimp only
   split
   · exact ih rest _ (hh s a h)
   · exact hh s a h

end Reader

end DhKit.StreamFrames
