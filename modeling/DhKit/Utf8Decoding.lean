import Mathlib.Data.List.Basic

/-!
# Decoding UTF-8

A sequence of bytes that is no character becomes a replacement character. It is cut off at the
first byte that cannot go on with it.
-/
namespace DhKit.Utf8Decoding
open List

/-- A character of which some bytes were read: its bits so far, the number of bytes to come, and
the bounds of the next one. -/
structure Begun where
 bits : Nat
 owed : Nat
 low : Nat
 high : Nat
 tail_low : 0x80 ≤ low
 tail_high : high ≤ 0xBF

def Begun.GoesOn (p : Begun) (b : UInt8) : Prop := p.low ≤ b.toNat ∧ b.toNat ≤ p.high

instance (p : Begun) (b : UInt8) : Decidable (p.GoesOn b) :=
 inferInstanceAs (Decidable (_ ∧ _))

def replacement : Char := Char.ofNat 0xFFFD

/-- The first byte of a character. -/
def start (b : UInt8) : List Char × Option Begun :=
 let n := b.toNat
 if n < 0x80 then ([Char.ofNat n],none)
 else if n < 0xC2 then ([replacement],none)
 else if n < 0xE0 then ([],some ⟨n-0xC0,1,0x80,0xBF,by decide,by decide⟩)
 else if n < 0xF0 then
  ([],some ⟨n-0xE0,2,if n = 0xE0 then 0xA0 else 0x80,if n = 0xED then 0x9F else 0xBF,
   by split <;> decide,by split <;> decide⟩)
 else if n < 0xF5 then
  ([],some ⟨n-0xF0,3,if n = 0xF0 then 0x90 else 0x80,if n = 0xF4 then 0x8F else 0xBF,
   by split <;> decide,by split <;> decide⟩)
 else ([replacement],none)

def step : Option Begun → UInt8 → List Char × Option Begun
 | none,b => start b
 | some p,b =>
  if p.GoesOn b then
   let bits := p.bits*64+(b.toNat-0x80)
   if p.owed = 1 then ([Char.ofNat bits],none)
   else ([],some ⟨bits,p.owed-1,0x80,0xBF,by decide,by decide⟩)
  else (replacement::(start b).1,(start b).2)

/-- What is left when the bytes end. -/
def flush : Option Begun → List Char
 | none => []
 | some _ => [replacement]

def decodeFrom (state : Option Begun) : List UInt8 → List Char
 | [] => flush state
 | b::bytes => (step state b).1++decodeFrom (step state b).2 bytes

def decode (bytes : List UInt8) : List Char := decodeFrom none bytes

/-- The state after some bytes. -/
def after (state : Option Begun) (bytes : List UInt8) : Option Begun :=
 bytes.foldl (fun state b => (step state b).2) state

/-- The bytes are cut where the later ones go on with a character of the earlier ones. -/
def Cuts (bytes later : List UInt8) : Prop :=
 ∃ p ∈ after none bytes,∃ b ∈ later.head?,p.GoesOn b

variable {state : Option Begun} {p : Begun} {b : UInt8} {bytes later : List UInt8}

theorem decodeFrom_append (bytes later : List UInt8) : ∃text,
 decodeFrom state (bytes++later)=text++decodeFrom (after state bytes) later ∧
 decodeFrom state bytes=text++flush (after state bytes) := by
 induction bytes generalizing state with
 | nil => exact ⟨[],rfl,rfl⟩
 | cons b bytes ih =>
  obtain ⟨text,hb,hf⟩:=@ih (step state b).2
  refine ⟨(step state b).1++text,?_,?_⟩
  · rw [cons_append,decodeFrom,hb,append_assoc]
    rfl
  · rw [decodeFrom,hf,append_assoc]
    rfl

theorem decode_goesOn (h:p.GoesOn b) : decode (b::bytes)=replacement::decode bytes := by
 have hl:=p.tail_low
 have hh:=p.tail_high
 have hst:start b=([replacement],none):=by
  unfold Begun.GoesOn at h
  unfold start
  rw [if_neg (by omega),if_pos (by omega)]
 rw [decode,decodeFrom,step,hst]
 rfl

theorem decodeFrom_goesOn (h:p.GoesOn b) :
 (∃c,decodeFrom (some p) (b::bytes)=c::decode bytes) ∨
  ∃q,decodeFrom (some p) (b::bytes)=decodeFrom (some q) bytes := by
 rw [decodeFrom,step,if_pos h]
 dsimp only
 split_ifs
 · exact .inl ⟨_,rfl⟩
 · exact .inr ⟨_,rfl⟩

theorem decodeFrom_not_goesOn (h:∀b∈bytes.head?,¬p.GoesOn b) :
 decodeFrom (some p) bytes=replacement::decode bytes := by
 cases bytes with
 | nil => rfl
 | cons b bytes => simp [decode,decodeFrom,step,h b rfl]

theorem length_decodeFrom_le (p : Begun) (bytes : List UInt8) :
 (decodeFrom (some p) bytes).length ≤ (decode bytes).length+1 := by
 induction bytes generalizing p with
 | nil => exact Nat.le_refl 1
 | cons b bytes ih =>
  by_cases h : p.GoesOn b
  · rw [decode_goesOn h]
    rcases @decodeFrom_goesOn p b bytes h with ⟨c,hsa⟩|⟨q,hsa⟩
    · rw [hsa]
      simp
    · rw [hsa]
      exact Nat.le_succ_of_le (ih q)
  · rw [decodeFrom_not_goesOn (by simpa using h)]
    exact Nat.le_refl _

theorem length_decodeFrom_lt (h:p.GoesOn b) :
 (decodeFrom (some p) (b::bytes)).length < (decode (b::bytes)).length+1 := by
 rw [decode_goesOn h]
 rcases @decodeFrom_goesOn p b bytes h with ⟨c,hsa⟩|⟨q,hsa⟩
 · simp [hsa]
 · rw [hsa]
   exact Nat.lt_succ_of_le (length_decodeFrom_le q bytes)

theorem decode_append (h:¬Cuts bytes later) :
 decode (bytes++later)=decode bytes++decode later := by
 obtain ⟨text,hbo,hf⟩:=@decodeFrom_append none bytes later
 rw [decode,hbo,decode,hf,append_assoc,append_cancel_left_eq]
 cases hst : after none bytes with
 | none => rfl
 | some p => exact decodeFrom_not_goesOn fun b hb hgo=>h ⟨p,hst,b,hb,hgo⟩

theorem length_decode_append (h:Cuts bytes later) :
 (decode (bytes++later)).length < (decode bytes).length+(decode later).length := by
 obtain ⟨p,hst,b,hb,hgo⟩:=h
 obtain ⟨text,hbo,hf⟩:=@decodeFrom_append none bytes later
 obtain ⟨rest,rfl⟩:=head?_eq_some_iff.mp hb
 have hl:=@length_decodeFrom_lt p b rest hgo
 rw [decode,hbo,decode,hf,hst,flush]
 simp only [length_append,length_singleton]
 omega

/-- No chunk ends inside of a character that the bytes behind it go on with. -/
def Uncut : List (List UInt8) → Prop
 | [] => True
 | chunk::chunks => ¬ Cuts chunk chunks.flatten ∧ Uncut chunks

theorem flatMap_decode_iff {chunks : List (List UInt8)} :
 chunks.flatMap decode=decode chunks.flatten ↔ Uncut chunks := by
 have hca:(Uncut chunks → chunks.flatMap decode=decode chunks.flatten) ∧
  (¬Uncut chunks → (decode chunks.flatten).length < (chunks.flatMap decode).length) := by
  induction chunks with
  | nil => exact ⟨fun _=>rfl,fun h=>absurd trivial h⟩
  | cons chunk chunks ih =>
   rw [flatMap_cons,flatten_cons,length_append]
   constructor
   · rintro ⟨hcu,hr⟩
     rw [decode_append hcu,ih.1 hr]
   intro h
   have hle:(decode chunks.flatten).length ≤ (chunks.flatMap decode).length:=by
    by_cases hr : Uncut chunks
    · exact Nat.le_of_eq (congrArg length (ih.1 hr).symm)
    · exact Nat.le_of_lt (ih.2 hr)
   by_cases hcu : Cuts chunk chunks.flatten
   · have hl:=length_decode_append hcu
     omega
   · have hl:=ih.2 fun hr=>h ⟨hcu,hr⟩
     rw [decode_append hcu,length_append]
     omega
 constructor
 · intro h
   by_contra hcu
   exact Nat.ne_of_lt (hca.2 hcu) (congrArg length h.symm)
 · exact hca.1

end DhKit.Utf8Decoding
