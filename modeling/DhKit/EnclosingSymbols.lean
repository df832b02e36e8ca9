import Mathlib.Data.List.MinMax
import DhKit.IndexTypes

/-!
# The symbol around a byte

`find_enclosing_symbol` also takes a symbol that ends at the byte.
-/
namespace DhKit.Indexer
open List

def Span.length (span : Span) : Nat := span.endByte-span.startByte

def findEnclosingSymbol (symbols : List Symbol) (byte : Nat) : Option SymbolId :=
 ((symbols.filter fun s => s.span.startByte ≤ byte ∧ byte ≤ s.span.endByte).argmin
  fun s => s.span.length).map Symbol.id

def Span.Contains (span : Span) (byte : Nat) : Prop := span.startByte ≤ byte ∧ byte < span.endByte

def Span.StrictlyInside (inner outer : Span) : Prop :=
 (∀ byte,inner.Contains byte → outer.Contains byte) ∧
  ∃ byte,outer.Contains byte ∧ ¬ inner.Contains byte

/-- Two spans are nested or disjoint. -/
def Span.Laminar (a b : Span) : Prop :=
 a.startByte ≤ b.startByte ∧ b.endByte ≤ a.endByte ∨
  b.startByte ≤ a.startByte ∧ a.endByte ≤ b.endByte ∨
  a.endByte ≤ b.startByte ∨ b.endByte ≤ a.startByte

/-- What is to be found. -/
def Innermost (symbols : List Symbol) (byte : Nat) : Option SymbolId → Prop
 | none => ∀ s ∈ symbols,¬ s.span.Contains byte
 | some id => ∃ s ∈ symbols,s.id = id ∧ s.span.Contains byte ∧
  ∀ t ∈ symbols,t.span.Contains byte → ¬ t.span.StrictlyInside s.span

theorem length_lt_of_strictlyInside {inner outer : Span} {byte : Nat} (hb:inner.Contains byte)
 (h:inner.StrictlyInside outer) : inner.length < outer.length := by
 obtain ⟨hsu,c,ho,hin⟩:=h
 have hf:=hsu inner.startByte ⟨le_refl _,by unfold Span.Contains at hb; omega⟩
 have hl:=hsu (inner.endByte-1) (by unfold Span.Contains at hb ⊢; omega)
 unfold Span.Contains Span.length at *
 omega

/-- The first of the shortest. -/
theorem argmin_filter_split {α : Type} {p : α → Prop} [DecidablePred p] {f : α → Nat} {l : List α}
 {m : α} (h:(l.filter p).argmin f=some m) : ∃front rest,l=front++m::rest ∧ p m ∧
  (∀a∈front,p a → f m < f a) ∧ ∀a∈rest,p a → f m ≤ f a := by
 induction l with
 | nil => cases h
 | cons a l ih =>
  by_cases ha : p a
  · rw [filter_cons_of_pos (by simpa using ha),argmin_cons] at h
    cases hl : (l.filter p).argmin f with
    | none =>
     rw [hl] at h
     cases h
     rw [argmin_eq_none,filter_eq_nil_iff] at hl
     exact ⟨[],l,rfl,ha,by simp,fun b hb hp=>absurd (by simpa using hp) (hl b hb)⟩
    | some c =>
     simp only [hl] at h
     split_ifs at h with hlt
     · cases h
       obtain ⟨front,rest,rfl,hm,hf,hr⟩:=ih hl
       refine ⟨a::front,rest,rfl,hm,?_,hr⟩
       simpa using ⟨fun _=>hlt,hf⟩
     · cases h
       refine ⟨[],l,rfl,ha,by simp,fun b hb hp=>?_⟩
       exact (not_lt.mp hlt).trans (le_of_mem_argmin (mem_filter.mpr ⟨hb,by simpa using hp⟩) hl)
  · rw [filter_cons_of_neg (by simpa using ha)] at h
    obtain ⟨front,rest,rfl,hm,hf,hr⟩:=ih h
    exact ⟨a::front,rest,rfl,hm,by simpa [ha] using hf,hr⟩

/-- Before a symbol that ends at the byte there has to be one around the byte that is not longer,
or behind it a shorter one. -/
theorem findEnclosingSymbol_innermost_iff (symbols : List Symbol) (byte : Nat) :
 Innermost symbols byte (findEnclosingSymbol symbols byte) ↔
  ∀ front s rest,symbols = front++s::rest → s.span.startByte ≤ byte → s.span.endByte = byte →
   (∃ t ∈ front,t.span.Contains byte ∧ t.span.length ≤ s.span.length) ∨
   ∃ t ∈ rest,t.span.Contains byte ∧ t.span.length < s.span.length := by
 unfold findEnclosingSymbol
 cases hm : (symbols.filter fun s=>s.span.startByte ≤ byte ∧ byte ≤ s.span.endByte).argmin
  fun s=>s.span.length with
 | none =>
  rw [argmin_eq_none,filter_eq_nil_iff] at hm
  refine iff_of_true (fun s hs hc=>hm s hs (by simpa using ⟨hc.1,hc.2.le⟩)) ?_
  rintro front s rest rfl hst hen
  exact absurd (by simp [hst,hen]) (hm s (by simp))
 | some m =>
  obtain ⟨front,rest,rfl,⟨hst,hen⟩,hf,hr⟩:=argmin_filter_split hm
  constructor
  · rintro ⟨s,-,hid,hs,-⟩ front' t rest' heq ht hte
    have hc:m.span.Contains byte:=by
     simp only [Symbol.id,SymbolId.mk.injEq] at hid
     unfold Span.Contains at hs ⊢
     omega
    rcases append_eq_append_iff.mp heq with ⟨_|⟨c,more⟩,rfl,hmo⟩|⟨_|⟨c,more⟩,rfl,hmo⟩
     <;> cases hmo
    · exact absurd hc.2 (by omega)
    · exact .inl ⟨m,by simp,hc,hr t (by simp) ⟨ht,hte.ge⟩⟩
    · exact absurd hc.2 (by omega)
    · exact .inr ⟨m,by simp,hc,hf t (by simp) ⟨ht,hte.ge⟩⟩
  · intro h
    have hlt:byte < m.span.endByte:=by
     refine lt_of_le_of_ne hen fun heq=>?_
     rcases h front m rest rfl hst heq.symm with ⟨t,ht,hc,hle⟩|⟨t,ht,hc,hlt⟩
     · exact absurd (hf t ht ⟨hc.1,hc.2.le⟩) (not_lt.mpr hle)
     · exact absurd (hr t ht ⟨hc.1,hc.2.le⟩) (not_le.mpr hlt)
    refine ⟨m,by simp,rfl,⟨hst,hlt⟩,fun t ht hc hin=>?_⟩
    have hle:m.span.length ≤ t.span.length:=by
     rcases mem_append.mp ht with ht|ht
     · exact (hf t ht ⟨hc.1,hc.2.le⟩).le
     · rcases mem_cons.mp ht with rfl|ht
       · exact le_refl _
       · exact hr t ht ⟨hc.1,hc.2.le⟩
    exact absurd (length_lt_of_strictlyInside hc hin) (not_lt.mpr hle)

def symbolAt (startByte endByte : Nat) : Symbol where
 fileId := ⟨1,⟨"a.ts",by decide⟩⟩
 kind := .function
 name := "f"
 qualifiedName := "f"
 signature := none
 exported := false
 asyncFlag := false
 staticFlag := false
 span := ⟨startByte,endByte,0,0,0,0⟩

/-- A function begins at the byte, and the shorter one that ends there is found. -/
theorem adjacent_not_innermost :
 [symbolAt 0 2,symbolAt 2 10].Pairwise (fun s t => s.span.Laminar t.span) ∧
  ¬ Innermost [symbolAt 0 2,symbolAt 2 10] 2
   (findEnclosingSymbol [symbolAt 0 2,symbolAt 2 10] 2) := by
 have hf:findEnclosingSymbol [symbolAt 0 2,symbolAt 2 10] 2=some (symbolAt 0 2).id:=by
  decide
 rw [hf]
 refine ⟨by simp [symbolAt,Span.Laminar],?_⟩
 rintro ⟨s,-,hid,hc,-⟩
 rw [Symbol.id,Symbol.id,SymbolId.mk.injEq] at hid
 exact absurd hc.2 (by simp [hid,symbolAt])

end DhKit.Indexer
