import Mathlib.Data.List.Infix

/-!
# Lists of tokens as text

Tokens that do not contain a separator are written each with the separator after it.
-/
namespace DhKit.SeparatedText
open List
variable {α : Type} {sep : α} {t : List α} {tokens : List (List α)}

def joined (sep : α) (tokens : List (List α)) : List α := tokens.flatMap fun t => t++[sep]

@[simp] theorem joined_nil (sep : α) : joined sep []=[] := rfl

@[simp] theorem joined_cons (sep : α) (t : List α) (tokens : List (List α)) :
 joined sep (t::tokens)=t++sep::joined sep tokens := by simp [joined]

theorem joined_append (sep : α) (tokens tokens' : List (List α)) :
 joined sep (tokens++tokens')=joined sep tokens++joined sep tokens' :=
 flatMap_append

theorem prefix_append_cons_iff {text more : List α} (ht:sep ∉ t) :
 t <+: text++sep::more ↔ t <+: text := by
 induction t generalizing text with
 | nil => simp
 | cons c t ih =>
  have hc:c≠sep:=by
   rintro rfl
   exact ht mem_cons_self
  cases text with
  | nil => simp [hc]
  | cons d text =>
   simp only [cons_append,cons_prefix_cons]
   rw [ih fun hm=>ht (mem_cons_of_mem _ hm)]

theorem token_eq_of_starts {u rest : List α} (ht:sep ∉ t) (hu:sep ∉ u)
 (h:t++[sep] <+: u++sep::rest) : t=u := by
 obtain ⟨more,rfl⟩:=(prefix_append_cons_iff ht).mp ((prefix_append t [sep]).trans h)
 rw [append_assoc,prefix_append_right_inj] at h
 cases more with
 | nil => simp
 | cons c more => exact absurd (by simp [(cons_prefix_cons.mp h).1]) hu

theorem infix_after_token {l rest : List α} (ht:sep ∉ t)
 (h:sep::l <:+: t++sep::rest) : sep::l <:+: sep::rest := by
 induction t with
 | nil => exact h
 | cons c t ih =>
  rcases infix_cons_iff.mp h with hp|hi
  · rw [cons_prefix_cons] at hp
    exact absurd (hp.1 ▸ mem_cons_self) ht
  · exact ih (fun hm=>ht (mem_cons_of_mem _ hm)) hi

theorem infix_joined_iff (ht:sep ∉ t) (hto:∀u∈tokens,sep ∉ u) :
 sep::(t++[sep]) <:+: sep::joined sep tokens ↔ t∈tokens := by
 induction tokens with
 | nil =>
  simp only [not_mem_nil,iff_false]
  intro h
  have hl:=h.length_le
  simp at hl
 | cons u tokens ih =>
  have ih:=ih fun v hv=>hto v (mem_cons_of_mem _ hv)
  have hu:=hto u mem_cons_self
  rw [joined_cons,mem_cons]
  constructor
  · intro h
    rcases infix_cons_iff.mp h with hp|hi
    · exact .inl (token_eq_of_starts ht hu (cons_prefix_cons.mp hp).2)
    · exact .inr (ih.mp (infix_after_token hu hi))
  · rintro (rfl|hme)
    · exact (cons_prefix_cons.mpr ⟨rfl,joined sep tokens,by simp⟩).isInfix
    · -- the text from the second separator on
      have hsu:sep::joined sep tokens <:+ sep::(u++sep::joined sep tokens):=
       ⟨sep::u,by simp⟩
      exact (ih.mpr hme).trans hsu.isInfix

theorem last_separator_inj {a a' b b' : List α} (hb:sep ∉ b) (hb':sep ∉ b')
 (h:a++sep::b=a'++sep::b') : a=a' ∧ b=b' := by
 rcases append_eq_append_iff.mp h with ⟨more,rfl,heq⟩|⟨more,rfl,heq⟩
 · cases more with
   | nil => simpa using heq
   | cons d more => exact absurd (by simp [(cons.inj heq).2]) hb
 · cases more with
   | nil => simpa [eq_comm] using heq
   | cons d more => exact absurd (by simp [(cons.inj heq).2]) hb'

section
variable {c : Char} (hc : c.isDigit = false)
include hc

theorem not_mem_natText (n : Nat) : c ∉ (toString n).toList := by
 change c ∉ n.repr.toList
 rw [Nat.repr_eq_ofList_toDigits,String.toList_ofList]
 intro h
 simp [Nat.isDigit_of_mem_toDigits (by omega) (by omega) h] at hc

theorem not_mem_intText (hmi:c ≠ '-') (i : Int) : c ∉ (toString i).toList := by
 change c ∉ i.repr.toList
 rw [Int.repr_eq_if]
 split_ifs
 · exact not_mem_natText hc _
 · rw [String.toList_append,mem_append,not_or]
   exact ⟨by simpa using hmi,not_mem_natText hc _⟩

end

theorem natText_injective : Function.Injective (toString : Nat → String) := by
 intro m n h
 change m.repr=n.repr at h
 rw [Nat.repr_eq_ofList_toDigits,Nat.repr_eq_ofList_toDigits,String.ofList_inj] at h
 rw [←@Nat.ofDigitChars_ten_toDigits m,h,Nat.ofDigitChars_ten_toDigits]

theorem intText_injective : Function.Injective (toString : Int → String) := by
 intro i j h
 have hdash:∀n : Nat,'-' ∉ n.repr.toList:=not_mem_natText (by decide)
 change i.repr=j.repr at h
 rw [Int.repr_eq_if,Int.repr_eq_if] at h
 split_ifs at h with hi hj hj
 · have hn:=natText_injective h
   omega
 · exact absurd (by simp [h]) (hdash i.toNat)
 · exact absurd (by simp [←h]) (hdash j.toNat)
 · rw [←String.toList_inj,String.toList_append,String.toList_append] at h
   have hn:=natText_injective (String.toList_inj.mp (append_cancel_left h))
   omega

variable [BEq α] [LawfulBEq α]

theorem splitOn_joined (h:∀u∈tokens,sep ∉ u) :
 (joined sep tokens).splitOn sep=tokens++[[]] := by
 induction tokens with
 | nil => simp
 | cons u tokens ih =>
  have ih:=ih fun v hv=>h v (mem_cons_of_mem _ hv)
  have hu:∀x∈u,(x == sep)=false:=fun x hx=>
   beq_eq_false_iff_ne.mpr fun he=>h u mem_cons_self (he ▸ hx)
  rw [List.splitOn] at ih ⊢
  rw [joined_cons,splitOnP_append_cons_of_forall_mem hu sep (by simp),ih]
  rfl

theorem joined_inj {tokens' : List (List α)} (h:∀u∈tokens,sep ∉ u)
 (h':∀u∈tokens',sep ∉ u) (heq:joined sep tokens=joined sep tokens') :
 tokens=tokens' := by
 have hsp:=splitOn_joined h
 rw [heq,splitOn_joined h'] at hsp
 exact (append_cancel_right hsp).symm

end DhKit.SeparatedText
