import Mathlib.Algebra.GroupWithZero.Nat
import Mathlib.Data.Option.Basic
import DhKit.ModuleResolver

/-!
# Path-alias patterns

`match_path_pattern` measures and slices its texts in bytes of UTF-8.
-/
namespace DhKit.Modules
open List

def utf8Length (text : List Char) : Nat := (text.map Char.utf8Size).sum

/-- A text cut at a byte index; an index inside of a character or behind the end panics. -/
def splitAtByte : Nat → List Char → Option (List Char × List Char)
 | 0,text => some ([],text)
 | _+1,[] => none
 | n+1,c::text =>
  if n+1 < c.utf8Size then none
  else (splitAtByte (n+1-c.utf8Size) text).map fun (front,rest) => (c::front,rest)

/-- `text[start..stop]` -/
def slice (text : List Char) (start stop : Nat) : Option (List Char) := do
 guard (start ≤ stop)
 let (_,rest) ← splitAtByte start text
 let (part,_) ← splitAtByte (stop-start) rest
 return part

/-- `match_path_pattern`; without a value where it panics. -/
def matchPathPatternBytes (pattern specifier : String) : Option (Option String) :=
 let stars := pattern.toList.count '*'
 if stars = 0 then some (if pattern = specifier then some "" else none)
 else if stars≠1 then some none
 else
  let before := pattern.toList.takeWhile (· ≠ '*')
  let after := (pattern.toList.dropWhile (· ≠ '*')).drop 1
  let text := specifier.toList
  if ¬ before.isPrefixOf text ∨ ¬ after.isSuffixOf text then some none
  else if utf8Length text < utf8Length before+utf8Length after then some none
  else (slice text (utf8Length before) (utf8Length text-utf8Length after)).map fun part =>
   some (String.ofList part)

section
variable (a b c : List Char)

@[simp] theorem utf8Length_append : utf8Length (a++b)=utf8Length a+utf8Length b := by
 simp [utf8Length]

theorem utf8Length_cons (d : Char) : utf8Length (d::a)=d.utf8Size+utf8Length a := by
 simp [utf8Length]

@[simp] theorem splitAtByte_append : splitAtByte (utf8Length a) (a++b)=some (a,b) := by
 induction a with
 | nil => simp [utf8Length,splitAtByte]
 | cons d a ih =>
  have hp:=d.utf8Size_pos
  have hl:=utf8Length_cons a d
  obtain ⟨n,hn⟩ : ∃n,utf8Length (d::a)=n+1 :=
   Nat.exists_eq_succ_of_ne_zero (by omega)
  have hr:n+1-d.utf8Size=utf8Length a:=by omega
  rw [hn,cons_append,splitAtByte,if_neg (by omega),hr,ih]
  rfl

theorem slice_append :
 slice (a++(b++c)) (utf8Length a) (utf8Length a+utf8Length b)=some b := by
 simp [slice]

variable {a c} {text : List Char} (hstart : a <+: text) (hend : c <:+ text)
include hstart hend

theorem exists_between (hle:a.length+c.length ≤ text.length) : ∃b,text=a++(b++c) := by
 obtain ⟨rest,rfl⟩:=hstart
 obtain ⟨b,rfl⟩ : c <:+ rest :=
  suffix_of_suffix_length_le hend (suffix_append a rest) (by simpa using hle)
 exact ⟨b,rfl⟩

/-- A beginning and an end overlap in bytes where they overlap in characters. -/
theorem overlap_iff : utf8Length text < utf8Length a+utf8Length c ↔
 text.length < a.length+c.length := by
 obtain ⟨rest,rfl⟩:=hstart
 rcases suffix_or_suffix_of_suffix hend (suffix_append a rest) with ⟨b,rfl⟩|⟨extra,rfl⟩
 · simp only [utf8Length_append,length_append]
   omega
 cases extra with
 | nil => simp
 | cons d extra =>
  have hp:=d.utf8Size_pos
  simp only [utf8Length_append,utf8Length_cons,length_append,length_cons,cons_append]
  omega

end

theorem matchPathPatternBytes_eq (pattern specifier : String) :
 matchPathPatternBytes pattern specifier=some (matchPathPattern pattern specifier) := by
 unfold matchPathPatternBytes matchPathPattern
 dsimp only
 generalize pattern.toList.takeWhile (· ≠ '*')=before
 generalize (pattern.toList.dropWhile (· ≠ '*')).drop 1=after
 generalize specifier.toList=text
 split_ifs with _ _ _ hsh hb hch hch
 any_goals rfl
 all_goals simp only [not_or,not_not, isPrefixOf_iff_prefix,isSuffixOf_iff_suffix] at hsh
 · exact absurd ((overlap_iff hsh.1 hsh.2).mp hb) hch
 · exact absurd ((overlap_iff hsh.1 hsh.2).mpr hch) hb
 obtain ⟨b,rfl⟩:=exists_between hsh.1 hsh.2 (not_lt.mp hch)
 have hst:utf8Length (before++(b++after))-utf8Length after =
  utf8Length before+utf8Length b := by
  simp only [utf8Length_append]
  omega
 rw [hst,slice_append]
 simp

section
variable {pattern : String} {before after : List Char}
 (hpattern : pattern.toList = before ++ '*' :: after) (hbefore : '*' ∉ before)
include hpattern hbefore

theorem count_starred (haf : '*' ∉ after) : pattern.toList.count '*' = 1 := by
 simp [hpattern,count_eq_zero_of_not_mem,hbefore,haf]

theorem matchPathPattern_starred (haf : '*' ∉ after) (specifier c : String) :
 matchPathPattern pattern specifier=some c ↔
  specifier.toList=before++(c.toList++after) := by
 have hf:∀d∈before,decide (d ≠ '*')=true := by
  intro d hd
  exact decide_eq_true fun heq=>hbefore (heq ▸ hd)
 have hta:pattern.toList.takeWhile (· ≠ '*')=before := by
  rw [hpattern,takeWhile_append_of_pos hf]
  simp
 have hdr:(pattern.toList.dropWhile (· ≠ '*')).drop 1=after := by
  rw [hpattern,dropWhile_append_of_pos hf]
  simp
 unfold matchPathPattern
 simp only [count_starred hpattern hbefore haf,hta,hdr]
 rw [if_neg Nat.one_ne_zero,if_neg (not_not.mpr rfl)]
 constructor
 · intro hma
   split_ifs at hma with hsh hl
   simp only [not_or,not_not, isPrefixOf_iff_prefix,isSuffixOf_iff_suffix] at hsh
   obtain ⟨b,hb⟩:=exists_between hsh.1 hsh.2 (not_lt.mp hl)
   rw [hb] at hma ⊢
   simp at hma
   simp [←hma]
 · intro htext
   have hsh:before <+: specifier.toList ∧ after <:+ specifier.toList:=
    ⟨⟨_,htext.symm⟩,⟨before++c.toList,by simp [htext]⟩⟩
   rw [if_neg (by simpa using hsh),if_neg (by simp [htext])]
   simp [htext]

end

/-- The texts that a pattern stands for: itself, or with a text in the place of its one star. -/
def Stands (pattern specifier c : String) : Prop :=
 ('*' ∉ pattern.toList ∧ pattern = specifier ∧ c = "") ∨
 ∃ before after,'*' ∉ before ∧ '*' ∉ after ∧ pattern.toList = before ++ '*' :: after ∧
  specifier.toList = before++(c.toList++after)

theorem matchPathPattern_iff (pattern specifier c : String) :
 matchPathPattern pattern specifier=some c ↔ Stands pattern specifier c := by
 constructor
 · intro hma
   by_cases hst : '*' ∈ pattern.toList
   · obtain ⟨before,after,hpattern,hbefore⟩:=eq_append_cons_of_mem hst
     by_cases haf : '*' ∈ after
     · have hco:1 < pattern.toList.count '*' := by
        have hmo:=count_pos_iff.mpr haf
        simp only [hpattern,count_append,count_cons_self]
        omega
       rw [matchPathPattern,if_neg (by omega),if_pos (by omega)] at hma
       cases hma
     · exact .inr ⟨before,after,hbefore,haf,hpattern,
        (matchPathPattern_starred hpattern hbefore haf specifier c).mp hma⟩
   · rw [matchPathPattern,if_pos (count_eq_zero_of_not_mem hst)] at hma
     split_ifs at hma with heq
     exact .inl ⟨hst,heq,(Option.some.inj hma).symm⟩
 · rintro (⟨hnone,rfl,rfl⟩|⟨before,after,hbefore,haf,hpattern,htext⟩)
   · rw [matchPathPattern,if_pos (count_eq_zero_of_not_mem hnone),if_pos rfl]
   · exact (matchPathPattern_starred hpattern hbefore haf specifier c).mpr htext

theorem applyTargetPattern_of_stands {pattern specifier c : String}
 (h:Stands pattern specifier c) : applyTargetPattern pattern c=specifier := by
 unfold applyTargetPattern
 rcases h with ⟨hnone,rfl,-⟩|⟨before,after,hbefore,haf,hpattern,htext⟩
 · rw [if_neg (by simp [count_eq_zero_of_not_mem hnone])]
 have hkept:∀l : List Char,'*' ∉ l →
  l.flatMap (fun d=>if d = '*' then c.toList else [d])=l := by
  intro l hl
  induction l with
  | nil => rfl
  | cons d l ih =>
   rw [mem_cons,not_or] at hl
   simp [Ne.symm hl.1,ih hl.2]
 rw [if_pos (count_starred hpattern hbefore haf),hpattern]
 simp [hkept,hbefore,haf,←htext]

theorem pathPattern_roundTrip (pattern specifier c : String) :
 matchPathPatternBytes pattern specifier = some (matchPathPattern pattern specifier) ∧
 (matchPathPattern pattern specifier = some c ↔ Stands pattern specifier c) ∧
 (Stands pattern specifier c → applyTargetPattern pattern c = specifier) :=
 ⟨matchPathPatternBytes_eq ..,matchPathPattern_iff ..,applyTargetPattern_of_stands⟩

end DhKit.Modules
