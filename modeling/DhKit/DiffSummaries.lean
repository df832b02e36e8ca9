import Mathlib.Algebra.Ring.Int.Defs
import Mathlib.Data.Finset.Card
import DhKit.FileTools

/-!
# Summaries of a change

The lines between the common beginning and the common end of two texts are an edit.
-/
namespace DhKit.FileTools
open List

/-- The lines of a text. A line feed ends a line, and so does a carriage return with a line feed
behind it; what stands behind the last one is a line if it is not empty. -/
inductive LinesOf : List Char → List (List Char) → Prop
 | none : LinesOf [] []
 | last {line : List Char} : line≠[] → '\n' ∉ line → LinesOf line [line]
 | feed {line rest : List Char} {lines : List (List Char)} : '\n' ∉ line →
  line.getLast?≠some '\r' → LinesOf rest lines → LinesOf (line ++ '\n' :: rest) (line::lines)
 | returned {line rest : List Char} {lines : List (List Char)} : '\n' ∉ line →
  LinesOf rest lines → LinesOf (line ++ '\r' :: '\n' :: rest) (line::lines)

/-- `removed` makes way for `added` between two parts that stay. -/
structure Edit (before after start removed added rest : List String) : Prop where
 before_eq : before = start++removed++rest
 after_eq : after = start++added++rest
 longest : ∀ l,l <+: before → l <+: after → l <+: start
 apart : removed≠[] → added≠[] → removed.getLast?≠added.getLast?

theorem LinesOf.cons {c : Char} {text line : List Char} {lines : List (List Char)}
 (h:LinesOf text (line::lines)) (hc:c ≠ '\n') (hr:c = '\r' → text.head?≠some '\n') :
 LinesOf (c::text) ((c::line)::lines) := by
 cases h with
 | last hne hn => exact .last (cons_ne_nil _ _) (by simp [hc.symm,hn])
 | feed hn hl h =>
  refine @LinesOf.feed (c::line) _ _ (by simp [hc.symm,hn]) ?_ h
  cases line with
  | nil =>
   intro he
   exact hr (by simpa using he) rfl
  | cons d line => rwa [getLast?_cons_cons]
 | returned hn h => exact @LinesOf.returned (c::line) _ _ (by simp [hc.symm,hn]) h

def dropEmptyLast (parts : List (List Char)) : List (List Char) :=
 if parts.getLast? = some [] then parts.dropLast else parts

theorem dropEmptyLast_cons {part : List Char} {parts : List (List Char)} (h:parts≠[]) :
 dropEmptyLast (part::parts)=part::dropEmptyLast parts := by
 obtain ⟨next,parts,rfl⟩:=exists_cons_of_ne_nil h
 unfold dropEmptyLast
 rw [getLast?_cons_cons,dropLast_cons_cons]
 split_ifs <;> rfl

theorem splitLines_ne_nil (text : List Char) : splitLines text≠[] := by
 fun_cases splitLines text <;> simp

theorem linesOf_splitLines (text : List Char) :
 LinesOf text (dropEmptyLast (splitLines text)) := by
 fun_induction splitLines text with
 | case1 => exact .none
 | case2 text ih =>
  rw [dropEmptyLast_cons (splitLines_ne_nil text)]
  exact @LinesOf.feed [] _ _ not_mem_nil nofun ih
 | case3 text ih =>
  rw [dropEmptyLast_cons (splitLines_ne_nil text)]
  exact @LinesOf.returned [] _ _ not_mem_nil ih
 | case4 c text hc hr hp => exact absurd hp (splitLines_ne_nil text)
 | case5 c text hc hr first others hp ih =>
  have hfeed:c = '\r' → text.head?≠some '\n' := by
   rintro rfl he
   obtain ⟨rest,rfl⟩:=head?_eq_some_iff.mp he
   exact hr rest rfl rfl
  rw [hp] at ih
  cases others with
  | cons second others =>
   rw [dropEmptyLast_cons (cons_ne_nil _ _)] at ih ⊢
   exact ih.cons hc hfeed
  | nil =>
   change LinesOf (c::text) [c::first]
   cases first with
   | nil =>
    cases ih
    exact .last (cons_ne_nil _ _) (by simp [Ne.symm hc])
   | cons d first => exact LinesOf.cons ih hc hfeed

theorem linesOf_splitFileLines (content : String) :
 LinesOf content.toList ((splitFileLines content).map String.toList) := by
 have hm:∀parts : List (List Char),(parts.map String.ofList).map String.toList=parts:=by
  intro parts
  simp [Function.comp_def]
 have hs:(splitFileLines content).map String.toList =
  dropEmptyLast (splitLines content.toList) := by
  unfold splitFileLines dropEmptyLast lines
  by_cases he:content=""
  · subst he
    rfl
  have hl:((splitLines content.toList).map String.ofList).getLast?=some "" ↔
   (splitLines content.toList).getLast?=some [] := by
   rw [getLast?_map]
   simp
  rw [if_neg he]
  simp only [hl]
  split_ifs
  · rw [←map_dropLast,hm]
  · exact hm _
 exact hs ▸ linesOf_splitLines _

theorem commonLines_split (before after : List String) : ∃start b a,before=start++b ∧
 after=start++a ∧ start.length=commonLines before after ∧ ∀x∈b.head?,x ∉ a.head? := by
 fun_induction commonLines before after with
 | case1 before line after ih =>
  obtain ⟨start,b,a,rfl,rfl,hl,hne⟩:=ih
  exact ⟨line::start,b,a,rfl,rfl,by simp [hl],hne⟩
 | case2 x before y after hne => exact ⟨[],_,_,rfl,rfl,rfl,by simpa [eq_comm] using hne⟩
 | case3 before after hem =>
  refine ⟨[],before,after,rfl,rfl,rfl,fun x hx hy=>?_⟩
  obtain ⟨b,rfl⟩:=head?_eq_some_iff.mp hx
  obtain ⟨a,rfl⟩:=head?_eq_some_iff.mp hy
  exact hem _ _ _ _ rfl rfl

theorem exists_edit (before after : List String) : ∃start removed added rest,
 Edit before after start removed added rest ∧ start.length=commonLines before after ∧
 rest.length=commonLines (before.drop start.length).reverse (after.drop start.length).reverse := by
 obtain ⟨start,b,a,rfl,rfl,hle,hne⟩:=commonLines_split before after
 obtain ⟨rest,b',a',hb,ha,hr,hla⟩:=commonLines_split b.reverse a.reverse
 rw [reverse_eq_iff,reverse_append] at hb ha
 subst hb ha
 refine ⟨start,b'.reverse,a'.reverse,rest.reverse,⟨by simp,by simp,?_,?_⟩,hle,by simpa using hr⟩
 · intro l hl hl'
   rcases prefix_or_prefix_of_prefix hl (prefix_append _ _) with h|⟨more,rfl⟩
   · exact h
   rw [prefix_append_right_inj] at hl hl'
   cases more with
   | nil => simp
   | cons x more =>
    obtain ⟨b,hb⟩:=hl
    obtain ⟨a,ha⟩:=hl'
    exact absurd (by simp [←ha]) (hne x (by simp [←hb]))
 · intro hb ha heq
   rw [getLast?_reverse,getLast?_reverse] at heq
   obtain ⟨x,hx⟩:=Option.ne_none_iff_exists'.mp (by simpa using hb : b'.head?≠none)
   exact hla x hx (heq ▸ hx)

theorem foldl_addPath (l : List String) {paths : List String} (h:paths.Nodup) :
 (l.foldl addPath paths).Nodup ∧
  (l.foldl addPath paths).toFinset=paths.toFinset ∪ l.toFinset := by
 induction l generalizing paths with
 | nil => exact ⟨h,by simp⟩
 | cons path l ih =>
  rw [foldl_cons,addPath]
  split_ifs with hme
  · obtain ⟨hn,hse⟩:=ih h
    refine ⟨hn,?_⟩
    rw [hse]
    ext x
    by_cases hx : x=path <;> simp [hx,hme]
  · obtain ⟨hn,hse⟩:=ih (concat_eq_append ▸ h.concat hme)
    refine ⟨hn,?_⟩
    rw [hse]
    ext x
    simp

theorem foldl_addSummary (summaries : List DiffSummary) (total : DiffSummary) :
 (summaries.foldl addSummary total).additions =
   total.additions+(summaries.map DiffSummary.additions).sum ∧
  (summaries.foldl addSummary total).deletions =
   total.deletions+(summaries.map DiffSummary.deletions).sum ∧
  (summaries.foldl addSummary total).paths =
   (summaries.flatMap DiffSummary.paths).foldl addPath total.paths := by
 induction summaries generalizing total with
 | nil => simp
 | cons summary summaries ih => simp [ih,addSummary,Int.add_assoc]

theorem diffSummaries_correct :
 (∀ filePath before after,before≠after → ∃ beforeLines afterLines start removed added rest,
  LinesOf before.toList (beforeLines.map String.toList) ∧
  LinesOf after.toList (afterLines.map String.toList) ∧
  Edit beforeLines afterLines start removed added rest ∧
  removed.length = (summarizeTextDiff filePath before after).deletions ∧
  added.length = (summarizeTextDiff filePath before after).additions) ∧
 ∀ summaries,(combineDiffSummaries summaries).additions =
   (summaries.map DiffSummary.additions).sum ∧
  (combineDiffSummaries summaries).deletions = (summaries.map DiffSummary.deletions).sum ∧
  (combineDiffSummaries summaries).filesChanged =
   (summaries.flatMap DiffSummary.paths).toFinset.card := by
 constructor
 · intro filePath before after hne
   obtain ⟨start,removed,added,rest,hed,hst,hr⟩:=
    exists_edit (splitFileLines before) (splitFileLines after)
   refine ⟨_,_,start,removed,added,rest,linesOf_splitFileLines before,
    linesOf_splitFileLines after,hed,?_,?_⟩
   · have hl:=congrArg length hed.before_eq
     simp only [length_append] at hl
     simp only [summarizeTextDiff,if_neg hne,←hst,←hr]
     omega
   · have hl:=congrArg length hed.after_eq
     simp only [length_append] at hl
     simp only [summarizeTextDiff,if_neg hne,←hst,←hr]
     omega
 · intro summaries
   obtain ⟨had,hde,hp⟩:=foldl_addSummary summaries ⟨0,0,0,[]⟩
   obtain ⟨hn,hse⟩:=foldl_addPath (summaries.flatMap DiffSummary.paths) nodup_nil
   refine ⟨had.trans (Int.zero_add _),hde.trans (Int.zero_add _),?_⟩
   have hca:=toFinset_card_of_nodup hn
   rw [hse,toFinset_nil,Finset.empty_union] at hca
   rw [hca,←hp]
   rfl

end DhKit.FileTools
