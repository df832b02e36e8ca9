import Mathlib.Data.List.Chain
import Mathlib.Data.List.TakeWhile
import DhKit.EmbeddingPipeline
import DhKit.TextPatterns

/-!
# Cutting files into chunks

`chunkBySymbols` makes a chunk of every symbol of a file and of what lies between them;
`chunkByWindow` moves a window over the lines of a file without symbols.
-/
namespace DhKit.Embeddings
open TextPatterns List

structure IndexedFile where
 id : String
 language : String

structure IndexedSymbol where
 id : String
 lineStart : Nat
 lineEnd : Nat
deriving DecidableEq

structure ChunkerOptions where
 maxLines : Option Nat := none
 overlapLines : Option Nat := none

def ChunkerOptions.lineLimit (options : ChunkerOptions) : Nat := options.maxLines.getD 60

def ChunkerOptions.overlap (options : ChunkerOptions) : Nat := options.overlapLines.getD 8

section Chunks
variable (file : IndexedFile) (canonicalFilePath : String) (lines : List String)

/-- The text of the lines behind the first `start`, up to the line `stop`. -/
def textOf (start stop : Nat) : String := "\n".intercalate ((lines.take stop).drop start)

@[simp] def chunkAt (symbolId : Option String) (start stop : Nat) : ChunkInput :=
 ⟨file.id,canonicalFilePath,symbolId,start + 1,stop,textOf lines start stop,file.language⟩

/-- The chunk of these lines, unless they are blank. -/
def chunkOf (symbolId : Option String) (start stop : Nat) : Option ChunkInput :=
 if trim (textOf lines start stop) = "" then none
 else some (chunkAt file canonicalFilePath lines symbolId start stop)

/-- The loop of `chunkBySymbols` from a cursor on, with what comes after it. -/
def chunksFrom (cursor : Nat) : List IndexedSymbol → List ChunkInput
 | [] =>
  if cursor < lines.length then
   (chunkOf file canonicalFilePath lines none cursor lines.length).toList
  else []
 | symbol :: symbols =>
  let symStart := symbol.lineStart - 1
  let symEnd := min symbol.lineEnd lines.length
  (if cursor < symStart then (chunkOf file canonicalFilePath lines none cursor symStart).toList
   else []) ++
   (chunkOf file canonicalFilePath lines (some symbol.id) symStart symEnd).toList ++
   chunksFrom symEnd symbols

def byFirstLine (symbols : List IndexedSymbol) : List IndexedSymbol :=
 symbols.insertionSort fun a b => a.lineStart ≤ b.lineStart

def chunkBySymbols (symbols : List IndexedSymbol) : List ChunkInput :=
 chunksFrom file canonicalFilePath lines 0 (byFirstLine symbols)

/-- The first and last line of the windows of `chunkByWindow`, if its loop ends within the
rounds. -/
def windowsFrom (lineCount maxLines overlap : Nat) : Nat → Int → Option (List (Int × Int))
 | 0,_ => none
 | rounds + 1,start =>
  if start < lineCount then
   let stop := min (start + maxLines) lineCount
   if lineCount ≤ stop then some [(start,stop)]
   else (windowsFrom lineCount maxLines overlap rounds (stop - overlap)).map ((start,stop) :: ·)
  else some []

/-- A window never starts below zero: only a loop that does not end gets there. -/
def windowChunks (windows : List (Int × Int)) : List ChunkInput :=
 windows.filterMap fun window =>
  chunkOf file canonicalFilePath lines none window.1.toNat window.2.toNat

def chunkByWindow (options : ChunkerOptions) (rounds : Nat) : Option (List ChunkInput) :=
 (windowsFrom lines.length options.lineLimit options.overlap rounds 0).map
  (windowChunks file canonicalFilePath lines)

/-- What `chunkFile` splits the text of a file into. -/
def linesOf (content : String) : List String := (content.toList.splitOn '\n').map String.ofList

end Chunks

/-! ## Blank texts -/

theorem trim_eq_empty {text : String} :
 trim text = "" ↔ ∀c∈text.toList,isSpaceCharacter c=true := by
 unfold trim
 rw [←String.toList_inj,String.toList_ofList,String.toList_empty,reverse_eq_nil_iff,
  dropWhile_eq_nil_iff]
 constructor
 · intro h c hc
   rw [←takeWhile_append_dropWhile (p := isSpaceCharacter) (l := text.toList)] at hc
   rcases mem_append.mp hc with hc|hc
   · exact mem_takeWhile_imp hc
   · exact h c (mem_reverse.mpr hc)
 · intro h c hc
   exact h c ((dropWhile_sublist _).subset (mem_reverse.mp hc))

theorem trim_intercalate {texts : List String} :
 trim ("\n".intercalate texts) = "" ↔ ∀text∈texts,trim text = "" := by
 simp only [trim_eq_empty,String.toList_intercalate]
 induction texts with
 | nil => simp
 | cons text texts ih =>
  cases texts with
  | nil => simp
  | cons next texts =>
   have hfeed:isSpaceCharacter '\n' = true := by decide
   rw [map_cons,map_cons,intercalate_cons_cons,←map_cons]
   simp only [mem_append,or_imp,forall_and,ih,forall_mem_cons]
   simp [hfeed]

section Lines
variable {file : IndexedFile} {path : String} {lines : List String} {symbolId : Option String}
 {start stop : Nat} {chunk : ChunkInput}

/-- A line with text; the lines are numbered from 0 on. -/
def Written (lines : List String) (i : Nat) : Prop :=
 ∃ line,lines[i]? = some line ∧ trim line ≠ ""

theorem trim_textOf :
 trim (textOf lines start stop) ≠ "" ↔ ∃i,start ≤ i ∧ i < stop ∧ Written lines i := by
 rw [textOf,ne_eq,trim_intercalate,not_forall]
 constructor
 · rintro ⟨line,hline⟩
   rw [Classical.not_imp] at hline
   obtain ⟨hmem,hwritten⟩:=hline
   obtain ⟨i,hi⟩:=mem_iff_getElem?.mp hmem
   rw [getElem?_drop,getElem?_take] at hi
   split_ifs at hi with hlt
   exact ⟨start + i,Nat.le_add_right _ _,hlt,line,hi,hwritten⟩
 · rintro ⟨i,hstart,hstop,line,hi,hwritten⟩
   refine ⟨line,fun h=>hwritten (h (mem_iff_getElem?.mpr ⟨i - start,?_⟩))⟩
   rw [getElem?_drop,Nat.add_sub_cancel' hstart,getElem?_take,if_pos hstop,hi]

theorem mem_chunkOf :
 chunk∈chunkOf file path lines symbolId start stop ↔
  (∃i,start ≤ i ∧ i < stop ∧ Written lines i) ∧
  chunk=chunkAt file path lines symbolId start stop := by
 rw [←trim_textOf,chunkOf]
 split_ifs with hblank
 · simp [hblank]
 · simp [hblank,eq_comm]

/-- The line, numbered from 0 on, is between two lines that are numbered from 1 on. -/
abbrev Within (lineStart lineEnd i : Nat) : Prop := lineStart ≤ i + 1 ∧ i < lineEnd

def ChunkInput.Faithful (chunk : ChunkInput) (lines : List String) : Prop :=
 chunk.content = textOf lines (chunk.lineStart - 1) chunk.lineEnd

theorem faithful_of_mem_chunkOf (h:chunk∈chunkOf file path lines symbolId start stop) :
 chunk.Faithful lines := by
 rw [(mem_chunkOf.mp h).2]
 rfl

end Lines

/-! ## Windows -/

section Windows
variable {lineCount maxLines overlap rounds : Nat} {start : Int} {windows : List (Int × Int)}

theorem windowsFrom_succ (h:windowsFrom lineCount maxLines overlap rounds start=some windows) :
 windowsFrom lineCount maxLines overlap (rounds + 1) start=some windows := by
 induction rounds generalizing start windows with
 | zero => cases h
 | succ rounds ih =>
  rw [windowsFrom] at h ⊢
  dsimp only at h ⊢
  split_ifs at h ⊢ with hstart hstop
  · exact h
  · obtain ⟨later,hlater,rfl⟩:=Option.map_eq_some_iff.mp h
    rw [ih hlater,Option.map_some]
  · exact h

theorem windowsFrom_mono {more : Nat} (hmore:rounds ≤ more)
 (h:windowsFrom lineCount maxLines overlap rounds start=some windows) :
 windowsFrom lineCount maxLines overlap more start=some windows := by
 induction more,hmore using Nat.le_induction with
 | base => exact h
 | succ more _ ih => exact windowsFrom_succ ih

/-- What the windows from a start on are like, however many rounds the loop takes. -/
structure Slides (lineCount maxLines overlap : Nat) (start : Int) (windows : List (Int × Int)) :
 Prop where
 chain : windows.IsChain fun a b : Int × Int => b.1 = a.2 - overlap
 first : ∀ window ∈ windows.head?,window.1 = start
 short : ∀ window ∈ windows,0 ≤ window.1 ∧ window.2 ≤ window.1 + maxLines
 covers : ∀ i : Nat,start ≤ i → i < lineCount → ∃ window ∈ windows,window.1 ≤ i ∧ i < window.2

theorem exists_slides (h:overlap < maxLines ∨ lineCount ≤ maxLines) (hstart:0 ≤ start)
 (hrounds:lineCount < start.toNat + rounds) (hpos:0 < rounds) :
 ∃windows,windowsFrom lineCount maxLines overlap rounds start=some windows ∧
  Slides lineCount maxLines overlap start windows := by
 induction rounds generalizing start with
 | zero => cases hpos
 | succ rounds ih =>
  rw [windowsFrom]
  dsimp only
  split_ifs with hmore hlast
  · refine ⟨_,rfl,by simp,by simp,?_,?_⟩
    · simp [hstart]
    · intro i hi hlt
      exact ⟨_,mem_singleton_self _,hi,by dsimp only; omega⟩
  · obtain ⟨windows,hwindows,hslides⟩:=
     @ih (min (start + maxLines) lineCount - overlap) (by omega) (by omega) (by omega)
    rw [hwindows]
    refine ⟨_,rfl,?_,?_,?_,?_⟩
    · exact isChain_cons.mpr ⟨hslides.first,hslides.chain⟩
    · simp
    · rw [forall_mem_cons]
      exact ⟨⟨hstart,by dsimp only; omega⟩,hslides.short⟩
    · intro i hi hlt
      by_cases hin : (i : Int) < min (start + maxLines) lineCount
      · exact ⟨_,mem_cons_self,hi,hin⟩
      · obtain ⟨window,hmem,hwindow⟩:=hslides.covers i (by omega) hlt
        exact ⟨window,mem_cons_of_mem _ hmem,hwindow⟩
  · refine ⟨_,rfl,by simp,by simp,by simp,?_⟩
    intro i hi hlt
    omega

theorem windowsFrom_stuck (h:maxLines ≤ overlap) (hlines:maxLines < lineCount)
 (hstart:start ≤ 0) : windowsFrom lineCount maxLines overlap rounds start=none := by
 induction rounds generalizing start with
 | zero => rfl
 | succ rounds ih =>
  rw [windowsFrom]
  dsimp only
  rw [if_pos (by omega),if_neg (by omega),ih (by omega),Option.map_none]

end Windows

/-- The loop ends with chunks that hold every line with text, each of at most `maxLines` lines and
with their text; and a window starts `overlap` lines before the end of the one before it. -/
def WindowsCover (file : IndexedFile) (path content : String) (options : ChunkerOptions) : Prop :=
 ∃ rounds windows chunks,
  windowsFrom (linesOf content).length options.lineLimit options.overlap rounds 0 = some windows ∧
  (∀ more,rounds ≤ more →
   chunkByWindow file path (linesOf content) options more = some chunks) ∧
  (∀ i,Written (linesOf content) i →
   ∃ chunk ∈ chunks,Within chunk.lineStart chunk.lineEnd i) ∧
  (∀ chunk ∈ chunks,chunk.lineEnd < chunk.lineStart + options.lineLimit ∧
   chunk.Faithful (linesOf content)) ∧
  (options.overlap < options.lineLimit →
   windows.IsChain fun a b : Int × Int => b.1 = a.2 - options.overlap)

theorem windowsCover_iff (file : IndexedFile) (path content : String) (options : ChunkerOptions) :
 WindowsCover file path content options ↔
  options.overlap < options.lineLimit ∨ (linesOf content).length ≤ options.lineLimit := by
 constructor
 · rintro ⟨rounds,windows,-,hwindows,-⟩
   by_contra hstuck
   rw [not_or,Nat.not_lt,Nat.not_le] at hstuck
   rw [windowsFrom_stuck hstuck.1 hstuck.2 (le_refl 0)] at hwindows
   cases hwindows
 · intro h
   obtain ⟨windows,hwindows,hslides⟩:=exists_slides h (le_refl 0)
    (by omega : (linesOf content).length < (0 : Int).toNat + ((linesOf content).length + 1))
    (Nat.succ_pos _)
   refine ⟨_,windows,windowChunks file path (linesOf content) windows,hwindows,?_,?_,?_,
    fun _=>hslides.chain⟩
   · intro more hmore
     rw [chunkByWindow,windowsFrom_mono hmore hwindows,Option.map_some]
   · rintro i ⟨line,hline,hwritten⟩
     obtain ⟨hlt,-⟩:=List.getElem?_eq_some_iff.mp hline
     obtain ⟨window,hmem,hfrom,hto⟩:=hslides.covers i (by omega) hlt
     have hstart:=(hslides.short window hmem).1
     refine ⟨_,mem_filterMap.mpr ⟨window,hmem,mem_chunkOf.mpr ⟨⟨i,?_,?_,?_⟩,rfl⟩⟩,?_⟩
     · omega
     · omega
     · exact ⟨line,hline,hwritten⟩
     · simp only [Within,chunkAt]
       omega
   · intro chunk hchunk
     obtain ⟨window,hmem,hof⟩:=mem_filterMap.mp hchunk
     refine ⟨?_,faithful_of_mem_chunkOf hof⟩
     obtain ⟨⟨i,hfrom,hto,-⟩,rfl⟩:=mem_chunkOf.mp hof
     have hshort:=hslides.short window hmem
     simp only [chunkAt]
     omega

theorem equal_overlap_not_windowsCover :
 ¬ WindowsCover ⟨"f","ts"⟩ "a.ts" "x\ny" ⟨some 1,some 1⟩ := by
 rintro ⟨rounds,windows,-,hwindows,-⟩
 rw [windowsFrom_stuck (by decide) (by decide) (le_refl 0)] at hwindows
 cases hwindows

/-! ## Symbols -/

section Symbols
variable {file : IndexedFile} {path : String} {lines : List String}
 {symbols sorted : List IndexedSymbol} {cursor i : Nat}

/-- Where the next symbol starts, or the file ends. -/
def nextStart (lines : List String) (symbols : List IndexedSymbol) : Nat :=
 (symbols.head?.map fun symbol => symbol.lineStart - 1).getD lines.length

/-- The lines between the symbols, as the loop takes them: behind the end of each symbol up to the
start of the next. -/
def gapsFrom (lines : List String) (cursor : Nat) : List IndexedSymbol → List (Nat × Nat)
 | [] => [(cursor,lines.length)]
 | symbol :: symbols =>
  (cursor,symbol.lineStart - 1) :: gapsFrom lines (min symbol.lineEnd lines.length) symbols

def gapChunk (file : IndexedFile) (path : String) (lines : List String) (gap : Nat × Nat) :
 List ChunkInput :=
 (chunkOf file path lines none gap.1 gap.2).toList

def symbolChunk (file : IndexedFile) (path : String) (lines : List String)
 (symbol : IndexedSymbol) : List ChunkInput :=
 (chunkOf file path lines (some symbol.id) (symbol.lineStart - 1)
  (min symbol.lineEnd lines.length)).toList

theorem gapChunk_ite (start stop : Nat) :
 (if start < stop then (chunkOf file path lines none start stop).toList else []) =
  gapChunk file path lines (start,stop) := by
 split_ifs with hlt
 · rfl
 · rw [gapChunk,eq_comm,Option.toList_eq_nil_iff,Option.eq_none_iff_forall_not_mem]
   intro chunk hchunk
   obtain ⟨⟨i,hi⟩,-⟩:=mem_chunkOf.mp hchunk
   dsimp only at hi
   omega

theorem chunksFrom_perm :
 chunksFrom file path lines cursor symbols ~
  (gapsFrom lines cursor symbols).flatMap (gapChunk file path lines) ++
  symbols.flatMap (symbolChunk file path lines) := by
 induction symbols generalizing cursor with
 | nil =>
  rw [chunksFrom,gapChunk_ite]
  simp [gapsFrom]
 | cons symbol symbols ih =>
  rw [chunksFrom,gapChunk_ite,gapsFrom,flatMap_cons,flatMap_cons,append_assoc,append_assoc]
  refine Perm.append_left _ ((Perm.append_left _ ih).trans ?_)
  exact perm_append_comm_assoc _ _ _

theorem mem_gapsFrom {gap : Nat × Nat} :
 gap∈gapsFrom lines cursor symbols ↔
  gap=(cursor,nextStart lines symbols) ∨
  ∃before symbol behind,symbols=before ++ symbol :: behind ∧
   gap=(min symbol.lineEnd lines.length,nextStart lines behind) := by
 induction symbols generalizing cursor with
 | nil => simp [gapsFrom,nextStart]
 | cons symbol symbols ih =>
  rw [gapsFrom,mem_cons,ih]
  constructor
  · rintro (rfl|rfl|⟨before,other,behind,rfl,rfl⟩)
    · exact .inl rfl
    · exact .inr ⟨[],symbol,symbols,rfl,rfl⟩
    · exact .inr ⟨symbol :: before,other,behind,rfl,rfl⟩
  · rintro (rfl|⟨before,other,behind,hsplit,rfl⟩)
    · exact .inl rfl
    · rw [cons_eq_append_iff] at hsplit
      rcases hsplit with ⟨-,hsplit⟩|⟨before,-,hsplit⟩
      · cases hsplit
        exact .inr (.inl rfl)
      · exact .inr (.inr ⟨before,other,behind,hsplit,rfl⟩)

/-- The symbols lie in the file. -/
def InFile (lines : List String) (symbols : List IndexedSymbol) : Prop :=
 ∀ symbol ∈ symbols,1 ≤ symbol.lineStart ∧ symbol.lineStart ≤ symbol.lineEnd ∧
  symbol.lineEnd ≤ lines.length

def InOrder (symbols : List IndexedSymbol) : Prop :=
 symbols.Pairwise fun a b => a.lineStart ≤ b.lineStart

abbrev IndexedSymbol.Holds (symbol : IndexedSymbol) (i : Nat) : Prop :=
 Within symbol.lineStart symbol.lineEnd i

theorem nextStart_le (lines : List String) (horder:InOrder symbols) {symbol : IndexedSymbol}
 (h:symbol∈symbols) : nextStart lines symbols ≤ symbol.lineStart - 1 := by
 cases symbols with
 | nil => cases h
 | cons first symbols =>
  rcases mem_cons.mp h with rfl|h
  · exact le_refl _
  · exact Nat.sub_le_sub_right (rel_of_pairwise_cons horder h) 1

/-- A line outside all symbols lies in one gap, and no symbol ends or starts inside of it. -/
theorem gapsFrom_holding (hfile:InFile lines symbols) (horder:InOrder symbols)
 (hcursor:cursor ≤ i) (hi:i < lines.length)
 (hout:∀symbol∈symbols,¬symbol.Holds i) :
 ∃gap,(gapsFrom lines cursor symbols).filter (fun gap=>gap.1 ≤ i ∧ i < gap.2)=[gap] ∧
  (gap.1=cursor ∨ ∃symbol∈symbols,gap.1=symbol.lineEnd) ∧
  (gap.2=lines.length ∨ ∃symbol∈symbols,gap.2=symbol.lineStart - 1) := by
 induction symbols generalizing cursor with
 | nil => exact ⟨(cursor,lines.length),by simp [gapsFrom,hcursor,hi],.inl rfl,.inl rfl⟩
 | cons symbol symbols ih =>
  obtain ⟨hsymbol,hfile⟩:=forall_mem_cons.mp hfile
  have hend:min symbol.lineEnd lines.length=symbol.lineEnd:=by omega
  have hsymbolOut:=hout symbol mem_cons_self
  rw [gapsFrom,hend]
  by_cases hbefore : i < symbol.lineStart - 1
  · refine ⟨(cursor,symbol.lineStart - 1),?_,.inl rfl,.inr ⟨symbol,mem_cons_self,rfl⟩⟩
    rw [filter_cons_of_pos (by simp [hcursor,hbefore]),filter_eq_nil_iff.mpr]
    intro gap hgap
    -- the later gaps start at the end of this symbol or of a later one
    rcases mem_gapsFrom.mp hgap with rfl|⟨before,other,behind,rfl,rfl⟩
    · simp
      omega
    · have hother:=hfile other (by simp)
      have hstart:=(pairwise_cons.mp horder).1 other (by simp)
      simp
      omega
  · obtain ⟨gap,hgap,hfrom,hto⟩:=ih hfile (pairwise_cons.mp horder).2
     (by omega : symbol.lineEnd ≤ i) fun other hmem=>hout other (mem_cons_of_mem _ hmem)
    refine ⟨gap,?_,.inr ?_,?_⟩
    · rw [filter_cons_of_neg (by simp [hbefore]),hgap]
    · rcases hfrom with hfrom|⟨other,hmem,hfrom⟩
      · exact ⟨symbol,mem_cons_self,hfrom⟩
      · exact ⟨other,mem_cons_of_mem _ hmem,hfrom⟩
    · exact hto.imp_right fun ⟨other,hmem,hto⟩=>⟨other,mem_cons_of_mem _ hmem,hto⟩

/-- Every line with text between symbols is in one chunk without symbol, which holds no line of a
symbol, and every symbol with text has one chunk. -/
structure SymbolsCover (lines : List String) (symbols : List IndexedSymbol)
 (chunks : List ChunkInput) : Prop where
 once : ∀ i j,i < lines.length → Written lines j →
  (∀ k,min i j ≤ k → k ≤ max i j → ∀ symbol ∈ symbols,¬ symbol.Holds k) →
  (chunks.filter fun chunk => chunk.symbolId = none ∧
   Within chunk.lineStart chunk.lineEnd i).length = 1
 apart : ∀ chunk ∈ chunks,chunk.symbolId = none → ∀ symbol ∈ symbols,∀ i,
  Within chunk.lineStart chunk.lineEnd i → ¬ symbol.Holds i
 each : (chunks.filter fun chunk => chunk.symbolId ≠ none).map
   (fun chunk => (chunk.symbolId,chunk.lineStart,chunk.lineEnd)) ~
  (symbols.filter fun symbol => trim (textOf lines (symbol.lineStart - 1) symbol.lineEnd) ≠ "").map
   fun symbol => (some symbol.id,symbol.lineStart,symbol.lineEnd)
 text : ∀ chunk ∈ chunks,chunk.Faithful lines

/-- Behind a symbol that ends before an earlier one does, there is no text up to the next. -/
def BlankBehindInner (lines : List String) (sorted : List IndexedSymbol) : Prop :=
 ∀ before symbol behind,sorted = before ++ symbol :: behind →
  (∃ outer ∈ before,symbol.lineEnd < outer.lineEnd) →
  ∀ i,symbol.lineEnd ≤ i → i < nextStart lines behind → ¬ Written lines i

theorem filter_gapChunks (gaps : List (Nat × Nat)) (i : Nat) :
 (gaps.flatMap (gapChunk file path lines)).filter
  (fun chunk=>chunk.symbolId=none ∧ Within chunk.lineStart chunk.lineEnd i) =
  (gaps.filter fun gap=>gap.1 ≤ i ∧ i < gap.2).flatMap (gapChunk file path lines) := by
 induction gaps with
 | nil => rfl
 | cons gap gaps ih =>
  rw [flatMap_cons,filter_append,ih,filter_cons]
  by_cases hin : gap.1 ≤ i ∧ i < gap.2
  · rw [if_pos (decide_eq_true hin),flatMap_cons,filter_eq_self.mpr]
    intro chunk hchunk
    obtain ⟨-,rfl⟩:=mem_chunkOf.mp (Option.mem_toList.mp hchunk)
    simpa [Within] using hin
  · rw [if_neg (by simpa using hin),filter_eq_nil_iff.mpr,nil_append]
    intro chunk hchunk
    obtain ⟨-,rfl⟩:=mem_chunkOf.mp (Option.mem_toList.mp hchunk)
    simpa [Within] using hin

theorem symbolId_symbolChunks {chunk : ChunkInput}
 (h:chunk∈sorted.flatMap (symbolChunk file path lines)) : chunk.symbolId ≠ none := by
 obtain ⟨symbol,-,hchunk⟩:=mem_flatMap.mp h
 rw [(mem_chunkOf.mp (Option.mem_toList.mp hchunk)).2]
 exact Option.some_ne_none _

theorem symbolId_gapChunks {gaps : List (Nat × Nat)} {chunk : ChunkInput}
 (h:chunk∈gaps.flatMap (gapChunk file path lines)) : chunk.symbolId=none := by
 obtain ⟨gap,-,hchunk⟩:=mem_flatMap.mp h
 rw [(mem_chunkOf.mp (Option.mem_toList.mp hchunk)).2]
 rfl

theorem once_chunksFrom (hfile:InFile lines sorted) (horder:InOrder sorted) {j : Nat}
 (hi:i < lines.length) (hj:Written lines j)
 (hout:∀k,min i j ≤ k → k ≤ max i j → ∀symbol∈sorted,¬symbol.Holds k) :
 ((chunksFrom file path lines 0 sorted).filter fun chunk=>chunk.symbolId=none ∧
  Within chunk.lineStart chunk.lineEnd i).length=1 := by
 obtain ⟨gap,hgap,hfrom,hto⟩:=gapsFrom_holding hfile horder (Nat.zero_le i) hi
  (hout i (by omega) (by omega))
 have hmem:gap∈(gapsFrom lines 0 sorted).filter fun gap=>gap.1 ≤ i ∧ i < gap.2:=by
  rw [hgap]
  exact mem_singleton_self gap
 have hin:=of_decide_eq_true (mem_filter.mp hmem).2
 have hlast:=(List.getElem?_eq_some_iff.mp hj.choose_spec.1).1
 -- the line with text is in the same gap: no symbol ends or starts between
 have hstart:gap.1 ≤ j:=by
  by_contra hlt
  rcases hfrom with hfrom|⟨symbol,hsymbol,hfrom⟩
  · omega
  · have hbounds:=hfile symbol hsymbol
    refine hout (symbol.lineEnd - 1) (by omega) (by omega) symbol hsymbol ?_
    omega
 have hstop:j < gap.2:=by
  by_contra hlt
  rcases hto with hto|⟨symbol,hsymbol,hto⟩
  · omega
  · have hbounds:=hfile symbol hsymbol
    refine hout (symbol.lineStart - 1) (by omega) (by omega) symbol hsymbol ?_
    omega
 have hchunk:gapChunk file path lines gap=[chunkAt file path lines none gap.1 gap.2]:=by
  rw [gapChunk,Option.mem_def.mp (mem_chunkOf.mpr ⟨⟨j,hstart,hstop,hj⟩,rfl⟩)]
  rfl
 have hsymbols:(sorted.flatMap (symbolChunk file path lines)).filter
  (fun chunk=>chunk.symbolId=none ∧ Within chunk.lineStart chunk.lineEnd i)=[] := by
  rw [filter_eq_nil_iff]
  intro chunk hchunk
  simp [symbolId_symbolChunks hchunk]
 rw [(chunksFrom_perm.filter _).length_eq,filter_append,filter_gapChunks,hgap,hsymbols,
  flatMap_singleton,hchunk]
 rfl

theorem apart_chunksFrom_iff (hfile:InFile lines sorted) (horder:InOrder sorted) :
 (∀chunk∈chunksFrom file path lines 0 sorted,chunk.symbolId=none → ∀symbol∈sorted,∀i,
  Within chunk.lineStart chunk.lineEnd i → ¬symbol.Holds i) ↔ BlankBehindInner lines sorted := by
 constructor
 · rintro h before symbol behind rfl ⟨outer,houter,hends⟩ i hfrom hto hi
   have hsymbol:=hfile symbol (by simp)
   have hinner:=hfile outer (by simp [houter])
   have hstart:outer.lineStart ≤ symbol.lineStart:=
    (pairwise_append.mp horder).2.2 outer houter symbol mem_cons_self
   have hgap:(symbol.lineEnd,nextStart lines behind) ∈
    gapsFrom lines 0 (before ++ symbol :: behind) :=
    mem_gapsFrom.mpr (.inr ⟨before,symbol,behind,rfl,by rw [Nat.min_eq_left hsymbol.2.2]⟩)
   have hchunk:chunkAt file path lines none symbol.lineEnd (nextStart lines behind) ∈
    gapChunk file path lines (symbol.lineEnd,nextStart lines behind) :=
    Option.mem_toList.mpr (mem_chunkOf.mpr ⟨⟨i,hfrom,hto,hi⟩,rfl⟩)
   refine h _ (chunksFrom_perm.mem_iff.mpr (mem_append_left _ (mem_flatMap.mpr ⟨_,hgap,hchunk⟩)))
    rfl outer (by simp [houter]) symbol.lineEnd ?_ ?_
   · simp only [chunkAt]
     omega
   · omega
 · intro h chunk hchunk hnone symbol hsymbol i hin hholds
   rcases mem_append.mp (chunksFrom_perm.mem_iff.mp hchunk) with hgap|hsym
   · obtain ⟨gap,hmem,hof⟩:=mem_flatMap.mp hgap
     obtain ⟨⟨j,hfrom,hto,hj⟩,rfl⟩:=mem_chunkOf.mp (Option.mem_toList.mp hof)
     simp only [chunkAt] at hin
     rcases mem_gapsFrom.mp hmem with rfl|⟨before,other,behind,rfl,rfl⟩
     · have hnext:=nextStart_le lines horder hsymbol
       dsimp only at hin
       omega
     · have hother:=hfile other (by simp)
       dsimp only at hin hfrom hto
       rw [Nat.min_eq_left hother.2.2] at hin hfrom
       simp only [mem_append,mem_cons] at hsymbol
       rcases hsymbol with hmem|rfl|hmem
       · by_contra
         exact h before other behind rfl ⟨symbol,hmem,by omega⟩ j hfrom hto hj
       · omega
       · have hnext:=nextStart_le lines
          (pairwise_cons.mp (pairwise_append.mp horder).2.1).2 hmem
         omega
   · exact symbolId_symbolChunks hsym hnone

theorem each_chunksFrom (hfile:InFile lines sorted) :
 ((sorted.flatMap (symbolChunk file path lines)).map fun chunk=>
  (chunk.symbolId,chunk.lineStart,chunk.lineEnd)) =
  (sorted.filter fun symbol=>
   trim (textOf lines (symbol.lineStart - 1) symbol.lineEnd) ≠ "").map
   fun symbol=>(some symbol.id,symbol.lineStart,symbol.lineEnd) := by
 induction sorted with
 | nil => rfl
 | cons symbol sorted ih =>
  obtain ⟨hsymbol,hfile⟩:=forall_mem_cons.mp hfile
  rw [flatMap_cons,map_append,ih hfile,filter_cons,symbolChunk,chunkOf,
   Nat.min_eq_left hsymbol.2.2]
  split_ifs <;> simp_all

theorem symbolsCover_iff (file : IndexedFile) (path content : String)
 (symbols : List IndexedSymbol) (hfile : InFile (linesOf content) symbols) :
 SymbolsCover (linesOf content) symbols
  (chunkBySymbols file path (linesOf content) symbols) ↔
  BlankBehindInner (linesOf content) (byFirstLine symbols) := by
 have hperm:byFirstLine symbols ~ symbols:=perm_insertionSort _ _
 have horder:InOrder (byFirstLine symbols):=by
  have : Std.Total fun a b : IndexedSymbol=>a.lineStart ≤ b.lineStart :=
   ⟨fun a b=>le_total _ _⟩
  have : IsTrans IndexedSymbol fun a b=>a.lineStart ≤ b.lineStart :=
   ⟨fun a b c hab hbc=>hab.trans hbc⟩
  exact pairwise_insertionSort _ _
 have hfile':InFile (linesOf content) (byFirstLine symbols):=
  fun symbol hmem=>hfile symbol (hperm.mem_iff.mp hmem)
 rw [←apart_chunksFrom_iff hfile' horder]
 constructor
 · intro h chunk hchunk hnone symbol hsymbol
   exact h.apart chunk hchunk hnone symbol (hperm.mem_iff.mp hsymbol)
 · intro h
   refine ⟨?_,?_,?_,?_⟩
   · intro i j hi hj hout
     exact once_chunksFrom hfile' horder hi hj fun k hfrom hto symbol hmem=>
      hout k hfrom hto symbol (hperm.mem_iff.mp hmem)
   · intro chunk hchunk hnone symbol hsymbol
     exact h chunk hchunk hnone symbol (hperm.mem_iff.mpr hsymbol)
   · refine ((chunksFrom_perm.filter _).map _).trans ?_
     rw [filter_append,filter_eq_nil_iff.mpr,filter_eq_self.mpr,nil_append,each_chunksFrom hfile']
     · exact (hperm.filter _).map _
     · intro chunk hchunk
       simpa using symbolId_symbolChunks hchunk
     · intro chunk hchunk
       simpa using symbolId_gapChunks hchunk
   · intro chunk hchunk
     rcases mem_append.mp (chunksFrom_perm.mem_iff.mp hchunk) with hgap|hsymbol
     · obtain ⟨gap,-,hof⟩:=mem_flatMap.mp hgap
       exact faithful_of_mem_chunkOf (Option.mem_toList.mp hof)
     · obtain ⟨symbol,-,hof⟩:=mem_flatMap.mp hsymbol
       exact faithful_of_mem_chunkOf (Option.mem_toList.mp hof)

/-- A class of three lines whose only method is on its second line. -/
def nestedSymbols : List IndexedSymbol := [⟨"class",1,3⟩,⟨"method",2,2⟩]

theorem nested_not_symbolsCover :
 ¬ SymbolsCover (linesOf "a\nb\nc") nestedSymbols
  (chunkBySymbols ⟨"f","ts"⟩ "a.ts" (linesOf "a\nb\nc") nestedSymbols) := by
 intro h
 exact h.apart ⟨"f","a.ts",none,3,3,"c","ts"⟩ (by decide) rfl ⟨"class",1,3⟩
  (by decide) 2 (by decide) (by decide)

/-- The method is followed by blank lines only. -/
theorem symbolsCover_nested :
 SymbolsCover (linesOf "a\nb\n \n") nestedSymbols
  (chunkBySymbols ⟨"f","ts"⟩ "a.ts" (linesOf "a\nb\n \n") nestedSymbols) := by
 refine (symbolsCover_iff _ _ _ _ ?_).mpr ?_
 · unfold InFile
   decide
 · have hblank:∀i < 4,2 ≤ i → trim ((linesOf "a\nb\n \n")[i]?.getD "") = "" := by decide
   have hlines:(linesOf "a\nb\n \n").length=4 := by decide
   have hsorted:byFirstLine nestedSymbols=nestedSymbols:=by decide
   rw [hsorted]
   rintro before symbol behind hsplit ⟨outer,houter,-⟩ i hfrom hto ⟨line,hline,hwritten⟩
   have hi:=(List.getElem?_eq_some_iff.mp hline).1
   have hend:2 ≤ symbol.lineEnd:=by
    have hall:∀symbol∈nestedSymbols,2 ≤ symbol.lineEnd:=by decide
    exact hall symbol (by simp [hsplit])
   have htext:=hblank i (hlines ▸ hi) (by omega)
   rw [hline] at htext
   exact hwritten htext

end Symbols

end DhKit.Embeddings
